import DeclBundle.Proofs.Compiler.Compiled
import DeclBundle.Proofs.ModuleId.Distinct
set_option autoImplicit false

/-!
# Where declarations lie

A file that is a declaration from the start lies where it is.  The declaration of any other file is
said to lie in the directory of declarations, where the stem of the file leads.  Both kinds of
declarations meet in one bundle, and two of them have the same identifier just if the files clash
(`ofFile_declarationPath_eq_iff`).
-/

namespace DeclBundle.Path

open Text

theorem normalize_ne_empty (p : String) : normalize p ≠ "" := by
  unfold normalize
  simp only
  split
  · decide
  · assumption

/-- The way from one path to another never starts at the root. -/
theorem isAbsolute_relative (cwd p start : String) : isAbsolute (relative cwd p start) = false := by
  unfold relative
  simp only
  split
  · decide
  · apply isAbsolute_ofSegments
    intro seg hseg
    rcases List.mem_append.1 hseg with hup | hdown
    · rw [(List.mem_replicate.1 hup).2]
      exact ⟨by decide, by decide⟩
    · obtain ⟨hmem, hne⟩ := List.mem_filter.1 (List.mem_of_mem_drop hdown)
      exact ⟨by simpa using hne, not_mem_of_mem_segments hmem⟩

end DeclBundle.Path

namespace DeclBundle.ModuleId

open Text DeclBundle.Path

/-- What follows a directory and a slash goes on behind the directory without its trailing
slashes. -/
theorem beginsWith_stripped_slash (front name : String) :
    beginsWith (front ++ ("/" ++ name)) (stripped front ++ "/") = true := by
  obtain ⟨slashes, hsplit, hslashes⟩ := exists_stripped_append front
  rcases goesOn_append hslashes (goesOn_slash_append name) with hempty | hgoes
  · simp [String.append_eq_empty_iff] at hempty
  · obtain ⟨tail, htail⟩ := beginsWith_iff.1 hgoes
    refine beginsWith_iff.2 ⟨tail, ?_⟩
    calc (stripped front ++ "/").toList ++ tail
        = (stripped front).toList ++ ("/".toList ++ tail) := by
          rw [String.toList_append, List.append_assoc]
      _ = (stripped front ++ (slashes ++ ("/" ++ name))).toList := by
          rw [htail, ← String.toList_append]
      _ = (front ++ ("/" ++ name)).toList := by
          rw [← String.append_assoc, ← hsplit]

/-- The base directory is under itself, and so is what goes on behind it. -/
theorem isUnder_iff {path base : String} :
    isUnder path base = true ↔ path = base ∨ beginsWith path (stripped base ++ "/") = true := by
  rw [isUnder, Bool.or_eq_true, beq_iff_eq]
  rfl

/-- A file in a directory under a base directory lies under the base directory. -/
theorem isUnder_join {directory base name : String} (hbase : base ≠ "")
    (h : isUnder directory base = true) (hname : isAbsolute name = false) :
    isUnder (join directory name) base = true := by
  have hdirectory : directory ≠ "" := by
    rintro rfl
    rcases isUnder_iff.1 h with hempty | hbegins
    · exact hbase hempty.symm
    · obtain ⟨tail, htail⟩ := beginsWith_iff.1 hbegins
      simp at htail
  obtain ⟨front, hfront, hjoin⟩ := exists_join_eq hdirectory
  rw [hjoin name hname, isUnder_iff]
  right
  rcases isUnder_iff.1 h with rfl | hbegins
  · have hstripped : stripped directory = stripped front := by
      rcases hfront with rfl | rfl
      · rfl
      · exact stripped_append front isSlashes_slash
    rw [hstripped]
    exact beginsWith_stripped_slash front name
  · obtain ⟨tail, htail⟩ := beginsWith_iff.1 hbegins
    obtain ⟨rest, hrest⟩ : ∃ rest, front ++ ("/" ++ name) = directory ++ rest := by
      rcases hfront with rfl | rfl
      · exact ⟨_, rfl⟩
      · exact ⟨name, by rw [String.append_assoc]⟩
    refine beginsWith_iff.2 ⟨tail ++ rest.toList, ?_⟩
    rw [hrest, ← List.append_assoc, htail, ← String.toList_append]

/-- A text without a suffix is a beginning of it. -/
theorem exists_withoutSuffix_append (s suffix : String) : ∃ rest, withoutSuffix s suffix ++ rest = s := by
  unfold withoutSuffix
  split
  · refine ⟨.ofList (s.toList.drop (s.toList.length - suffix.toList.length)), ?_⟩
    apply String.toList_inj.1
    rw [withoutLast, String.toList_append, String.toList_ofList, String.toList_ofList,
      List.take_append_drop]
  · exact ⟨"", String.append_empty⟩

end DeclBundle.ModuleId

namespace DeclBundle.CommandCompiler

open Text DeclBundle.Path ModuleId

variable {place : Files.Place} {request : Request} {file other : String}

/-! ## Paths of declarations -/

/-- What the path of the declaration of a source file is made of: its way below the base directory,
without its source suffix. -/
def stem (place : Files.Place) (request : Request) (file : String) : String :=
  withoutSourceSuffix (relative place.workingDirectory file request.base)

theorem emittedName_eq (place : Files.Place) (request : Request) (file : String) :
    emittedName place request file = stem place request file ++ declarationSuffix := rfl

/-- The path where the declaration of a file below the base directory is said to lie. -/
def declarationPath (place : Files.Place) (request : Request) (file : String) : String :=
  if finishesWith file declarationSuffix then file
  else join request.declarationDirectory (stem place request file ++ declarationSuffix)

theorem declarationPath_of_source (h : finishesWith file declarationSuffix = false) :
    declarationPath place request file =
      join request.declarationDirectory (stem place request file ++ declarationSuffix) := by
  rw [declarationPath, if_neg (by simp [h])]

theorem declarationPath_of_input (h : finishesWith file declarationSuffix = true) :
    declarationPath place request file = file := by
  rw [declarationPath, if_pos h]

theorem isAbsolute_stem_append (place : Files.Place) (request : Request) (file : String) :
    isAbsolute (stem place request file ++ declarationSuffix) = false := by
  rw [Bool.eq_false_iff]
  intro habsolute
  obtain ⟨rest, hrest⟩ := isAbsolute_iff.1 habsolute
  have hbegins : ∃ tail, stem place request file ++ tail =
      relative place.workingDirectory file request.base := by
    unfold stem withoutSourceSuffix
    split
    · exact exists_withoutSuffix_append _ _
    · exact exists_withoutSuffix_append _ _
  obtain ⟨tail, htail⟩ := hbegins
  have hrelative := isAbsolute_relative place.workingDirectory file request.base
  rw [← htail] at hrelative
  rw [String.toList_append] at hrest
  cases hstem : (stem place request file).toList with
  | nil =>
    rw [hstem] at hrest
    cases hrest
  | cons c cs =>
    rw [hstem] at hrest
    obtain ⟨rfl, -⟩ := List.cons.inj hrest
    rw [isAbsolute_iff.2 ⟨cs ++ tail.toList, by rw [String.toList_append, hstem]; rfl⟩] at hrelative
    cases hrelative

theorem declarationDirectory_ne_empty (request : Request) : request.declarationDirectory ≠ "" := by
  unfold Request.declarationDirectory
  split
  · exact normalize_ne_empty _
  · exact normalize_ne_empty _

/-- Declarations lie under the base directory. -/
theorem isUnder_declarationPath
    (hout : isUnder request.declarationDirectory request.base = true)
    (hfile : isUnder file request.base = true) :
    isUnder (declarationPath place request file) request.base = true := by
  unfold declarationPath
  split
  · exact hfile
  · exact isUnder_join (normalize_ne_empty _) hout (isAbsolute_stem_append place request file)

/-- Declarations have the suffix of declarations. -/
theorem finishesWith_declarationPath (place : Files.Place) (request : Request) (file : String) :
    finishesWith (declarationPath place request file) declarationSuffix = true := by
  unfold declarationPath
  split
  · assumption
  · obtain ⟨front, -, hjoin⟩ := exists_join_eq (declarationDirectory_ne_empty request)
    rw [hjoin _ (isAbsolute_stem_append place request file), finishesWith_iff, String.toList_append,
      String.toList_append, String.toList_append, ← List.append_assoc, ← List.append_assoc]
    exact List.suffix_append _ _

/-- What has been collected for a file is at most its declaration, at the path where that is said to
lie. -/
theorem declarationPath_of_collect {files : Files.FileTree} {directory : String}
    {listing : Listing} {collected : CompiledFile} {declaration : SourceFile}
    (h : collect place files request directory listing file = .ok collected)
    (hdeclaration : collected.declaration = some declaration) :
    isUnder file request.base = true ∧
      declaration.fileName = declarationPath place request file := by
  obtain ⟨-, -, hfate⟩ := collect_cases h
  generalize hfound : collected.declaration = found at hfate
  generalize collected.emitSkipped = skipped at hfate
  rw [hdeclaration] at hfound
  cases hfate with
  | outside => cases hfound
  | preDeclared text hunder hsuffix htext =>
    refine ⟨hunder, ?_⟩
    rw [declarationPath_of_input hsuffix, Option.some.inj hfound]
  | written text hunder hsuffix htext =>
    refine ⟨hunder, ?_⟩
    rw [declarationPath_of_source hsuffix, ← emittedName_eq, Option.some.inj hfound]
  | skipped => cases hfound

/-! ## Clashes -/

/-- Whether the declarations of two files lie at the same place, slashes and backslashes taken for
one. -/
inductive Clash (place : Files.Place) (request : Request) (file other : String) : Prop where
  /-- two files that are no declarations have the same stem -/
  | sources (h : finishesWith file declarationSuffix = false)
      (h' : finishesWith other declarationSuffix = false)
      (hstem : withSlashes (stem place request file) = withSlashes (stem place request other)) :
      Clash place request file other
  /-- two declarations are the same file -/
  | inputs (h : finishesWith file declarationSuffix = true)
      (h' : finishesWith other declarationSuffix = true)
      (hpath : withSlashes file = withSlashes other) : Clash place request file other
  /-- the second file is a declaration where that of the first one is said to lie -/
  | sourceInput (h : finishesWith file declarationSuffix = false)
      (h' : finishesWith other declarationSuffix = true)
      (hpath : withSlashes (declarationPath place request file) = withSlashes other) :
      Clash place request file other
  /-- the first file is a declaration where that of the second one is said to lie -/
  | inputSource (h : finishesWith file declarationSuffix = true)
      (h' : finishesWith other declarationSuffix = false)
      (hpath : withSlashes file = withSlashes (declarationPath place request other)) :
      Clash place request file other

/-- The declarations of two files that are none lie at the same place just if the files have the same
stem. -/
theorem withSlashes_declarationPath_eq_iff (h : finishesWith file declarationSuffix = false)
    (h' : finishesWith other declarationSuffix = false) :
    withSlashes (declarationPath place request file) =
        withSlashes (declarationPath place request other) ↔
      withSlashes (stem place request file) = withSlashes (stem place request other) := by
  obtain ⟨front, -, hjoin⟩ := exists_join_eq (declarationDirectory_ne_empty request)
  rw [declarationPath_of_source h, declarationPath_of_source h',
    hjoin _ (isAbsolute_stem_append place request file),
    hjoin _ (isAbsolute_stem_append place request other)]
  simp only [withSlashes_append, String.append_right_inj, String.append_left_inj]

theorem clash_iff : Clash place request file other ↔
    withSlashes (declarationPath place request file) =
      withSlashes (declarationPath place request other) := by
  constructor
  · intro h
    cases h with
    | sources h h' hstem => exact (withSlashes_declarationPath_eq_iff h h').2 hstem
    | inputs h h' hpath => rwa [declarationPath_of_input h, declarationPath_of_input h']
    | sourceInput h h' hpath => rwa [declarationPath_of_input h']
    | inputSource h h' hpath => rwa [declarationPath_of_input h]
  · intro hpath
    cases h : finishesWith file declarationSuffix with
    | false =>
      cases h' : finishesWith other declarationSuffix with
      | false => exact .sources h h' ((withSlashes_declarationPath_eq_iff h h').1 hpath)
      | true => exact .sourceInput h h' (by rwa [declarationPath_of_input h'] at hpath)
    | true =>
      rw [declarationPath_of_input h] at hpath
      cases h' : finishesWith other declarationSuffix with
      | false => exact .inputSource h h' hpath
      | true => exact .inputs h h' (by rwa [declarationPath_of_input h'] at hpath)

/-- The declarations of two files under the base directory have the same identifier just if the files
clash. -/
theorem ofFile_declarationPath_eq_iff (package : String)
    (hout : isUnder request.declarationDirectory request.base = true)
    (hfile : isUnder file request.base = true) (hother : isUnder other request.base = true) :
    ofFile request.base package (declarationPath place request file) =
        ofFile request.base package (declarationPath place request other) ↔
      Clash place request file other := by
  rw [clash_iff]
  exact ofFile_eq_iff package (isUnder_declarationPath hout hfile)
    (isUnder_declarationPath hout hother) (finishesWith_declarationPath place request file)
    (finishesWith_declarationPath place request other)

end DeclBundle.CommandCompiler
