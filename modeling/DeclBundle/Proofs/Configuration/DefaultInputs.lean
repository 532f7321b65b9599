import DeclBundle.Proofs.Configuration.Listed
set_option autoImplicit false

/-!
# The inputs of a project that says nothing

A project that does not say which files belong to it has all source files beneath its directory that
are not hidden, but for packages and for its own output, in ascending order (`Project.load_default`).
It says nothing if no file of its lineage does; a project with a lineage can be read
(`Lineage.isSettled`).
-/

namespace DeclBundle.Configuration

open Text Data
open DeclBundle.Path (IsName IsOrdinary IsUndotted ofRoot)

variable {files : Files.FileTree} {place : Files.Place} {file directory l : Location}
  {lineage : List ProjectFile} {merged : Merged} {path : String}

/-! ## Projects with a lineage -/

/-- Every name leads to a file with a lineage, which is a part of the whole. -/
theorem Lineages.exists_lineage {names : List String} {before : List ProjectFile}
    (h : Lineages files place directory names before) {name : String} (hname : name ∈ names) :
    ∃ base first, resolveExtends files place directory name = .ok base ∧
      Lineage files place base first ∧ first.length ≤ before.length := by
  induction names generalizing before with
  | nil => cases hname
  | cons other names ih =>
    cases h with
    | @cons _ base _ _ first rest hbase hfirst hrest =>
      rcases List.mem_cons.1 hname with rfl | hname
      · exact ⟨base, first, hbase, hfirst, by simp⟩
      · obtain ⟨base, found, hbase, hfound, hlength⟩ := ih hrest hname
        exact ⟨base, found, hbase, hfound, by simp; omega⟩

/-- A project file with a lineage extends only what can be read, and nothing in it reaches itself. -/
theorem Lineage.isSettled (h : Lineage files place file lineage) : IsSettled files place file := by
  -- the lineage of a file that is extended is shorter, which stands in for a mutual induction
  induction hlength : lineage.length using Nat.strong_induction_on generalizing file lineage with
  | _ length ih =>
    cases h with
    | @intro _ ms before hms hbases =>
      refine isSettled_of_bases hms fun name hname => ?_
      obtain ⟨base, first, hbase, hfirst, hle⟩ := hbases.exists_lineage hname
      refine ⟨base, hbase, ih first.length ?_ hfirst rfl⟩
      rw [← hlength, List.length_append]
      exact Nat.lt_succ_of_le hle

/-- What a project file with a lineage says is what the lineage says. -/
theorem exists_read_of_lineage (hplace : Path.isAbsolute place.workingDirectory = true)
    (h : Lineage files place file lineage) :
    ∃ merged, Merged.read files place file = .ok merged ∧ merged.Flattens lineage := by
  have hyields := @yields_read files place hplace file
  cases hread : Merged.read files place file with
  | error fault =>
    rw [hread] at hyields
    have hcircular := hyields.circular_of_error h.isSettled.isComplete (by simp)
    exact absurd hcircular.2 h.isSettled.not_hasCycle
  | ok merged =>
    rw [hread] at hyields
    obtain ⟨other, hother, hflat⟩ := hyields.descends
    exact ⟨merged, rfl, (hother lineage).1 h ▸ hflat⟩

/-- Whether no file of a lineage says which files belong to the project. -/
def IsSilent (lineage : List ProjectFile) : Prop :=
  ∀ f ∈ lineage, ∀ key ∈ ["files", "include", "exclude"], Value.member? f.members key = none

theorem IsSilent.lastWord_eq (h : IsSilent lineage) {key : String}
    (hkey : key ∈ ["files", "include", "exclude"]) : lastWord (·.paths? key) lineage = none := by
  rw [lastWord, List.findSome?_eq_none_iff]
  intro f hf
  rw [ProjectFile.paths?, h f (List.mem_reverse.1 hf) key hkey]
  rfl

/-! ## Ascending order -/

/-- What a pattern finds is in ascending order. -/
theorem Merged.pairwise_found (files : Files.FileTree) (place : Files.Place) (pattern : String) :
    (found files place pattern).Pairwise (· ≤ ·) := by
  have hle : ∀ a b : String, (!decide (b < a)) = true ↔ a ≤ b := fun a b => by
    rw [Bool.not_eq_true', decide_eq_false_iff_not, String.not_lt]
  unfold found
  refine (List.pairwise_mergeSort (fun a b c hab hbc => ?_) (fun a b => ?_) _).imp fun hab => ?_
  · exact (hle a c).2 (String.le_trans ((hle a b).1 hab) ((hle b c).1 hbc))
  · rw [Bool.or_eq_true, hle, hle]
    exact String.le_total a b
  · exact (hle _ _).1 hab

/-- What a single pattern adds is in ascending order. -/
theorem Merged.pairwise_contributed {m : Merged} {outDir : Option String} {pattern : String}
    (h : m.includePatterns directory = [pattern]) :
    (m.contributed files place directory outDir).Pairwise (· ≤ ·) := by
  rw [contributed, h, List.flatMap_singleton]
  exact (pairwise_found files place pattern).filter _

/-- Without repetitions, an ascending list is strictly so. -/
theorem pairwise_withoutRepetitions {xs : List String} (h : xs.Pairwise (· ≤ ·)) :
    (withoutRepetitions xs).Pairwise (· < ·) := by
  have hascending := h.sublist (sublist_withoutRepetitions xs)
  refine (hascending.and (isFirsts_withoutRepetitions xs).nodup).imp fun ⟨hle, hne⟩ => ?_
  exact String.not_le.1 fun hge => hne (String.le_antisymm hle hge)

/-! ## What is found and what is excluded -/

/-- Whether a path is an input of a project that says nothing: a source file that stands beneath the
directory of the project at the end of a way without hidden names, but not in a directory of packages
that stands directly in it, and not under the directory of the output. -/
def IsDefaultInput (files : Files.FileTree) (place : Files.Place) (directory : Location)
    (outDir : Option String) (path : String) : Prop :=
  ∃ below : List String, below ≠ [] ∧ (∀ name ∈ below, IsUndotted name) ∧
    path = ofRoot 1 (directory.parts ++ below) ∧
    files.isPresent place path = true ∧
    (finishesWith path ".ts" = true ∨ finishesWith path ".tsx" = true) ∧
    (∀ name ∈ ["node_modules", "bower_components", "jspm_packages"], below.head? ≠ some name) ∧
    ∀ d, outDir = some d → d ≠ "" → Path.isUnder path d = false

/-- What the pattern for everything beneath a directory finds. -/
theorem Merged.mem_found_everythingIn (htree : files.HasFileNames)
    (hdirectory : directory.IsCanonical) (hplain : Files.isPattern directory.path = false) :
    path ∈ found files place (everythingIn directory.path) ↔
      ∃ below : List String, below ≠ [] ∧ (∀ name ∈ below, IsUndotted name) ∧
        path = ofRoot 1 (directory.parts ++ below) ∧ files.isPresent place path = true := by
  rw [hdirectory.path_eq] at hplain ⊢
  have hnames := Path.forall_isName hdirectory.parts
  have hpattern : Files.isPattern (ofRoot 1 ((directory.parts ++ ["**"]) ++ ["*"])) = true :=
    Files.Globe.isPattern_ofRoot_of_mem
      (List.forall_mem_append.2 ⟨List.forall_mem_append.2 ⟨hnames, by simp [IsName]⟩,
        by simp [IsName]⟩) (List.mem_append_right _ List.mem_cons_self) (by decide)
  have hexpand := @Files.Globe.mem_expand_everything_iff ⟨files, place, ""⟩ 1 directory.parts path
    htree rfl Nat.one_ne_zero hdirectory.parts hplain
  rw [everythingIn_ofRoot 1 hnames, found, (List.mergeSort_perm _ _).mem_iff]
  simp only [hpattern, Bool.not_true, Bool.false_and, Bool.false_eq_true, if_false, hexpand]
  constructor
  · rintro ⟨below, e, hne, hvisible, rfl, hstands⟩
    have hordinary := hstands.isOrdinary htree
    refine ⟨below, hne, fun name hname => ?_, rfl,
      (Files.FileTree.isPresent_ofRoot_iff Nat.one_ne_zero hordinary).2 ⟨e, hstands⟩⟩
    have hname' := hordinary name (List.mem_append_right _ hname)
    exact ⟨hname'.ne_empty, hvisible name hname, hname'.no_slash⟩
  · rintro ⟨below, hne, hundotted, rfl, hpresent⟩
    have hordinary : ∀ name ∈ directory.parts ++ below, IsOrdinary name :=
      List.forall_mem_append.2 ⟨hdirectory.parts, fun name hname => (hundotted name hname).isOrdinary⟩
    obtain ⟨e, hstands⟩ := (Files.FileTree.isPresent_ofRoot_iff Nat.one_ne_zero hordinary).1 hpresent
    exact ⟨below, e, hne, fun name hname => (hundotted name hname).no_dot, rfl, hstands⟩

/-- A directory in another one excludes what is reached by its name. -/
theorem isExcluded_join_iff {names below : List String} (hnames : ∀ n ∈ names, IsOrdinary n)
    (hbelow : ∀ n ∈ below, IsOrdinary n) (hplain : Files.isPattern (ofRoot 1 names) = false)
    {name : String} (hname : IsOrdinary name) (hnamePlain : Files.isPattern name = false) :
    isExcluded (ofRoot 1 (names ++ below)) (Path.join (ofRoot 1 names) name) = true ↔
      below.head? = some name := by
  have hall := Path.forall_isName (List.forall_mem_append.2 ⟨hnames, hbelow⟩)
  have hlast : ∀ n ∈ names ++ [name], IsName n :=
    List.forall_mem_append.2 ⟨Path.forall_isName hnames, by simpa using hname.isName⟩
  have hjoin : Path.join (ofRoot 1 names) name = ofRoot 1 (names ++ [name]) :=
    Files.FileTree.NamesDirectory.join_eq (.inl rfl) Nat.one_ne_zero (Path.forall_isName hnames)
      hname.isName
  have hrooted : IsRooted (ofRoot 1 (names ++ [name])) := ⟨1, _, Nat.one_ne_zero, hlast, rfl⟩
  rw [hjoin]
  constructor
  · intro h
    have hentry : Files.isPattern (ofRoot 1 (names ++ [name])) = false := by
      rw [Files.isPattern_ofRoot 1 (Path.forall_isName hnames)] at hplain
      rw [Files.isPattern_ofRoot 1 hlast]
      exact List.forall_mem_append.2 ⟨hplain, by simpa using hnamePlain⟩
    rw [isExcluded_iff_isUnder (Path.isAbsolute_ofRoot Nat.one_ne_zero _) hrooted hentry]
      at h
    obtain ⟨-, rest, hrest⟩ := Path.exists_append_of_isUnder (by simp) (by decide) (by decide) hall
      hlast h
    rw [List.append_assoc] at hrest
    rw [List.append_cancel_left hrest]
    rfl
  · intro h
    obtain ⟨rest, rfl⟩ : ∃ rest, below = name :: rest := by
      cases below with
      | nil => cases h
      | cons first rest => exact ⟨rest, by simpa using h⟩
    have hself := @isExcluded_self 1 _ (by simp) hlast
    have hdescends := isExcluded_descends hrooted hself rest
    rwa [List.append_assoc] at hdescends

namespace Merged

theorem includePatterns_default {m : Merged} (hfiles : m.files = none)
    (hincludes : m.includes = none) : m.includePatterns directory = [everythingIn directory.path] := by
  simp [includePatterns, hincludes, hfiles]

/-- What patterns add without any that is given are the default inputs. -/
theorem mem_contributed_default {m : Merged} {outDir : Option String} (htree : files.HasFileNames)
    (hfiles : m.files = none) (hincludes : m.includes = none) (hexcludes : m.excludes = none)
    (hdirectory : directory.IsCanonical) (hplain : Files.isPattern directory.path = false)
    (houtDir : ∀ d, outDir = some d → d = "" ∨ (IsRooted d ∧ Files.isPattern d = false)) :
    path ∈ m.contributed files place directory outDir ↔
      IsDefaultInput files place directory outDir path := by
  have hentries : m.excludePatterns directory outDir =
      ["node_modules", "bower_components", "jspm_packages"].map (Path.join directory.path) ++
        (outDir.filter (· != "")).toList := by
    simp [excludePatterns, hexcludes, packageDirectories]
  -- whether an entry excludes a path below the directory
  have hkept {below : List String} (hbelow : ∀ name ∈ below, IsUndotted name) :
      (∀ entry ∈ m.excludePatterns directory outDir,
        isExcluded (ofRoot 1 (directory.parts ++ below)) entry = false) ↔
      (∀ name ∈ ["node_modules", "bower_components", "jspm_packages"], below.head? ≠ some name) ∧
        ∀ d, outDir = some d → d ≠ "" →
          Path.isUnder (ofRoot 1 (directory.parts ++ below)) d = false := by
    have hordinary : ∀ name ∈ below, IsOrdinary name :=
      fun name hname => (hbelow name hname).isOrdinary
    have hpackages : ∀ name ∈ ["node_modules", "bower_components", "jspm_packages"],
        IsOrdinary name ∧ Files.isPattern name = false := by decide
    have hout : ∀ d, d ∈ (outDir.filter (· != "")).toList ↔ outDir = some d ∧ d ≠ "" := by
      simp [Option.filter_eq_some_iff]
    rw [hentries, List.forall_mem_append, List.forall_mem_map]
    refine and_congr (forall₂_congr fun name hname => ?_) ?_
    · obtain ⟨hname, hnamePlain⟩ := hpackages name hname
      rw [← Bool.not_eq_true, hdirectory.path_eq, isExcluded_join_iff hdirectory.parts hordinary
        (hdirectory.path_eq ▸ hplain) hname hnamePlain]
    · simp only [hout, and_imp]
      refine forall₃_congr fun d hd hne => ?_
      obtain ⟨hrooted, hentryPlain⟩ := (houtDir d hd).resolve_left hne
      rw [← Bool.not_eq_true, ← Bool.not_eq_true, isExcluded_iff_isUnder
        (Path.isAbsolute_ofRoot Nat.one_ne_zero _) hrooted hentryPlain]
  rw [mem_contributed, includePatterns_default hfiles hincludes]
  simp only [List.mem_singleton, exists_eq_left, mem_found_everythingIn htree hdirectory hplain,
    isSource, Bool.or_eq_true]
  constructor
  · rintro ⟨⟨below, hne, hundotted, rfl, hpresent⟩, hsource, hall⟩
    exact ⟨below, hne, hundotted, rfl, hpresent, hsource, (hkept hundotted).1 hall⟩
  · rintro ⟨below, hne, hundotted, rfl, hpresent, hsource, hall⟩
    exact ⟨⟨below, hne, hundotted, rfl, hpresent⟩, hsource, (hkept hundotted).2 hall⟩

end Merged

/-- A project whose lineage says nothing about its files has all source files beneath its directory
that are not hidden, in ascending order, but for packages and for its own output.  The directory of
the output is the one that the last file of the lineage gives that gives one. -/
theorem Project.load_default (htree : files.HasFileNames)
    (hplace : Path.isAbsolute place.workingDirectory = true)
    (hlineage : Lineage files place (Files.resolve place l.path) lineage)
    (hsilent : IsSilent lineage)
    (hplain : Files.isPattern (Files.resolve place l.path).parent.path = false) :
    ∃ project, Project.load files place l = .ok project ∧
      project.file = Files.resolve place l.path ∧
      project.outDir = (lastWord (·.option? "outDir") lineage).bind Value.asText? ∧
      ((∀ d, project.outDir = some d → Files.isPattern d = false) →
        project.inputs.Pairwise (· < ·) ∧
        ∀ path, path ∈ project.inputs ↔
          IsDefaultInput files place project.file.parent project.outDir path) := by
  obtain ⟨merged, hread, hflat⟩ := exists_read_of_lineage hplace hlineage
  obtain ⟨project, hload, hfile, houtDir, hinputs⟩ := Project.exists_load hread
  have hparent : project.file.parent.IsCanonical := by
    rw [hfile]
    exact (Files.isCanonical_resolve hplace l.path).parent
  have hrooted := Merged.hasRootedPaths_of_read (isLocated_resolve place l.path) hread
  refine ⟨project, hload, hfile, ?_, fun houtPlain => ?_⟩
  · rw [houtDir, Value.memberText?, hflat.options]
  have hfiles : merged.files = none := hflat.files.trans (hsilent.lastWord_eq (by decide))
  have hincludes : merged.includes = none := hflat.includes.trans (hsilent.lastWord_eq (by decide))
  have hcontributed : ∀ path,
      path ∈ merged.contributed files place project.file.parent project.outDir ↔
        IsDefaultInput files place project.file.parent project.outDir path := by
    intro path
    refine Merged.mem_contributed_default htree hfiles hincludes
      (hflat.excludes.trans (hsilent.lastWord_eq (by decide))) hparent (hfile ▸ hplain) fun d hd => ?_
    exact (hrooted.outDir d (houtDir ▸ hd)).imp_right fun h => ⟨h, houtPlain d hd⟩
  have hresolved := map_resolve_eq place fun path hpath => by
    obtain ⟨below, -, hundotted, hpath, -⟩ := (hcontributed path).1 hpath
    refine ⟨_, List.forall_mem_append.2 ⟨hparent.parts, fun name hname => ?_⟩, hpath⟩
    exact (hundotted name hname).isOrdinary
  rw [hfiles, Option.getD_none, List.nil_append, hresolved] at hinputs
  rw [hinputs]
  refine ⟨pairwise_withoutRepetitions (Merged.pairwise_contributed
    (Merged.includePatterns_default hfiles hincludes)), fun path => ?_⟩
  rw [(isFirsts_withoutRepetitions _).mem_iff, hcontributed]

/-- A project that says nothing about its files, and inherits a directory for its output. -/
def inheriting : Files.FileTree where
  entries := [(["tsconfig.json"], fileOf "\x7b\"extends\":\"./base\"\x7d"),
    (["base.json"], fileOf "\x7b\"compilerOptions\":\x7b\"outDir\":\"out\"\x7d\x7d"),
    (["src"], .directory), (["src", "a.ts"], .file []),
    (["out"], .directory), (["out", "a.d.ts"], .file [])]

/-- The lineage of that project. -/
def inheritingLineage : List ProjectFile :=
  [⟨belowRoot "base.json",
      [(.text "compilerOptions", .mapping [(.text "outDir", .text "out")])]⟩,
    ⟨belowRoot "tsconfig.json", [(.text "extends", .text "./base")]⟩]

theorem lineage_inheriting :
    Lineage inheriting atRoot (belowRoot "tsconfig.json") inheritingLineage := by
  have hms : projectMembers inheriting atRoot (belowRoot "tsconfig.json") =
      .ok [(.text "extends", .text "./base")] := by
    cbv
  have hbase : projectMembers inheriting atRoot (belowRoot "base.json") =
      .ok [(.text "compilerOptions", .mapping [(.text "outDir", .text "out")])] := by
    cbv
  have hresolve : resolveExtends inheriting atRoot ⟨1, []⟩ "./base" =
      .ok (belowRoot "base.json") := rfl
  exact .intro hms (.cons hresolve (.intro hbase .nil) .nil)

/-- What stands in the directory for the output is no input, although the project does not name that
directory itself. -/
theorem Project.load_default_inheriting :
    ∃ project, Project.load inheriting atRoot (belowRoot "tsconfig.json") = .ok project ∧
      project.outDir = some "/out" ∧ "/src/a.ts" ∈ project.inputs ∧
      "/out/a.d.ts" ∉ project.inputs := by
  have hfile : Files.resolve atRoot (belowRoot "tsconfig.json").path = belowRoot "tsconfig.json" := by
    decide
  have hlineage : Lineage inheriting atRoot
      (Files.resolve atRoot (belowRoot "tsconfig.json").path) inheritingLineage := by
    rw [hfile]
    exact lineage_inheriting
  have hsilent : IsSilent inheritingLineage := by
    unfold IsSilent
    decide
  obtain ⟨project, hload, hproject, houtDir, hinputs⟩ :=
    Project.load_default (by decide) rfl hlineage hsilent (by decide)
  have hout : project.outDir = some "/out" := houtDir.trans (by decide)
  have hdirectory : project.file.parent = ⟨1, []⟩ := by
    rw [hproject, hfile]
    rfl
  obtain ⟨-, hmem⟩ := hinputs fun d hd => by
    obtain rfl := Option.some.inj (hout.symm.trans hd)
    decide
  refine ⟨project, hload, hout, (hmem _).2 ?_, fun hin => ?_⟩
  · rw [hdirectory, hout]
    refine ⟨["src", "a.ts"], by decide, by decide, by decide, by decide, by decide, by decide, ?_⟩
    intro d hd hne
    obtain rfl := Option.some.inj hd
    decide
  · obtain ⟨below, -, -, -, -, -, -, hunder⟩ := (hmem _).1 hin
    exact absurd (hunder "/out" hout (by decide)) (by decide)

end DeclBundle.Configuration
