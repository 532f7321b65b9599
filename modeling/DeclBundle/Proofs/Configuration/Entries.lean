import DeclBundle.Configuration.Inputs
import DeclBundle.Proofs.Files.Way
set_option autoImplicit false

/-!
# The entries of project files

Whatever project files say, the paths that are kept of them are rooted: they consist of names below
a root (`Merged.hasRootedPaths_of_read`).  So are the entries that hold where a project says nothing
itself.
-/

namespace DeclBundle.Configuration

open Data
open DeclBundle.Path (IsName ofRoot)

/-- Whether a path consists of names below a root. -/
def IsRooted (path : String) : Prop :=
  ∃ slashes segs, slashes ≠ 0 ∧ (∀ seg ∈ segs, IsName seg) ∧ path = ofRoot slashes segs

/-- The path of a location below a root is rooted. -/
theorem isRooted_path {l : Location} (hslashes : l.slashes ≠ 0)
    (hparts : ∀ part ∈ l.parts, IsName part) : IsRooted l.path :=
  ⟨l.slashes, l.parts, hslashes, hparts, Location.path_eq_ofRoot hslashes⟩

theorem IsRooted.isAbsolute {path : String} (h : IsRooted path) : Path.isAbsolute path = true := by
  obtain ⟨slashes, segs, hslashes, -, rfl⟩ := h
  exact Path.isAbsolute_ofRoot hslashes segs

/-- A name joined to a rooted path is rooted. -/
theorem IsRooted.join {path : String} (h : IsRooted path) {name : String} (hname : IsName name) :
    IsRooted (Path.join path name) := by
  obtain ⟨slashes, segs, hslashes, hsegs, rfl⟩ := h
  have hnames : ∀ seg ∈ [name], IsName seg := by simpa using hname
  have hjoin := @Path.join_ofRoot_ofSegments slashes segs [name] hsegs hnames (by simp)
  rw [Path.ofSegments_singleton] at hjoin
  exact ⟨slashes, segs ++ [name], hslashes, List.forall_mem_append.2 ⟨hsegs, hnames⟩, hjoin⟩

/-! ## Locations of project files -/

/-- Whether a location stands below a root, and its parts are names. -/
structure IsLocated (l : Location) : Prop where
  slashes : l.slashes ≠ 0
  parts : ∀ part ∈ l.parts, IsName part

theorem isLocated_resolve (place : Files.Place) (path : String) :
    IsLocated (Files.resolve place path) := by
  refine ⟨Nat.one_ne_zero, fun part hpart => ?_⟩
  simp only [Files.resolve, Location.ofPath, List.mem_filter, Bool.and_eq_true, bne_iff_ne] at hpart
  exact ⟨hpart.2.1, Path.not_mem_of_mem_segments hpart.1⟩

theorem IsLocated.parent {l : Location} (h : IsLocated l) : IsLocated l.parent :=
  ⟨h.slashes, fun part hpart => h.parts part (List.dropLast_subset _ hpart)⟩

theorem IsLocated.isRooted {l : Location} (h : IsLocated l) : IsRooted l.path :=
  isRooted_path h.slashes h.parts

/-- What is seen from a located directory is rooted. -/
theorem isRooted_seenFrom {directory : Location} (h : IsLocated directory) (path : String) :
    IsRooted (Merged.seenFrom directory path) := by
  have habsolute := Path.isAbsolute_join h.isRooted.isAbsolute path
  obtain ⟨slashes, segs, hslashes, hsegs, heq⟩ := Path.exists_ofRoot_normalize habsolute
  exact ⟨slashes, segs, by omega, Path.forall_isName hsegs, heq⟩

/-- Paths seen from the root. -/
def atRoot : Files.Place := { workingDirectory := "/", home := "/" }

/-! ## Reading one file -/

/-- The members of a project file whose text holds a mapping. -/
theorem projectMembers_of_text {files : Files.FileTree} {place : Files.Place} {file : Location}
    {text : List Char} {ms : List (Value × Value)}
    (hread : files.read place file.path = .ok (Utf8.encode text))
    (hne : Json.withoutComments (Text.unifyNewlines text) ≠ [])
    (hparse : Json.parse (Json.withoutComments (Text.unifyNewlines text)) = .ok (.mapping ms)) :
    projectMembers files place file = .ok ms := by
  have hdecode : (Utf8.decode (Utf8.encode text)).mapError DeclBundle.Fault.undecodable =
      .ok text := by
    rw [Utf8.decode_encode]
    rfl
  simp only [projectMembers, hread, hdecode, bind, Except.bind]
  generalize Json.withoutComments (Text.unifyNewlines text) = plain at hne hparse
  obtain ⟨c, cs, rfl⟩ := List.exists_cons_of_ne_nil hne
  simp only [hparse]
  rfl

/-- What a project file says that extends no other. -/
theorem Merged.read_of_members {files : Files.FileTree} {place : Files.Place} {file : Location}
    {ms : List (Value × Value)} (hms : projectMembers files place file = .ok ms)
    (hextends : Value.memberTexts ms "extends" = []) :
    Merged.read files place file = .ok ({} ++ ofMembers file.parent ms) := by
  simp only [Merged.read, readUpTo, bind, Except.bind, hms, hextends]
  rfl

/-! ## Finding the file that is extended -/

theorem firstFile?_resolved {files : Files.FileTree} {place : Files.Place} {ls : List Location}
    {file : Location} (h : firstFile? files place ls = .ok (some file)) :
    ∃ path, file = Files.resolve place path := by
  induction ls with
  | nil => cases h
  | cons l ls ih =>
    simp only [firstFile?, bind, Except.bind] at h
    split at h
    · cases h
    · split at h
      · cases h
        exact ⟨l.path, rfl⟩
      · exact ih h

theorem extendsFile?_resolved {files : Files.FileTree} {place : Files.Place}
    {candidate file : Location} (h : extendsFile? files place candidate = .ok (some file)) :
    ∃ path, file = Files.resolve place path := by
  unfold extendsFile? at h
  split at h
  · cases h
  · exact firstFile?_resolved h

theorem firstExtendsFile?_resolved {files : Files.FileTree} {place : Files.Place}
    {candidates : List Location} {file : Location}
    (h : firstExtendsFile? files place candidates = .ok (some file)) :
    ∃ path, file = Files.resolve place path := by
  induction candidates with
  | nil => cases h
  | cons candidate candidates ih =>
    simp only [firstExtendsFile?, bind, Except.bind] at h
    split at h
    · cases h
    · next found hfound =>
      split at h
      · next file' =>
        cases h
        exact extendsFile?_resolved hfound
      · exact ih h

/-- A file that is extended is known by a resolved location. -/
theorem resolveExtends_resolved {files : Files.FileTree} {place : Files.Place}
    {directory file : Location} {name : String}
    (h : resolveExtends files place directory name = .ok file) :
    ∃ path, file = Files.resolve place path := by
  simp only [resolveExtends, bind, Except.bind] at h
  split at h
  · cases h
  · next found hfound =>
    split at h
    · cases h
      exact firstExtendsFile?_resolved hfound
    · cases h

theorem resolveExtends_isLocated {files : Files.FileTree} {place : Files.Place}
    {directory file : Location} {name : String}
    (h : resolveExtends files place directory name = .ok file) : IsLocated file := by
  obtain ⟨path, rfl⟩ := resolveExtends_resolved h
  exact isLocated_resolve place path

/-! ## Merging -/

/-- Whether everything that names a path in settings is rooted; an empty text names none. -/
structure Merged.HasRootedPaths (m : Merged) : Prop where
  includes : ∀ patterns, m.includes = some patterns → ∀ p ∈ patterns, IsRooted p
  excludes : ∀ patterns, m.excludes = some patterns → ∀ p ∈ patterns, IsRooted p
  outDir : ∀ d, Value.memberText? m.compilerOptions "outDir" = some d →
    d = "" ∨ IsRooted d

namespace Merged

theorem hasRootedPaths_empty : HasRootedPaths {} := by
  refine ⟨fun _ h => ?_, fun _ h => ?_, fun _ h => ?_⟩ <;> cases h

/-- What the members of two mappings give for a key: what the second gives, if it has the key. -/
theorem member?_append (ms ms' : List (Value × Value)) (key : String) :
    Value.member? (ms ++ ms') key = (Value.member? ms' key).or (Value.member? ms key) := by
  simp only [Value.member?, List.reverse_append, List.find?_append, Option.map_or]

theorem memberText?_append (ms ms' : List (Value × Value)) (key : String) :
    Value.memberText? (ms ++ ms') key = Value.memberText? ms' key ∨
      Value.memberText? (ms ++ ms') key = Value.memberText? ms key := by
  simp only [Value.memberText?, member?_append]
  cases Value.member? ms' key with
  | none => exact .inr rfl
  | some v => exact .inl rfl

theorem HasRootedPaths.append {m m' : Merged} (h : m.HasRootedPaths) (h' : m'.HasRootedPaths) :
    (m ++ m').HasRootedPaths := by
  refine ⟨fun patterns heq => ?_, fun patterns heq => ?_, fun d heq => ?_⟩
  · change m'.includes.or m.includes = some patterns at heq
    rcases Option.or_eq_some_iff.1 heq with heq | ⟨-, heq⟩
    · exact h'.includes patterns heq
    · exact h.includes patterns heq
  · change m'.excludes.or m.excludes = some patterns at heq
    rcases Option.or_eq_some_iff.1 heq with heq | ⟨-, heq⟩
    · exact h'.excludes patterns heq
    · exact h.excludes patterns heq
  · change Value.memberText? (m.compilerOptions ++ m'.compilerOptions) "outDir" = some d at heq
    rcases memberText?_append m.compilerOptions m'.compilerOptions "outDir" with hof | hof
    · exact h'.outDir d (hof ▸ heq)
    · exact h.outDir d (hof ▸ heq)

theorem isRooted_ownPaths {directory : Location} (h : IsLocated directory)
    {ms : List (Value × Value)} {key : String} {patterns : List String}
    (heq : ownPaths directory ms key = some patterns) :
    ∀ p ∈ patterns, IsRooted p := by
  obtain ⟨v, -, rfl⟩ := Option.map_eq_some_iff.1 heq
  intro p hp
  obtain ⟨path, -, rfl⟩ := List.mem_map.1 hp
  exact isRooted_seenFrom h path

theorem hasRootedPaths_ofMembers {directory : Location} (h : IsLocated directory)
    (ms : List (Value × Value)) : (ofMembers directory ms).HasRootedPaths := by
  refine ⟨fun patterns heq => isRooted_ownPaths h heq, fun patterns heq => isRooted_ownPaths h heq,
    fun d heq => ?_⟩
  simp only [ofMembers, ownOptions] at heq
  split at heq
  · next given hgiven =>
    right
    have hlast : d = seenFrom directory given := by
      simp [Value.memberText?, Value.member?, Value.isText, Value.asText?] at heq
      exact heq.symm
    rw [hlast]
    exact isRooted_seenFrom h given
  · next hnone =>
    left
    rw [heq] at hnone
    simpa using hnone

/-- What every step of a fold keeps, the fold keeps. -/
theorem of_foldlM {ε α β : Type} {P : β → Prop} {f : β → α → Except ε β}
    (hstep : ∀ b a b', P b → f b a = .ok b' → P b') {xs : List α} {init last : β} (hinit : P init)
    (h : xs.foldlM f init = .ok last) : P last := by
  induction xs generalizing init with
  | nil =>
    cases h
    exact hinit
  | cons x xs ih =>
    simp only [List.foldlM_cons, bind, Except.bind] at h
    split at h
    · cases h
    · next next hnext => exact ih (hstep _ _ _ hinit hnext) h

/-- Reading a project file and those that it extends keeps rooted paths only. -/
theorem hasRootedPaths_readUpTo {files : Files.FileTree} {place : Files.Place} {depth : Nat}
    {chain : List Location} {file : Location} (hfile : IsLocated file) {merged : Merged}
    (h : readUpTo files place depth chain file = .ok merged) : merged.HasRootedPaths := by
  -- a file that is extended is read with a depth that is less by one
  induction depth generalizing chain file merged with
  | zero => cases h
  | succ depth ih =>
    simp only [readUpTo, bind, Except.bind] at h
    split at h
    · cases h
    · split at h
      · cases h
      · next ms hms =>
        split at h
        · cases h
        · next inherited hinherited =>
          cases h
          refine HasRootedPaths.append ?_ (hasRootedPaths_ofMembers hfile.parent ms)
          refine of_foldlM ?_ hasRootedPaths_empty hinherited
          intro m name m' hm hstep
          split at hstep
          · cases hstep
          · next base hbase =>
            split at hstep
            · cases hstep
            · next extended hextended =>
              cases hstep
              exact hm.append (ih (resolveExtends_isLocated hbase) hextended)

/-- What a project file says on paths, and those that it extends, is rooted. -/
theorem hasRootedPaths_of_read {files : Files.FileTree} {place : Files.Place} {file : Location}
    (hfile : IsLocated file) {merged : Merged} (h : read files place file = .ok merged) :
    merged.HasRootedPaths :=
  hasRootedPaths_readUpTo hfile h

end Merged

end DeclBundle.Configuration
