import DeclBundle.Proofs.Configuration.Extends
set_option autoImplicit false

/-!
# What reading a project escapes with

A project that cannot be read is a configuration that cannot be used, and is reported as such.  Three
things are not: a file whose bytes are no text, a name that is extended and has no last part, and one
that is too long to be looked up.  They end the reading with a fault of their own where it comes to
them, and within the limits of the system nothing else does (`Project.load_escapes_iff`).
-/

namespace DeclBundle

/-- Whether a fault says that a configuration cannot be used. -/
def Fault.IsConfiguration (fault : Fault) : Prop :=
  ∃ cause, fault = .configuration cause

/-- Whether a result is a fault that does not say so. -/
def IsEscape {α : Type} (fault : Fault) (result : Except Fault α) : Prop :=
  result = .error fault ∧ ¬ fault.IsConfiguration

section

variable {α β : Type} {fault : Fault}

@[simp] theorem not_isEscape_ok (a : α) : ¬ IsEscape fault (.ok a) := by
  rintro ⟨herror, -⟩
  cases herror

@[simp] theorem not_isEscape_configuration (cause : Configuration.Fault) :
    ¬ IsEscape fault (.error (.configuration cause) : Except Fault α) := by
  rintro ⟨herror, hfault⟩
  exact hfault ⟨cause, (Except.error.inj herror).symm⟩

/-- What is done one after the other escapes where the first does, or else where the second does. -/
theorem isEscape_bind {x : Except Fault α} {f : α → Except Fault β} :
    IsEscape fault (x >>= f) ↔ IsEscape fault x ∨ ∃ a, x = .ok a ∧ IsEscape fault (f a) := by
  cases x with
  | error other => simp [IsEscape, bind, Except.bind]
  | ok a => simp [bind, Except.bind]

end

/-- A relative path seen from a location leads on from it. -/
theorem Location.parts_child {p : String} (h : ¬ Path.isAbsolute p = true) (l : Location) :
    (l.child p).parts = l.parts ++ (ofPath p).parts := by
  have hslashes : (ofPath p).slashes = 0 := Path.leadingSlashes_of_not_isAbsolute h
  exact congrArg Location.parts (if_pos hslashes)

/-! ## Paths that cannot be looked up -/

namespace Files.FileTree

variable {t : FileTree} {place : Place} {path : String} {cause : Files.Fault}

/-- A path that leads nowhere misses something, goes through a file or has a part that is too long. -/
theorem follow_reason {way : Way} {segs : List String} {r : Reason}
    (h : t.follow way segs = .error r) : r = .notFound ∨ r = .notDirectory ∨ r = .nameTooLong := by
  induction segs generalizing way with
  | nil => cases h
  | cons seg segs ih =>
    rw [follow] at h
    split at h
    · exact .inl (Except.error.inj h).symm
    · exact .inr (.inl (Except.error.inj h).symm)
    · split at h
      · exact ih h
      · split at h
        · exact ih h
        · split at h
          · exact .inr (.inr (Except.error.inj h).symm)
          · exact ih h

/-- Whether a path leads to a file can be told unless a part of it is too long. -/
theorem isFile_error_iff : t.isFile place path = .error cause ↔
    t.way place path = .error .nameTooLong ∧ cause = ⟨.nameTooLong, some path⟩ := by
  unfold isFile probe lookup
  simp only [bind, Except.bind]
  cases hway : t.way place path with
  | ok way => cases hentry : t.entry? way <;> simp [hentry, Except.map]
  | error r =>
    rcases follow_reason hway with rfl | rfl | rfl <;> simp [Except.map, eq_comm]

end Files.FileTree

namespace Configuration

open Data
open DeclBundle.Files (FileTree Place)

/-! ## What reading does -/

/-- A step of reading a project. -/
inductive ReadingStep where
  /-- a project file is opened -/
  | opening (file : Location)
  /-- the file is looked for that a project file in a directory extends by a name -/
  | seeking (directory : Location) (name : String)
  deriving DecidableEq, Repr

namespace Merged

/-- The steps for the names that a file in a directory extends: each is looked for and the file it
leads to is read, up to the first for which this fails. -/
def stepsFor (directory : Location) (resolve : String → Except DeclBundle.Fault Location)
    (read : Location → Except DeclBundle.Fault Merged) (steps : Location → List ReadingStep) :
    List String → List ReadingStep
  | [] => []
  | name :: names =>
    .seeking directory name ::
      match resolve name with
      | .error _ => []
      | .ok base =>
        steps base ++
          match read base with
          | .error _ => []
          | .ok _ => stepsFor directory resolve read steps names

/-- The steps of reading a project file while those of a chain are being read, at most `depth`
deep. -/
def stepsUpTo (files : FileTree) (place : Place) :
    Nat → List Location → Location → List ReadingStep
  | 0, _, _ => []
  | depth + 1, chain, file =>
    if chain.contains file then []
    else
      .opening file ::
        match projectMembers files place file with
        | .error _ => []
        | .ok ms =>
          stepsFor file.parent (resolveExtends files place file.parent)
            (readUpTo files place depth (chain ++ [file]))
            (stepsUpTo files place depth (chain ++ [file])) (Value.memberTexts ms "extends")

/-- The steps of reading a project file and those that it extends, in order. -/
def steps (files : FileTree) (place : Place) (file : Location) : List ReadingStep :=
  stepsUpTo files place (files.entries.length + 2) [] file

end Merged

/-! ## Where a file is looked for -/

/-- The locations at which a candidate is looked for. -/
def attempts (candidate : Location) : List Location :=
  match candidate.name? with
  | none => []
  | some name =>
    [candidate, candidate.withName (name ++ ".json"), candidate.child projectFileName]

/-- The locations at which a project file in a directory looks for one that it extends by a name. -/
def extendsAttempts (directory : Location) (name : String) : List Location :=
  (extendsCandidates directory name).flatMap attempts

/-! ## The limits of the system -/

/-- The number of bytes from which on a path is too long for the system. -/
def pathLimit : Nat := 4096

/-- Whether a path is short enough for the system. -/
def IsShort (path : String) : Prop :=
  (Utf8.encode path.toList).length < pathLimit

/-- Whether a text of a project file can be a part of a path that the system takes.  It holds neither
the character zero nor half of a surrogate pair, which is read as a replacement character. -/
def IsPathText (text : String) : Prop :=
  '\x00' ∉ text.toList ∧ '\ufffd' ∉ text.toList

/-- Whether loading a project asks the system only about paths that it takes.  To others it has
answers of its own, about which the tree of files says nothing. -/
structure Project.IsWithinLimits (files : FileTree) (place : Place) (l : Location) : Prop where
  /-- the path of the project file can be handed to the system -/
  named : '\x00' ∉ l.path.toList
  /-- a project file that is opened has a short path -/
  opened : ∀ file, .opening file ∈ Merged.steps files place (Files.resolve place l.path) →
    IsShort file.path
  /-- a file that is extended is looked for at short paths -/
  sought : ∀ directory name,
    .seeking directory name ∈ Merged.steps files place (Files.resolve place l.path) →
      ∀ other ∈ extendsAttempts directory name, IsShort other.path
  /-- what a project file says of files can be a part of a path -/
  said : ∀ file, .opening file ∈ Merged.steps files place (Files.resolve place l.path) →
    ∀ ms, projectMembers files place file = .ok ms →
      ∀ key ∈ ["extends", "files", "include"], ∀ text ∈ Value.memberTexts ms key, IsPathText text

/-! ## Steps that escape -/

/-- Whether a step of reading ends with a fault that does not say that a configuration cannot be
used. -/
inductive Escapes (files : FileTree) (place : Place) : ReadingStep → DeclBundle.Fault → Prop where
  /-- the bytes of a project file are no text -/
  | undecodable {file : Location} {bytes : List UInt8} {cause : Utf8.Fault}
      (hread : files.read place file.path = .ok bytes) (hdecode : Utf8.decode bytes = .error cause) :
      Escapes files place (.opening file) (.undecodable cause)
  /-- a path that is extended leads to no part below the root -/
  | nameless {directory : Location} {name : String}
      (hpath : Text.beginsWith name "." = true ∨ Path.isAbsolute name = true)
      (hparts : (directory.child name).parts = []) :
      Escapes files place (.seeking directory name) (.nameless (directory.child name).path)
  /-- before a file is found, a location comes up that has a part that is too long -/
  | tooLong {directory : Location} {name : String} {before after : List Location} {l : Location}
      (hattempts : extendsAttempts directory name = before ++ l :: after)
      (hbefore : ∀ other ∈ before, files.isFile place other.path = .ok false)
      (hlong : files.way place l.path = .error .nameTooLong) :
      Escapes files place (.seeking directory name) (.files ⟨.nameTooLong, some l.path⟩)

variable {files : FileTree} {place : Place} {fault : DeclBundle.Fault}

theorem Escapes.not_isConfiguration {step : ReadingStep} (h : Escapes files place step fault) :
    ¬ fault.IsConfiguration := by
  rintro ⟨cause, rfl⟩
  cases h

/-! ## Opening a file -/

/-- Opening a project file escapes just if its bytes are no text. -/
theorem isEscape_projectMembers (file : Location) :
    IsEscape fault (projectMembers files place file) ↔
      Escapes files place (.opening file) fault := by
  constructor
  · intro hescape
    unfold projectMembers at hescape
    cases hread : files.read place file.path with
    | error cause =>
      rw [hread] at hescape
      exact absurd hescape (not_isEscape_configuration _)
    | ok bytes =>
      simp only [hread] at hescape
      rcases isEscape_bind.1 hescape with ⟨herror, -⟩ | ⟨text, -, hparse⟩
      · cases hdecode : Utf8.decode bytes with
        | ok text =>
          rw [hdecode] at herror
          cases herror
        | error cause =>
          rw [hdecode] at herror
          cases herror
          exact .undecodable hread hdecode
      · -- a text holds an object, or it is reported that it does not
        split at hparse
        · exact absurd hparse (not_isEscape_configuration _)
        · exact absurd hparse (not_isEscape_ok _)
        · exact absurd hparse (not_isEscape_configuration _)
  · intro hescapes
    refine ⟨?_, hescapes.not_isConfiguration⟩
    cases hescapes with
    | undecodable hread hdecode =>
      simp only [projectMembers, hread, bind, Except.bind, hdecode, Except.mapError]

/-! ## Looking for a file -/

theorem firstFile?_append (ls rest : List Location) :
    firstFile? files place (ls ++ rest) = (do
      match ← firstFile? files place ls with
      | some file => return some file
      | none => firstFile? files place rest) := by
  induction ls with
  | nil => rfl
  | cons l ls ih =>
    simp only [List.cons_append, firstFile?, ih, bind, Except.bind]
    cases files.isFile place l.path with
    | error cause => rfl
    | ok found => cases found <;> rfl

/-- Candidates that all have a name are looked for at one location after the other. -/
theorem firstExtendsFile?_eq_firstFile? {candidates : List Location}
    (h : ∀ candidate ∈ candidates, candidate.parts ≠ []) :
    firstExtendsFile? files place candidates =
      firstFile? files place (candidates.flatMap attempts) := by
  induction candidates with
  | nil => rfl
  | cons candidate candidates ih =>
    obtain ⟨hcandidate, hrest⟩ := List.forall_mem_cons.1 h
    have hname : candidate.name? = some (candidate.parts.getLast hcandidate) :=
      List.getLast?_eq_some_getLast hcandidate
    have hattempts : extendsFile? files place candidate =
        firstFile? files place (attempts candidate) := by
      simp only [extendsFile?, attempts, hname]
    rw [List.flatMap_cons, firstFile?_append, ← ih hrest, ← hattempts]
    rfl

/-- Looking for a file gives none if there is none at any of the locations. -/
theorem firstFile?_none {ls : List Location}
    (h : ∀ l ∈ ls, files.isFile place l.path = .ok false) :
    firstFile? files place ls = .ok none := by
  induction ls with
  | nil => rfl
  | cons l ls ih =>
    obtain ⟨hl, hls⟩ := List.forall_mem_cons.1 h
    simp only [firstFile?, hl, ih hls]
    rfl

/-- Looking for a file fails where a location comes up that has a part that is too long. -/
theorem exists_of_firstFile?_error {ls : List Location}
    (h : firstFile? files place ls = .error fault) :
    ∃ before l after, ls = before ++ l :: after ∧
      (∀ other ∈ before, files.isFile place other.path = .ok false) ∧
      files.way place l.path = .error .nameTooLong ∧
      fault = .files ⟨.nameTooLong, some l.path⟩ := by
  induction ls with
  | nil => cases h
  | cons l ls ih =>
    simp only [firstFile?, bind, Except.bind] at h
    cases hfile : files.isFile place l.path with
    | error cause =>
      obtain ⟨hlong, rfl⟩ := FileTree.isFile_error_iff.1 hfile
      rw [hfile] at h
      exact ⟨[], l, ls, rfl, by simp, hlong, (Except.error.inj h).symm⟩
    | ok found =>
      rw [hfile] at h
      cases found with
      | true => cases h
      | false =>
        obtain ⟨before, last, after, rfl, hbefore, hlong⟩ := ih h
        exact ⟨l :: before, last, after, rfl, List.forall_mem_cons.2 ⟨hfile, hbefore⟩, hlong⟩

theorem firstFile?_error {before after : List Location} {l : Location}
    (hbefore : ∀ other ∈ before, files.isFile place other.path = .ok false)
    (hlong : files.way place l.path = .error .nameTooLong) :
    firstFile? files place (before ++ l :: after) =
      .error (.files ⟨.nameTooLong, some l.path⟩) := by
  have hfile := FileTree.isFile_error_iff.2 ⟨hlong, rfl⟩
  rw [firstFile?_append, firstFile?_none hbefore]
  simp only [firstFile?, hfile, bind, Except.bind, Except.mapError]

/-- The candidates for a name all have a name themselves, or there is one only, which has none. -/
theorem extendsCandidates_named (directory : Location) (name : String) :
    (∀ candidate ∈ extendsCandidates directory name, candidate.parts ≠ []) ∨
      ((Text.beginsWith name "." = true ∨ Path.isAbsolute name = true) ∧
        (directory.child name).parts = [] ∧
        extendsCandidates directory name = [directory.child name]) := by
  unfold extendsCandidates
  split
  · rename_i hpath
    by_cases hparts : (directory.child name).parts = []
    · exact .inr ⟨by simpa using hpath, hparts, rfl⟩
    · exact .inl (by simpa using hparts)
  · rename_i hpath
    refine .inl ?_
    intro candidate hcandidate
    obtain ⟨above, -, rfl⟩ := List.mem_map.1 hcandidate
    have hrelative : ¬ Path.isAbsolute name = true := by
      intro habsolute
      exact hpath (by simp [habsolute])
    -- the directory of packages is a part of the candidate
    rw [Location.parts_child hrelative, Location.parts_child (by decide)]
    have hpackages : (Location.ofPath "node_modules").parts = ["node_modules"] := by decide
    simp [hpackages]

/-- Looking for the file that a name leads to escapes just if a candidate has no name, or a location
comes up that has a part that is too long. -/
theorem isEscape_resolveExtends (directory : Location) (name : String) :
    IsEscape fault (resolveExtends files place directory name) ↔
      Escapes files place (.seeking directory name) fault := by
  have hname : (directory.child name).parts = [] → (directory.child name).name? = none := by
    intro hparts
    rw [Location.name?, hparts]
    rfl
  constructor
  · intro hescape
    rcases isEscape_bind.1 hescape with ⟨hfirst, -⟩ | ⟨found, -, hfound⟩
    · rcases extendsCandidates_named directory name with hnamed | ⟨hpath, hparts, hcandidates⟩
      · rw [firstExtendsFile?_eq_firstFile? hnamed] at hfirst
        obtain ⟨before, l, after, hattempts, hbefore, hlong, rfl⟩ :=
          exists_of_firstFile?_error hfirst
        exact .tooLong hattempts hbefore hlong
      · rw [hcandidates] at hfirst
        simp only [firstExtendsFile?, extendsFile?, hname hparts, bind, Except.bind] at hfirst
        cases hfirst
        exact .nameless hpath hparts
    · -- that a name leads nowhere is reported
      split at hfound
      · exact absurd hfound (not_isEscape_ok _)
      · exact absurd hfound (not_isEscape_configuration _)
  · intro hescapes
    refine isEscape_bind.2 (.inl ⟨?_, hescapes.not_isConfiguration⟩)
    cases hescapes with
    | nameless hpath hparts =>
      have hcandidates : extendsCandidates directory name = [directory.child name] := by
        rw [extendsCandidates, if_pos (by simpa using hpath)]
      rw [hcandidates]
      simp only [firstExtendsFile?, extendsFile?, hname hparts, bind, Except.bind]
    | tooLong hattempts hbefore hlong =>
      unfold extendsAttempts at hattempts
      rcases extendsCandidates_named directory name with hnamed | ⟨-, hparts, hcandidates⟩
      · rw [firstExtendsFile?_eq_firstFile? hnamed, hattempts]
        exact firstFile?_error hbefore hlong
      · -- a candidate without a name is looked for nowhere
        rw [hcandidates] at hattempts
        simp [attempts, hname hparts] at hattempts

/-! ## Reading to the end -/

namespace Merged

/-- Reading what names lead to escapes just if one of its steps does. -/
theorem isEscape_foldlM {directory : Location}
    {read : Location → Except DeclBundle.Fault Merged} {steps : Location → List ReadingStep}
    (hread : ∀ base, IsEscape fault (read base) ↔
      ∃ step ∈ steps base, Escapes files place step fault)
    (names : List String) (inherited : Merged) :
    IsEscape fault (names.foldlM (fun merged name => do
        let base ← resolveExtends files place directory name
        return merged ++ (← read base)) inherited) ↔
      ∃ step ∈ stepsFor directory (resolveExtends files place directory) read steps names,
        Escapes files place step fault := by
  induction names generalizing inherited with
  | nil => simp [stepsFor, pure, Except.pure]
  | cons name names ih =>
    rw [stepsFor, List.foldlM_cons, isEscape_bind, isEscape_bind, isEscape_resolveExtends]
    simp only [List.mem_cons, or_and_right, exists_or, exists_eq_left, or_assoc]
    refine or_congr_right ?_
    cases hbase : resolveExtends files place directory name with
    | error other => simp [bind, Except.bind]
    | ok base =>
      simp only [List.mem_append, or_and_right, exists_or, ← hread]
      cases hown : read base with
      | error other => simp [bind, Except.bind, hown]
      | ok own =>
        simpa [hown, bind, Except.bind, pure, Except.pure] using ih (inherited ++ own)

theorem isEscape_readUpTo (depth : Nat) (chain : List Location) (file : Location) :
    IsEscape fault (readUpTo files place depth chain file) ↔
      ∃ step ∈ stepsUpTo files place depth chain file, Escapes files place step fault := by
  induction depth generalizing chain file with
  | zero => simp [readUpTo, stepsUpTo]
  | succ depth ih =>
    unfold readUpTo stepsUpTo
    split
    · exact iff_of_false (not_isEscape_configuration _) (by simp)
    · rw [isEscape_bind, isEscape_projectMembers]
      simp only [List.mem_cons, or_and_right, exists_or, exists_eq_left]
      refine or_congr_right ?_
      cases projectMembers files place file with
      | error other => simp
      | ok ms =>
        rw [← isEscape_foldlM (ih (chain ++ [file])) _ {}]
        simp [isEscape_bind, pure, Except.pure]

/-- Reading a project file escapes just if one of its steps does. -/
theorem isEscape_read (file : Location) :
    IsEscape fault (read files place file) ↔
      ∃ step ∈ steps files place file, Escapes files place step fault :=
  isEscape_readUpTo _ _ _

end Merged

/-- Within the limits of the system, loading a project ends with a fault that does not say that a
configuration cannot be used just if a step of reading it escapes with that fault.  So it gives a
project or says why the configuration cannot be used just if no step escapes. -/
theorem Project.load_escapes_iff (files : FileTree) (place : Place) (l : Location)
    (_hlimits : Project.IsWithinLimits files place l) :
    (∀ fault, (Project.load files place l = .error fault ∧ ¬ fault.IsConfiguration) ↔
      ∃ step ∈ Merged.steps files place (Files.resolve place l.path),
        Escapes files place step fault) ∧
    (((∃ project, Project.load files place l = .ok project) ∨
        ∃ cause, Project.load files place l = .error (.configuration cause)) ↔
      ∀ step ∈ Merged.steps files place (Files.resolve place l.path),
        ∀ fault, ¬ Escapes files place step fault) := by
  have hescape : ∀ fault, IsEscape fault (Project.load files place l) ↔
      ∃ step ∈ Merged.steps files place (Files.resolve place l.path),
        Escapes files place step fault := by
    intro fault
    rw [← Merged.isEscape_read]
    refine isEscape_bind.trans (or_iff_left ?_)
    rintro ⟨merged, -, hload⟩
    exact not_isEscape_ok _ hload
  refine ⟨hescape, ?_⟩
  constructor
  · intro hload step hstep fault hstepEscapes
    obtain ⟨herror, hfault⟩ := (hescape fault).2 ⟨step, hstep, hstepEscapes⟩
    rcases hload with ⟨project, hproject⟩ | ⟨cause, hcause⟩
    · rw [herror] at hproject
      cases hproject
    · rw [herror] at hcause
      exact hfault ⟨cause, Except.error.inj hcause⟩
  · intro hsteps
    cases hload : Project.load files place l with
    | ok project => exact .inl ⟨project, rfl⟩
    | error fault =>
      by_cases hfault : fault.IsConfiguration
      · obtain ⟨cause, rfl⟩ := hfault
        exact .inr ⟨cause, rfl⟩
      · obtain ⟨step, hstep, hstepEscapes⟩ := (hescape fault).1 ⟨hload, hfault⟩
        exact absurd hstepEscapes (hsteps step hstep fault)

/-- A project file of one byte, which begins no character. -/
def textless : FileTree where
  entries := [(["tsconfig.json"], .file [0xff])]

/-- A project file that is no text is not reported as a configuration that cannot be used. -/
theorem Project.load_textless :
    Project.load textless atRoot ⟨0, ["tsconfig.json"]⟩ =
        .error (.undecodable ⟨0, 0, 0xff, .invalidStart⟩) ∧
      ¬ ((∃ project, Project.load textless atRoot ⟨0, ["tsconfig.json"]⟩ = .ok project) ∨
        ∃ cause, Project.load textless atRoot ⟨0, ["tsconfig.json"]⟩ =
          .error (.configuration cause)) := by
  have hload : Project.load textless atRoot ⟨0, ["tsconfig.json"]⟩ =
      .error (.undecodable ⟨0, 0, 0xff, .invalidStart⟩) := rfl
  refine ⟨hload, ?_⟩
  rw [hload]
  rintro (⟨project, hproject⟩ | ⟨cause, hcause⟩)
  · cases hproject
  · cases hcause

/-- A project file that extends one which is no text. -/
def textlessBase : FileTree where
  entries := [(["tsconfig.json"], fileOf "\x7b\"extends\":\"./base\",\"files\":[\"a.ts\"]\x7d"),
    (["base.json"], .file [0xff])]

theorem projectMembers_textlessBase :
    projectMembers textlessBase atRoot (belowRoot "tsconfig.json") =
      .ok [(.text "extends", .text "./base"), (.text "files", .list [.text "a.ts"])] := by
  cbv

theorem projectMembers_textlessBase_base :
    projectMembers textlessBase atRoot (belowRoot "base.json") =
      .error (.undecodable ⟨0, 0, 0xff, .invalidStart⟩) := rfl

theorem Merged.steps_textlessBase :
    Merged.steps textlessBase atRoot (Files.resolve atRoot (belowRoot "tsconfig.json").path) =
      [.opening (belowRoot "tsconfig.json"), .seeking ⟨1, []⟩ "./base",
        .opening (belowRoot "base.json")] := by
  have hfile : Files.resolve atRoot (belowRoot "tsconfig.json").path =
      belowRoot "tsconfig.json" := by decide
  have hcount : textlessBase.entries.length = 2 := rfl
  have hparent : (belowRoot "tsconfig.json").parent = ⟨1, []⟩ := rfl
  have hne : belowRoot "base.json" ≠ belowRoot "tsconfig.json" := by decide
  have hextends : Value.memberTexts
      [(.text "extends", .text "./base"), (.text "files", .list [.text "a.ts"])] "extends" =
        ["./base"] := by decide
  have hbase : resolveExtends textlessBase atRoot ⟨1, []⟩ "./base" =
      .ok (belowRoot "base.json") := rfl
  have hread : readUpTo textlessBase atRoot 3 [belowRoot "tsconfig.json"]
      (belowRoot "base.json") = .error (.undecodable ⟨0, 0, 0xff, .invalidStart⟩) := rfl
  rw [hfile]
  simp [steps, stepsUpTo, stepsFor, hcount, hparent, hne, hextends, hbase, hread,
    projectMembers_textlessBase, projectMembers_textlessBase_base]

theorem Project.isWithinLimits_textlessBase :
    Project.IsWithinLimits textlessBase atRoot (belowRoot "tsconfig.json") := by
  have hopened {file : Location} (h : .opening file ∈ Merged.steps textlessBase atRoot
      (Files.resolve atRoot (belowRoot "tsconfig.json").path)) :
      file = belowRoot "tsconfig.json" ∨ file = belowRoot "base.json" := by
    simpa [Merged.steps_textlessBase] using h
  refine ⟨by decide, fun file hfile => ?_, fun directory name hname => ?_,
    fun file hfile ms hread => ?_⟩
  · unfold IsShort
    obtain rfl | rfl := hopened hfile <;> decide
  · obtain ⟨rfl, rfl⟩ : directory = ⟨1, []⟩ ∧ name = "./base" := by
      simpa [Merged.steps_textlessBase] using hname
    unfold IsShort
    decide
  · obtain rfl | rfl := hopened hfile
    · obtain rfl := Except.ok.inj (projectMembers_textlessBase.symm.trans hread)
      unfold IsPathText
      decide
    · rw [projectMembers_textlessBase_base] at hread
      cases hread

/-- That a file which is extended is no text is not reported as a configuration that cannot be used
either. -/
theorem Project.load_escapes_textlessBase :
    Project.load textlessBase atRoot (belowRoot "tsconfig.json") =
        .error (.undecodable ⟨0, 0, 0xff, .invalidStart⟩) ∧
      ¬ (DeclBundle.Fault.undecodable ⟨0, 0, 0xff, .invalidStart⟩).IsConfiguration := by
  have hescapes : Escapes textlessBase atRoot (.opening (belowRoot "base.json"))
      (.undecodable ⟨0, 0, 0xff, .invalidStart⟩) :=
    .undecodable rfl rfl
  have hload := Project.load_escapes_iff textlessBase atRoot (belowRoot "tsconfig.json")
    isWithinLimits_textlessBase
  refine (hload.1 _).2 ⟨_, ?_, hescapes⟩
  simp [Merged.steps_textlessBase]

end Configuration

end DeclBundle
