import DeclBundle.Proofs.Configuration.Entries
import Mathlib
set_option autoImplicit false

/-!
# Files that extend one another

Reading a project file reads the files that it extends, and stops where a file comes up that is
being read already.  `Yields` says so without a bound on the depth.  No file is read within itself,
so the readings nest no deeper than there are files, and the bound that reading has is never felt
(`Yields.readUpTo_eq`, `exists_yields`).  What is read to the end extends no file for ever
(`Yields.acc`), and where every file that is extended can be read, nothing but a cycle stops the
reading (`Yields.circular_of_error`).
-/

namespace DeclBundle.Configuration

open Data
open Relation (ReflTransGen TransGen)

section

variable (files : Files.FileTree) (place : Files.Place)

/-! ## Reading without a bound -/

mutual

/-- What reading a project file yields while the files of a chain are being read.  The number bounds
how deep the readings of further files nest in it. -/
inductive Yields : Nat → List Location → Location → Except DeclBundle.Fault Merged → Prop where
  /-- the file is being read already -/
  | circular {depth : Nat} {chain : List Location} {file : Location} (hchain : file ∈ chain) :
      Yields depth chain file (.error (.configuration (.circularExtends (chain ++ [file]))))
  /-- the file holds no object, or cannot be read -/
  | unusable {depth : Nat} {chain : List Location} {file : Location} {fault : DeclBundle.Fault}
      (hchain : file ∉ chain) (hms : projectMembers files place file = .error fault) :
      Yields depth chain file (.error fault)
  /-- what the file says stands behind what it inherits -/
  | merged {depth : Nat} {chain : List Location} {file : Location} {ms : List (Value × Value)}
      {result : Except DeclBundle.Fault Merged}
      (hchain : file ∉ chain) (hms : projectMembers files place file = .ok ms)
      (hbases : Inherits depth (chain ++ [file]) file.parent (Value.memberTexts ms "extends") {}
        result) :
      Yields depth chain file (result.map (· ++ Merged.ofMembers file.parent ms))

/-- What reading the files that names lead to from a directory, one after the other, makes of
settings. -/
inductive Inherits :
    Nat → List Location → Location → List String → Merged → Except DeclBundle.Fault Merged → Prop
    where
  | nil {depth : Nat} {chain : List Location} {directory : Location} {inherited : Merged} :
      Inherits depth chain directory [] inherited (.ok inherited)
  /-- a name leads to no file -/
  | unresolved {depth : Nat} {chain : List Location} {directory : Location} {name : String}
      {names : List String} {inherited : Merged} {fault : DeclBundle.Fault}
      (hbase : resolveExtends files place directory name = .error fault) :
      Inherits depth chain directory (name :: names) inherited (.error fault)
  /-- a file cannot be read to the end -/
  | failed {depth : Nat} {chain : List Location} {directory : Location} {name : String}
      {names : List String} {inherited : Merged} {base : Location} {fault : DeclBundle.Fault}
      (hbase : resolveExtends files place directory name = .ok base)
      (hread : Yields depth chain base (.error fault)) :
      Inherits (depth + 1) chain directory (name :: names) inherited (.error fault)
  | cons {depth : Nat} {chain : List Location} {directory : Location} {name : String}
      {names : List String} {inherited own : Merged} {base : Location}
      {result : Except DeclBundle.Fault Merged}
      (hbase : resolveExtends files place directory name = .ok base)
      (hread : Yields depth chain base (.ok own))
      (hrest : Inherits (depth + 1) chain directory names (inherited ++ own) result) :
      Inherits (depth + 1) chain directory (name :: names) inherited result

end

/-! ## Who extends whom -/

/-- Whether one of the names that a project file lists as extended leads to another file. -/
inductive Extends : Location → Location → Prop where
  | intro {file base : Location} {ms : List (Value × Value)} {name : String}
      (hms : projectMembers files place file = .ok ms)
      (hname : name ∈ Value.memberTexts ms "extends")
      (hbase : resolveExtends files place file.parent name = .ok base) : Extends file base

/-- Whether every file that can be reached from a project file, itself included, holds an object
and extends files only that are there. -/
def IsComplete (file : Location) : Prop :=
  ∀ reached, ReflTransGen (Extends files place) file reached →
    ∃ ms, projectMembers files place reached = .ok ms ∧
      ∀ name ∈ Value.memberTexts ms "extends",
        ∃ base, resolveExtends files place reached.parent name = .ok base

/-- Whether a file that can be reached from a project file reaches itself. -/
def HasCycle (file : Location) : Prop :=
  ∃ reached, ReflTransGen (Extends files place) file reached ∧
    TransGen (Extends files place) reached reached

/-- Whether everything that a project file extends can be read, and nothing reaches itself. -/
structure IsSettled (file : Location) : Prop where
  isComplete : IsComplete files place file
  not_hasCycle : ¬ HasCycle files place file

end

variable {files : Files.FileTree} {place : Files.Place}

theorem IsComplete.of_extends {file base : Location} (h : IsComplete files place file)
    (hbase : Extends files place file base) : IsComplete files place base :=
  fun reached hreached => h reached (.head hbase hreached)

theorem HasCycle.of_extends {file base : Location} (h : HasCycle files place base)
    (hbase : Extends files place file base) : HasCycle files place file := by
  obtain ⟨reached, hreached, hcycle⟩ := h
  exact ⟨reached, .head hbase hreached, hcycle⟩

/-! ## The bound is never felt -/

section

variable {depth : Nat} {chain : List Location} {file directory : Location} {names : List String}
  {inherited merged : Merged} {fault : DeclBundle.Fault}
  {result : Except DeclBundle.Fault Merged}

/-- Settings are inherited by reading one file after the other, however these are read. -/
theorem Inherits.foldlM_eq (h : Inherits files place depth chain directory names inherited result)
    (read : Location → Except DeclBundle.Fault Merged)
    (hread : ∀ d base yielded, d < depth → Yields files place d chain base yielded →
      read base = yielded) :
    names.foldlM (fun merged name => do
      let base ← resolveExtends files place directory name
      return merged ++ (← read base)) inherited = result := by
  induction names generalizing inherited with
  | nil =>
    cases h
    rfl
  | cons name names ih =>
    simp only [List.foldlM_cons, bind, Except.bind] at ih ⊢
    cases h with
    | unresolved hbase => simp only [hbase]
    | failed hbase hyields => simp only [hbase, hread _ _ _ (Nat.lt_succ_self _) hyields]
    | cons hbase hyields hrest =>
      simp only [hbase, hread _ _ _ (Nat.lt_succ_self _) hyields]
      exact ih hrest

/-- With a bound above the depth of the nesting, reading gives what it yields. -/
theorem Yields.readUpTo_eq (h : Yields files place depth chain file result) {bound : Nat}
    (hbound : depth < bound) : Merged.readUpTo files place bound chain file = result := by
  induction bound generalizing depth chain file result with
  | zero => exact absurd hbound (Nat.not_lt_zero depth)
  | succ bound ih =>
    simp only [Merged.readUpTo, bind, Except.bind]
    cases h with
    | circular hchain =>
      rw [if_pos (List.contains_iff_mem.2 hchain)]
      rfl
    | unusable hchain hms =>
      rw [if_neg (by simpa using hchain)]
      simp only [hms]
    | @merged _ _ _ ms inherited hchain hms hbases =>
      rw [if_neg (by simpa using hchain)]
      have hfold := hbases.foldlM_eq (Merged.readUpTo files place bound (chain ++ [file]))
        fun d base yielded hd hyields => ih hyields (by omega)
      simp only [bind, Except.bind] at hfold
      simp only [hms, hfold]
      cases inherited <;> rfl

/-! ## Reading comes to an end -/

theorem exists_inherits
    (h : ∀ name base, resolveExtends files place directory name = .ok base →
      ∃ result, Yields files place depth chain base result) (names : List String)
    (inherited : Merged) :
    ∃ result, Inherits files place (depth + 1) chain directory names inherited result := by
  induction names generalizing inherited with
  | nil => exact ⟨_, .nil⟩
  | cons name names ih =>
    cases hbase : resolveExtends files place directory name with
    | error fault => exact ⟨_, .unresolved hbase⟩
    | ok base =>
      obtain ⟨yielded, hyields⟩ := h name base hbase
      cases yielded with
      | error fault => exact ⟨_, .failed hbase hyields⟩
      | ok own =>
        obtain ⟨result, hrest⟩ := ih (inherited ++ own)
        exact ⟨result, .cons hbase hyields hrest⟩

/-- Reading a file ends at once, or the file holds an object. -/
theorem yields_or_usable (depth : Nat) (chain : List Location) (file : Location) :
    (∃ result, Yields files place depth chain file result) ∨
      (file ∉ chain ∧ ∃ ms, projectMembers files place file = .ok ms) := by
  by_cases hchain : file ∈ chain
  · exact .inl ⟨_, .circular hchain⟩
  · cases hms : projectMembers files place file with
    | error fault => exact .inl ⟨_, .unusable hchain hms⟩
    | ok ms => exact .inr ⟨hchain, ms, rfl⟩

/-- Reading a file ends if reading those that it extends does. -/
theorem exists_yields_of_bases {ms : List (Value × Value)} (hchain : file ∉ chain)
    (hms : projectMembers files place file = .ok ms)
    (h : ∀ name base, resolveExtends files place file.parent name = .ok base →
      ∃ result, Yields files place depth (chain ++ [file]) base result) :
    ∃ result, Yields files place (depth + 1) chain file result := by
  obtain ⟨result, hresult⟩ := exists_inherits h (Value.memberTexts ms "extends") {}
  exact ⟨_, .merged hchain hms hresult⟩

/-- The files that are not being read. -/
def unread (files : Files.FileTree) (chain : List Location) : Finset Files.Way :=
  files.fileWays.filter fun way => (⟨1, way⟩ : Location) ∉ chain

/-- A canonical location that holds an object is a file, and while it is read there is one file less
that is not. -/
theorem card_unread_lt (hfile : file.IsCanonical) (hchain : file ∉ chain)
    {ms : List (Value × Value)} (hms : projectMembers files place file = .ok ms) :
    (unread files (chain ++ [file])).card < (unread files chain).card := by
  have hlocation : (⟨1, file.parts⟩ : Location) = file := by rw [← hfile.slashes]
  have hway : file.parts ∈ files.fileWays := by
    cases hread : files.read place file.path with
    | error cause =>
      simp only [projectMembers, hread] at hms
      cases hms
    | ok content => exact Files.FileTree.parts_mem_fileWays hfile hread
  apply Finset.card_lt_card
  rw [Finset.ssubset_iff_of_subset]
  · refine ⟨file.parts, Finset.mem_filter.2 ⟨hway, by rwa [hlocation]⟩, ?_⟩
    intro hmem
    have hnot := (Finset.mem_filter.1 hmem).2
    simp [hlocation] at hnot
  · intro way hmem
    obtain ⟨hfiles, hnot⟩ := Finset.mem_filter.1 hmem
    exact Finset.mem_filter.2 ⟨hfiles, fun hin => hnot (List.mem_append_left _ hin)⟩

/-- Reading a file that is known by a canonical location ends, and the readings in it nest no deeper
than there are files that are not being read. -/
theorem exists_yields (hplace : Path.isAbsolute place.workingDirectory = true)
    (hfile : file.IsCanonical) (hdepth : (unread files chain).card ≤ depth) :
    ∃ result, Yields files place depth chain file result := by
  induction depth generalizing chain file with
  | zero =>
    rcases yields_or_usable 0 chain file with hyields | ⟨hchain, ms, hms⟩
    · exact hyields
    · have hlt := card_unread_lt hfile hchain hms
      omega
  | succ depth ih =>
    rcases yields_or_usable (depth + 1) chain file with hyields | ⟨hchain, ms, hms⟩
    · exact hyields
    · have hlt := card_unread_lt hfile hchain hms
      apply exists_yields_of_bases hchain hms
      intro name base hbase
      obtain ⟨path, rfl⟩ := resolveExtends_resolved hbase
      exact ih (Files.isCanonical_resolve hplace path) (by omega)

/-- Reading a file ends, however it is known: the files that it extends are known by canonical
locations. -/
theorem exists_yields_start (hplace : Path.isAbsolute place.workingDirectory = true)
    (file : Location) :
    ∃ result, Yields files place (files.fileWays.card + 1) [] file result := by
  rcases yields_or_usable (files.fileWays.card + 1) [] file with hyields | ⟨hchain, ms, hms⟩
  · exact hyields
  · apply exists_yields_of_bases hchain hms
    intro name base hbase
    obtain ⟨path, rfl⟩ := resolveExtends_resolved hbase
    exact exists_yields hplace (Files.isCanonical_resolve hplace path) (Finset.card_filter_le _ _)

/-- What reading yields is what the program reads: its bound is above the number of files. -/
theorem Yields.read_eq (h : Yields files place depth [] file result)
    (hdepth : depth ≤ files.fileWays.card + 1) : Merged.read files place file = result := by
  have hcard := files.card_fileWays_le
  exact h.readUpTo_eq (by omega)

/-- The program reads what reading yields. -/
theorem yields_read (hplace : Path.isAbsolute place.workingDirectory = true) (file : Location) :
    Yields files place (files.fileWays.card + 1) [] file (Merged.read files place file) := by
  have hends : ∃ result, Yields files place (files.fileWays.card + 1) [] file result :=
    exists_yields_start hplace file
  obtain ⟨result, hyields⟩ := hends
  rwa [hyields.read_eq le_rfl]

/-- Reading yields one result only. -/
theorem Yields.unique {depth' : Nat} {result' : Except DeclBundle.Fault Merged}
    (h : Yields files place depth chain file result)
    (h' : Yields files place depth' chain file result') : result = result' := by
  have hread : Merged.readUpTo files place (max depth depth' + 1) chain file = result :=
    h.readUpTo_eq (by omega)
  have hread' : Merged.readUpTo files place (max depth depth' + 1) chain file = result' :=
    h'.readUpTo_eq (by omega)
  exact hread.symm.trans hread'

/-! ## Cycles -/

/-- Where settings have been inherited to the end, every name leads to a file that has been read. -/
theorem Inherits.exists_yields_ok
    (h : Inherits files place depth chain directory names inherited (.ok merged)) {name : String}
    (hname : name ∈ names) :
    ∃ d base own, d < depth ∧ resolveExtends files place directory name = .ok base ∧
      Yields files place d chain base (.ok own) := by
  induction names generalizing inherited with
  | nil => cases hname
  | cons first names ih =>
    cases h with
    | cons hbase hread hrest =>
      rcases List.mem_cons.1 hname with rfl | hname
      · exact ⟨_, _, _, Nat.lt_succ_self _, hbase, hread⟩
      · exact ih hrest hname

/-- Where settings have not been inherited to the end, a name leads to no file, or to one that has
not been read. -/
theorem Inherits.exists_error
    (h : Inherits files place depth chain directory names inherited (.error fault)) :
    ∃ name ∈ names, resolveExtends files place directory name = .error fault ∨
      ∃ d base, d < depth ∧ resolveExtends files place directory name = .ok base ∧
        Yields files place d chain base (.error fault) := by
  induction names generalizing inherited with
  | nil => cases h
  | cons first names ih =>
    cases h with
    | unresolved hbase => exact ⟨first, List.mem_cons_self .., .inl hbase⟩
    | failed hbase hread =>
      exact ⟨first, List.mem_cons_self .., .inr ⟨_, _, Nat.lt_succ_self _, hbase, hread⟩⟩
    | cons hbase hread hrest =>
      obtain ⟨name, hname, herror⟩ := ih hrest
      exact ⟨name, List.mem_cons_of_mem first hname, herror⟩

/-- A file that is read to the end holds an object, and settings have been inherited to the end. -/
theorem Yields.exists_of_ok (h : Yields files place depth chain file (.ok merged)) :
    ∃ ms own, projectMembers files place file = .ok ms ∧
      Inherits files place depth (chain ++ [file]) file.parent (Value.memberTexts ms "extends") {}
        (.ok own) ∧
      merged = own ++ Merged.ofMembers file.parent ms := by
  generalize hresult : Except.ok merged = result at h
  cases h with
  | circular hchain => cases hresult
  | unusable hchain hms => cases hresult
  | @merged _ _ _ ms inherited hchain hms hbases =>
    cases inherited with
    | error fault => cases hresult
    | ok own => exact ⟨ms, own, hms, hbases, Except.ok.inj hresult⟩

/-- A file that is read to the end extends no file for ever. -/
theorem Yields.acc (h : Yields files place depth chain file (.ok merged)) :
    Acc (fun base file => Extends files place file base) file := by
  -- a reading within another one is less deep, which stands in for a mutual induction
  induction depth using Nat.strong_induction_on generalizing chain file merged with
  | _ depth ih =>
    obtain ⟨ms, own, hms, hbases, -⟩ := h.exists_of_ok
    constructor
    intro base hextends
    cases hextends with
    | intro hms' hname hbase' =>
      rw [hms] at hms'
      cases hms'
      obtain ⟨d, other, own, hd, hbase, hread⟩ := hbases.exists_yields_ok hname
      rw [hbase'] at hbase
      cases hbase
      exact ih d hd hread

/-- From a cycle there is always a further file to go to, from where the cycle is reached. -/
theorem HasCycle.exists_extends (h : HasCycle files place file) :
    ∃ base, Extends files place file base ∧ HasCycle files place base := by
  obtain ⟨reached, hreached, hcycle⟩ := h
  rcases ReflTransGen.cases_head hreached with rfl | ⟨base, hbase, hrest⟩
  · obtain ⟨base, hbase, hback⟩ := TransGen.head'_iff.1 hcycle
    exact ⟨base, hbase, file, hback, hcycle⟩
  · exact ⟨base, hbase, reached, hrest, hcycle⟩

theorem not_hasCycle_of_acc (h : Acc (fun base file => Extends files place file base) file) :
    ¬ HasCycle files place file := by
  induction h with
  | intro file _ ih =>
    intro hcycle
    obtain ⟨base, hbase, hcycle⟩ := hcycle.exists_extends
    exact ih base hbase hcycle

/-- Where everything that is extended can be read, only a file that reaches itself stops reading.
Every file of the chain extends the file that is read, perhaps through others. -/
theorem Yields.circular_of_error (h : Yields files place depth chain file (.error fault))
    (hcomplete : IsComplete files place file)
    (hchain : ∀ link ∈ chain, TransGen (Extends files place) link file) :
    (∃ walk, fault = .configuration (.circularExtends walk)) ∧ HasCycle files place file := by
  induction depth using Nat.strong_induction_on generalizing chain file with
  | _ depth ih =>
    obtain ⟨ms, hms, hresolved⟩ := hcomplete file .refl
    generalize hresult : Except.error fault = result at h
    cases h with
    | circular hmem =>
      -- the file stands in the chain, every file of which leads to it
      cases hresult
      exact ⟨⟨_, rfl⟩, file, .refl, hchain file hmem⟩
    | unusable hnot hms' =>
      rw [hms] at hms'
      cases hms'
    | @merged _ _ _ ms' inherited hnot hms' hbases =>
      rw [hms] at hms'
      cases hms'
      cases inherited with
      | ok inherited => cases hresult
      | error fault' =>
        cases hresult
        obtain ⟨name, hname, herror | ⟨d, base, hd, hbase, hread⟩⟩ := hbases.exists_error
        · obtain ⟨base, hbase⟩ := hresolved name hname
          rw [hbase] at herror
          cases herror
        · have hextends : Extends files place file base := .intro hms hname hbase
          have hlinks : ∀ link ∈ chain ++ [file], TransGen (Extends files place) link base := by
            intro link hlink
            rcases List.mem_append.1 hlink with hlink | hlink
            · exact (hchain link hlink).tail hextends
            · rw [List.mem_singleton.1 hlink]
              exact .single hextends
          obtain ⟨hwalk, hcycle⟩ := ih d hd hread (hcomplete.of_extends hextends) hlinks
          exact ⟨hwalk, hcycle.of_extends hextends⟩

end

/-- Reading a project file ends for every tree, with one result, which is what the program reads;
the readings of further files nest in it no deeper than there are files, where the first file is
known by its canonical location, and else no deeper than by one more.  Where everything that is
extended can be read, reading reports a cycle just if a file that can be reached reaches itself, and
otherwise gives settings. -/
theorem Merged.read_circular_iff (hplace : Path.isAbsolute place.workingDirectory = true)
    (file : Location) :
    (∀ result, (∃ depth, Yields files place depth [] file result) ↔
      result = Merged.read files place file) ∧
    Yields files place (files.fileWays.card + 1) [] file (Merged.read files place file) ∧
    (file.IsCanonical →
      Yields files place files.fileWays.card [] file (Merged.read files place file)) ∧
    (IsComplete files place file →
      ((∃ walk, Merged.read files place file = .error (.configuration (.circularExtends walk))) ↔
        HasCycle files place file) ∧
      (¬ HasCycle files place file → ∃ merged, Merged.read files place file = .ok merged)) := by
  have hends : ∃ result, Yields files place (files.fileWays.card + 1) [] file result :=
    exists_yields_start hplace file
  obtain ⟨result, hyields⟩ := hends
  have hread := hyields.read_eq le_rfl
  rw [hread]
  refine ⟨?_, hyields, ?_, ?_⟩
  · intro other
    constructor
    · rintro ⟨depth, hother⟩
      exact hother.unique hyields
    · rintro rfl
      exact ⟨_, hyields⟩
  · intro hfile
    have hends : ∃ other, Yields files place files.fileWays.card [] file other :=
      exists_yields hplace hfile (Finset.card_filter_le _ _)
    obtain ⟨other, hother⟩ := hends
    rwa [← hother.unique hyields]
  · intro hcomplete
    cases result with
    | ok merged =>
      have hnot := not_hasCycle_of_acc hyields.acc
      exact ⟨iff_of_false (fun ⟨_, h⟩ => by cases h) hnot, fun _ => ⟨merged, rfl⟩⟩
    | error fault =>
      obtain ⟨⟨walk, rfl⟩, hcycle⟩ := hyields.circular_of_error hcomplete (by simp)
      exact ⟨iff_of_true ⟨walk, rfl⟩ hcycle, fun hnot => absurd hcycle hnot⟩

/-! ## A file that is reached twice, and one that is reached from itself -/

/-- A file is settled if its names lead to settled files. -/
theorem isSettled_of_bases {file : Location} {ms : List (Value × Value)}
    (hms : projectMembers files place file = .ok ms)
    (h : ∀ name ∈ Value.memberTexts ms "extends",
      ∃ base, resolveExtends files place file.parent name = .ok base ∧
        IsSettled files place base) : IsSettled files place file := by
  have hextended : ∀ base, Extends files place file base → IsSettled files place base := by
    intro base hextends
    cases hextends with
    | intro hms' hname hbase =>
      rw [hms] at hms'
      cases hms'
      obtain ⟨other, hother, hsettled⟩ := h _ hname
      rw [hbase] at hother
      cases hother
      exact hsettled
  constructor
  · intro reached hreached
    rcases ReflTransGen.cases_head hreached with rfl | ⟨base, hbase, hrest⟩
    · refine ⟨ms, hms, ?_⟩
      intro name hname
      obtain ⟨base, hbase, -⟩ := h name hname
      exact ⟨base, hbase⟩
    · exact (hextended base hbase).isComplete reached hrest
  · intro hcycle
    obtain ⟨base, hbase, hcycle⟩ := hcycle.exists_extends
    exact (hextended base hbase).not_hasCycle hcycle

/-- The bytes of a file of plain text. -/
def fileOf (text : String) : Files.Entry :=
  .file (Utf8.encode text.toList)

/-- A project file that extends two files, which both extend a third one. -/
def diamond : Files.FileTree where
  entries := [(["tsconfig.json"], fileOf "\x7b\"extends\":[\"./a\",\"./b\"]\x7d"),
    (["a.json"], fileOf "\x7b\"extends\":\"./c\",\"files\":[\"a.ts\"]\x7d"),
    (["b.json"], fileOf "\x7b\"extends\":\"./c\"\x7d"),
    (["c.json"], fileOf
      "\x7b\"compilerOptions\":\x7b\"outDir\":\"out\"\x7d,\"files\":[\"c.ts\"]\x7d")]

/-- A project file that extends itself. -/
def loop : Files.FileTree where
  entries := [(["tsconfig.json"], fileOf "\x7b\"extends\":\"./tsconfig\"\x7d")]

/-- The location of a file directly below the root. -/
def belowRoot (name : String) : Location :=
  ⟨1, [name]⟩

theorem isCanonical_tsconfig : (belowRoot "tsconfig.json").IsCanonical := by
  refine ⟨rfl, ?_⟩
  intro part hpart
  rw [List.mem_singleton.1 hpart]
  decide

theorem projectMembers_diamond :
    projectMembers diamond atRoot (belowRoot "tsconfig.json") =
      .ok [(.text "extends", .list [.text "./a", .text "./b"])] := by
  cbv

theorem projectMembers_diamond_a :
    projectMembers diamond atRoot (belowRoot "a.json") =
      .ok [(.text "extends", .text "./c"), (.text "files", .list [.text "a.ts"])] := by
  cbv

theorem projectMembers_diamond_b :
    projectMembers diamond atRoot (belowRoot "b.json") = .ok [(.text "extends", .text "./c")] := by
  cbv

theorem projectMembers_diamond_c :
    projectMembers diamond atRoot (belowRoot "c.json") =
      .ok [(.text "compilerOptions", .mapping [(.text "outDir", .text "out")]),
        (.text "files", .list [.text "c.ts"])] := by
  cbv

theorem resolveExtends_diamond :
    resolveExtends diamond atRoot ⟨1, []⟩ "./a" = .ok (belowRoot "a.json") ∧
      resolveExtends diamond atRoot ⟨1, []⟩ "./b" = .ok (belowRoot "b.json") ∧
      resolveExtends diamond atRoot ⟨1, []⟩ "./c" = .ok (belowRoot "c.json") := by
  refine ⟨?_, ?_, ?_⟩ <;> rfl

theorem isSettled_diamond : IsSettled diamond atRoot (belowRoot "tsconfig.json") := by
  obtain ⟨ha, hb, hc⟩ := resolveExtends_diamond
  have hsettled : IsSettled diamond atRoot (belowRoot "c.json") := by
    refine isSettled_of_bases projectMembers_diamond_c ?_
    intro name hname
    cases hname
  refine isSettled_of_bases projectMembers_diamond ?_
  intro name hname
  change name ∈ ["./a", "./b"] at hname
  simp only [List.mem_cons, List.not_mem_nil, or_false] at hname
  rcases hname with rfl | rfl
  · refine ⟨_, ha, isSettled_of_bases projectMembers_diamond_a ?_⟩
    intro name hname
    change name ∈ ["./c"] at hname
    obtain rfl := List.mem_singleton.1 hname
    exact ⟨_, hc, hsettled⟩
  · refine ⟨_, hb, isSettled_of_bases projectMembers_diamond_b ?_⟩
    intro name hname
    change name ∈ ["./c"] at hname
    obtain rfl := List.mem_singleton.1 hname
    exact ⟨_, hc, hsettled⟩

theorem projectMembers_loop :
    projectMembers loop atRoot (belowRoot "tsconfig.json") =
      .ok [(.text "extends", .text "./tsconfig")] := by
  cbv

theorem extends_loop_iff {base : Location} :
    Extends loop atRoot (belowRoot "tsconfig.json") base ↔ base = belowRoot "tsconfig.json" := by
  have hbase : resolveExtends loop atRoot ⟨1, []⟩ "./tsconfig" =
      .ok (belowRoot "tsconfig.json") := rfl
  constructor
  · intro hextends
    cases hextends with
    | intro hms hname hbase' =>
      rw [projectMembers_loop] at hms
      cases hms
      obtain rfl := List.mem_singleton.1 hname
      exact Except.ok.inj (hbase'.symm.trans hbase)
  · rintro rfl
    exact .intro projectMembers_loop (List.mem_singleton_self _) hbase

theorem isComplete_loop : IsComplete loop atRoot (belowRoot "tsconfig.json") := by
  intro reached hreached
  have hself : reached = belowRoot "tsconfig.json" := by
    induction hreached with
    | refl => rfl
    | tail _ hstep ih =>
      subst ih
      exact extends_loop_iff.1 hstep
  subst hself
  refine ⟨_, projectMembers_loop, ?_⟩
  intro name hname
  obtain rfl := List.mem_singleton.1 hname
  exact ⟨belowRoot "tsconfig.json", rfl⟩

/-- A file that two others extend is no cycle; one that extends itself is. -/
theorem Merged.read_circular_iff_diamond :
    (IsSettled diamond atRoot (belowRoot "tsconfig.json") ∧
      (∃ merged, Merged.read diamond atRoot (belowRoot "tsconfig.json") = .ok merged) ∧
      Yields diamond atRoot diamond.fileWays.card [] (belowRoot "tsconfig.json")
        (Merged.read diamond atRoot (belowRoot "tsconfig.json"))) ∧
    (IsComplete loop atRoot (belowRoot "tsconfig.json") ∧
      HasCycle loop atRoot (belowRoot "tsconfig.json") ∧
      ∃ walk, Merged.read loop atRoot (belowRoot "tsconfig.json") =
        .error (.configuration (.circularExtends walk))) := by
  obtain ⟨-, -, hnests, hends⟩ :=
    @Merged.read_circular_iff diamond atRoot rfl (belowRoot "tsconfig.json")
  obtain ⟨-, hok⟩ := hends isSettled_diamond.isComplete
  obtain ⟨-, -, -, hloop⟩ :=
    @Merged.read_circular_iff loop atRoot rfl (belowRoot "tsconfig.json")
  have hcycle : HasCycle loop atRoot (belowRoot "tsconfig.json") :=
    ⟨belowRoot "tsconfig.json", .refl, .single (extends_loop_iff.2 rfl)⟩
  exact ⟨⟨isSettled_diamond, hok isSettled_diamond.not_hasCycle, hnests isCanonical_tsconfig⟩,
    isComplete_loop, hcycle, (hloop isComplete_loop).1.2 hcycle⟩

end DeclBundle.Configuration
