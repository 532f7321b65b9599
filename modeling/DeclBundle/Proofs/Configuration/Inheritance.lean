import DeclBundle.Proofs.Configuration.Extends
set_option autoImplicit false

/-!
# What project files inherit

The files that a project file consists of form one list (`Lineage`): for each file that it extends,
in the order in which it names them, that file's own list, and the file itself at the end.  Reading
puts settings together level by level, where the paths of each file are seen from its directory.  It
comes to the same as going through the list once, where the last file that says something on a
matter has the word (`Merged.Flattens`).
-/

namespace DeclBundle.Configuration

open Data

/-! ## What one file says -/

/-- A project file with the members of the object that it holds. -/
structure ProjectFile where
  location : Location
  members : List (Value × Value)

namespace ProjectFile

/-- The canonical form of a path that the file mentions. -/
def seen (f : ProjectFile) (path : String) : String :=
  Path.normalize (Path.join f.location.parent.path path)

/-- The settings of the compiler in the file. -/
def options (f : ProjectFile) : List (Value × Value) :=
  ((Value.member? f.members "compilerOptions").map Value.members).getD []

/-- The setting of the compiler that the file gives, if it does.  The directory of the declarations
is a path that the file mentions. -/
def option? (f : ProjectFile) (key : String) : Option Value :=
  (Value.member? f.options key).map fun v =>
    match v.asText? with
    | some d => if key = "outDir" ∧ d ≠ "" then .text (f.seen d) else v
    | none => v

/-- The paths that the file lists under a key, if it has the key. -/
def paths? (f : ProjectFile) (key : String) : Option (List String) :=
  (Value.member? f.members key).map fun v => v.asTexts.map f.seen

end ProjectFile

/-! ## The last word -/

/-- What the last element says that says something. -/
def lastWord {α β : Type} (say : α → Option β) (xs : List α) : Option β :=
  xs.reverse.findSome? say

theorem lastWord_append {α β : Type} (say : α → Option β) (xs ys : List α) :
    lastWord say (xs ++ ys) = (lastWord say ys).or (lastWord say xs) := by
  rw [lastWord, List.reverse_append, List.findSome?_append]
  rfl

theorem lastWord_singleton {α β : Type} (say : α → Option β) (x : α) :
    lastWord say [x] = say x := by
  simp [lastWord]

/-- Whether settings are what the files of a list say, where the last one has the word. -/
structure Merged.Flattens (m : Merged) (fs : List ProjectFile) : Prop where
  options : ∀ key, Value.member? m.compilerOptions key = lastWord (·.option? key) fs
  files : m.files = lastWord (·.paths? "files") fs
  includes : m.includes = lastWord (·.paths? "include") fs
  excludes : m.excludes = lastWord (·.paths? "exclude") fs

namespace Merged

theorem flattens_empty : Flattens {} [] :=
  ⟨fun _ => rfl, rfl, rfl, rfl⟩

/-- Putting settings together is putting the lists of files together. -/
theorem Flattens.append {m m' : Merged} {fs fs' : List ProjectFile} (h : m.Flattens fs)
    (h' : m'.Flattens fs') : (m ++ m').Flattens (fs ++ fs') where
  options key := by
    have hmember := member?_append m.compilerOptions m'.compilerOptions key
    rw [h.options, h'.options, ← lastWord_append] at hmember
    exact hmember
  files := by
    rw [lastWord_append, ← h.files, ← h'.files]
    rfl
  includes := by
    rw [lastWord_append, ← h.includes, ← h'.includes]
    rfl
  excludes := by
    rw [lastWord_append, ← h.excludes, ← h'.excludes]
    rfl

theorem member?_singleton (key' key : String) (v : Value) :
    Value.member? [(.text key', v)] key = if key' = key then some v else none := by
  by_cases h : key' = key <;> simp [Value.member?, Value.isText, h]

/-- The settings of the compiler in a file are those that it gives. -/
theorem member?_ownOptions (f : ProjectFile) (key : String) :
    Value.member? (ownOptions f.location.parent f.members) key = f.option? key := by
  have hoptions : ((Value.member? f.members "compilerOptions").map Value.members).getD [] =
      f.options := rfl
  simp only [ownOptions, hoptions, ProjectFile.option?, Value.memberText?]
  cases houtDir : ((Value.member? f.options "outDir").bind Value.asText?).filter (· != "") with
  | some d =>
    obtain ⟨htext, hne⟩ := Option.filter_eq_some_iff.1 houtDir
    obtain ⟨v, hv, hd⟩ := Option.bind_eq_some_iff.1 htext
    have hne : d ≠ "" := by simpa using hne
    simp only [member?_append, member?_singleton]
    by_cases hkey : "outDir" = key
    -- the directory as seen from the file stands behind the one that the file gives, and hides it
    · subst hkey
      simp [hv, hd, hne]
      rfl
    · cases Value.member? f.options key with
      | none => simp [hkey]
      | some w => cases hw : w.asText? <;> simp [hkey, Ne.symm hkey, hw]
  | none =>
    cases hv : Value.member? f.options key with
    | none => rfl
    | some v =>
      cases hd : v.asText? with
      | none => simp [hd]
      | some d =>
        have hskip : ¬ (key = "outDir" ∧ d ≠ "") := by
          rintro ⟨rfl, hne⟩
          simp [hv, hd, hne] at houtDir
        simp [hd, hskip]

/-- What a file says on its own is what the list of this file says. -/
theorem flattens_ofMembers (f : ProjectFile) :
    (ofMembers f.location.parent f.members).Flattens [f] where
  options key := (member?_ownOptions f key).trans (lastWord_singleton (·.option? key) f).symm
  files := (lastWord_singleton (·.paths? "files") f).symm
  includes := (lastWord_singleton (·.paths? "include") f).symm
  excludes := (lastWord_singleton (·.paths? "exclude") f).symm

end Merged

/-! ## Lineages -/

section

variable (files : Files.FileTree) (place : Files.Place)

mutual

/-- The files that a project file consists of: those of the files that it extends, one after the
other, and itself at the end.  A file that is reached twice is there twice. -/
inductive Lineage : Location → List ProjectFile → Prop where
  | intro {file : Location} {ms : List (Value × Value)} {before : List ProjectFile}
      (hms : projectMembers files place file = .ok ms)
      (hbases : Lineages file.parent (Value.memberTexts ms "extends") before) :
      Lineage file (before ++ [⟨file, ms⟩])

/-- The files that those consist of to which names lead from a directory. -/
inductive Lineages : Location → List String → List ProjectFile → Prop where
  | nil {directory : Location} : Lineages directory [] []
  | cons {directory base : Location} {name : String} {names : List String}
      {first rest : List ProjectFile}
      (hbase : resolveExtends files place directory name = .ok base)
      (hfirst : Lineage base first) (hrest : Lineages directory names rest) :
      Lineages directory (name :: names) (first ++ rest)

end

/-- Whether a project file has one lineage, which settings flatten. -/
def Descends (file : Location) (merged : Merged) : Prop :=
  ∃ lineage, (∀ other, Lineage files place file other ↔ other = lineage) ∧
    merged.Flattens lineage

end

variable {files : Files.FileTree} {place : Files.Place} {depth : Nat} {chain : List Location}
  {file directory : Location} {names : List String} {inherited merged : Merged}

/-- Settings that are inherited flatten the lineages of the files that are read. -/
theorem Inherits.descends
    (h : Inherits files place depth chain directory names inherited (.ok merged))
    (hread : ∀ d base own, d < depth → Yields files place d chain base (.ok own) →
      Descends files place base own) {before : List ProjectFile}
    (hbefore : inherited.Flattens before) :
    ∃ lineages, (∀ other, Lineages files place directory names other ↔ other = lineages) ∧
      merged.Flattens (before ++ lineages) := by
  induction names generalizing inherited before with
  | nil =>
    cases h
    refine ⟨[], ?_, by rwa [List.append_nil]⟩
    intro other
    constructor
    · intro hother
      cases hother
      rfl
    · rintro rfl
      exact .nil
  | cons name names ih =>
    cases h with
    | cons hbase hyields hrest =>
      obtain ⟨first, hfirst, hflat⟩ := hread _ _ _ (Nat.lt_succ_self _) hyields
      obtain ⟨rest, hlineages, hmerged⟩ := ih hrest (hbefore.append hflat)
      refine ⟨first ++ rest, ?_, by rwa [← List.append_assoc]⟩
      intro other
      constructor
      · intro hother
        cases hother with
        | cons hbase' hfirst' hrest' =>
          rw [hbase] at hbase'
          cases hbase'
          rw [(hfirst _).1 hfirst', (hlineages _).1 hrest']
      · rintro rfl
        exact .cons hbase ((hfirst first).2 rfl) ((hlineages rest).2 rfl)

/-- The settings that reading yields flatten the lineage of the file. -/
theorem Yields.descends (h : Yields files place depth chain file (.ok merged)) :
    Descends files place file merged := by
  induction depth using Nat.strong_induction_on generalizing chain file merged with
  | _ depth ih =>
    obtain ⟨ms, own, hms, hbases, rfl⟩ := h.exists_of_ok
    obtain ⟨before, hbefore, hflat⟩ := hbases.descends
      (fun d base own hd hyields => ih d hd hyields) Merged.flattens_empty
    rw [List.nil_append] at hflat
    refine ⟨before ++ [⟨file, ms⟩], ?_, hflat.append (Merged.flattens_ofMembers ⟨file, ms⟩)⟩
    intro other
    constructor
    · intro hother
      cases hother with
      | intro hms' hbases' =>
        rw [hms] at hms'
        cases hms'
        rw [(hbefore _).1 hbases']
    · rintro rfl
      exact .intro hms ((hbefore before).2 rfl)

/-- A project file for which everything that is extended can be read and nothing reaches itself is
read to the end.  Its settings are what the files of its lineage say, where the last one that says
something on a matter has the word. -/
theorem Merged.read_flattens (hplace : Path.isAbsolute place.workingDirectory = true)
    (hsettled : IsSettled files place file) :
    ∃ merged lineage, Merged.read files place file = .ok merged ∧
      (∀ other, Lineage files place file other ↔ other = lineage) ∧
      merged.Flattens lineage := by
  have hends : ∃ result, Yields files place (files.fileWays.card + 1) [] file result :=
    exists_yields_start hplace file
  obtain ⟨result, hyields⟩ := hends
  cases result with
  | error fault =>
    have hcircular := hyields.circular_of_error hsettled.isComplete (by simp)
    exact absurd hcircular.2 hsettled.not_hasCycle
  | ok merged =>
    obtain ⟨lineage, hlineage, hflat⟩ := hyields.descends
    exact ⟨merged, lineage, hyields.read_eq le_rfl, hlineage, hflat⟩

/-! ## A file that is inherited twice -/

/-- The lineage of a file that extends two files, which both extend a third one. -/
def diamondLineage : List ProjectFile :=
  let third : ProjectFile := ⟨belowRoot "c.json",
    [(.text "compilerOptions", .mapping [(.text "outDir", .text "out")]),
      (.text "files", .list [.text "c.ts"])]⟩
  [third, ⟨belowRoot "a.json",
      [(.text "extends", .text "./c"), (.text "files", .list [.text "a.ts"])]⟩,
    third, ⟨belowRoot "b.json", [(.text "extends", .text "./c")]⟩,
    ⟨belowRoot "tsconfig.json", [(.text "extends", .list [.text "./a", .text "./b"])]⟩]

theorem lineage_diamond :
    Lineage diamond atRoot (belowRoot "tsconfig.json") diamondLineage := by
  obtain ⟨ha, hb, hc⟩ := resolveExtends_diamond
  have hthird := Lineage.intro projectMembers_diamond_c .nil
  have hfirst := Lineage.intro projectMembers_diamond_a (.cons hc hthird .nil)
  have hsecond := Lineage.intro projectMembers_diamond_b (.cons hc hthird .nil)
  exact .intro projectMembers_diamond (.cons ha hfirst (.cons hb hsecond .nil))

/-- What the third file lists stands behind what the first one lists, because the second one
inherits it again. -/
theorem Merged.read_flattens_diamond :
    IsSettled diamond atRoot (belowRoot "tsconfig.json") ∧
      ∃ merged, Merged.read diamond atRoot (belowRoot "tsconfig.json") = .ok merged ∧
        merged.files = some ["/c.ts"] ∧ merged.includes = none ∧
        Value.member? merged.compilerOptions "outDir" = some (.text "/out") := by
  obtain ⟨merged, lineage, hread, hlineage, hflat⟩ :=
    @Merged.read_flattens diamond atRoot (belowRoot "tsconfig.json") rfl isSettled_diamond
  obtain rfl := (hlineage diamondLineage).1 lineage_diamond
  refine ⟨isSettled_diamond, merged, hread, ?_, ?_, ?_⟩
  · rw [hflat.files]
    rfl
  · rw [hflat.includes]
    rfl
  · rw [hflat.options]
    rfl

end DeclBundle.Configuration
