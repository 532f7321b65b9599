import DeclBundle.Compiler.Run
import DeclBundle.Proofs.Bundle.Planning
import DeclBundle.Proofs.Log
import Mathlib
set_option autoImplicit false

/-!
# What a run of the compiler leaves behind

A run of the compiler works in a directory that was not there before (`freshWay_free`) and takes it
away at the end, whatever it gives.  So if the program that is started keeps to that directory, the
files afterwards are those from before: nothing is left of the run but the message that announced it
(`compile_footprint`).
-/

namespace DeclBundle.CommandCompiler

open DeclBundle.Files (Entry FileTree Place Way)

variable {c : CommandCompiler} {request : Request} {s : System}

/-! ## The directory of a run -/

/-- The name of a directory for temporary use. -/
def temporaryName (n : Nat) : String :=
  "dtsbundle-" ++ toString n

theorem temporaryName_injective : Function.Injective temporaryName := by
  intro m n h
  exact Nat.repr_inj.1 (String.append_right_inj _ |>.1 h)

/-- One of the first directories for temporary use, as many as there are entries and one more, has
nothing at it and below. -/
theorem exists_free (place : Place) (files : FileTree) :
    ∃ n ∈ List.range (files.entries.length + 1), ∀ entry ∈ files.entries,
      ¬ place.temporary ++ [temporaryName n] <+: entry.1 := by
  by_contra hnone
  push Not at hnone
  -- each of them takes an entry of its own, which has its name at the same place
  have hnames : (List.range (files.entries.length + 1)).map (fun n => some (temporaryName n)) ⊆
      files.entries.map (·.1[place.temporary.length]?) := by
    intro name hname
    obtain ⟨n, hn, rfl⟩ := List.mem_map.1 hname
    obtain ⟨entry, hentry, rest, hrest⟩ := hnone n hn
    refine List.mem_map.2 ⟨entry, hentry, ?_⟩
    rw [← hrest]
    simp
  have hnodup : ((List.range (files.entries.length + 1)).map
      (fun n => some (temporaryName n))).Nodup :=
    List.nodup_range.map ((Option.some_injective _).comp temporaryName_injective)
  have hlength := (hnodup.subperm hnames).length_le
  simp only [List.length_map, List.length_range] at hlength
  omega

/-- The directory of a run is one for temporary use that has nothing at it and below. -/
theorem exists_freshWay_eq (place : Place) (files : FileTree) :
    ∃ n, freshWay place files = place.temporary ++ [temporaryName n] ∧
      ∀ entry ∈ files.entries, ¬ place.temporary ++ [temporaryName n] <+: entry.1 := by
  obtain ⟨n, hn, hfree⟩ := exists_free place files
  unfold freshWay
  dsimp only
  cases hfound : (List.range (files.entries.length + 1)).find? (fun n =>
      !files.entries.any fun e => (place.temporary ++ ["dtsbundle-" ++ toString n]).isPrefixOf e.1)
    with
  | none =>
    have hnot := List.find?_eq_none.1 hfound n hn
    simp only [Bool.not_eq_true', Bool.not_eq_false, List.any_eq_true,
      List.isPrefixOf_iff_prefix] at hnot
    obtain ⟨entry, hentry, hprefix⟩ := hnot
    exact absurd hprefix (hfree entry hentry)
  | some m =>
    have hfree := List.find?_some hfound
    simp only [Bool.not_eq_true', List.any_eq_false, List.isPrefixOf_iff_prefix] at hfree
    exact ⟨m, rfl, hfree⟩

/-- Nothing stands at the way to the directory of a run, or below. -/
theorem freshWay_free (place : Place) (files : FileTree) {way : Way}
    (h : freshWay place files <+: way) : files.entry? way = none := by
  obtain ⟨n, hway, hfree⟩ := exists_freshWay_eq place files
  rw [hway] at h
  have hne : way ≠ [] := by
    rintro rfl
    simp at h
  rw [ FileTree.entry?, if_neg hne, Option.map_eq_none_iff, List.find?_eq_none]
  intro entry hentry hkey
  obtain rfl : entry.1 = way := by simpa using hkey
  exact hfree entry hentry h

theorem freshWay_ne_nil (place : Place) (files : FileTree) : freshWay place files ≠ [] := by
  obtain ⟨n, hway, -⟩ := exists_freshWay_eq place files
  simp [hway]

/-! ## What is left of a run -/

/-- Whether the program that a request starts leaves everything outside of a directory as it is, if
that is where it has to put the declarations. -/
def StaysBelow (c : CommandCompiler) (request : Request) (way : Way) : Prop :=
  ∀ files last, ¬ way <+: last →
    FileTree.entry? (c.runner (c.invocation request (pathOf way)) files).2 last = files.entry? last

/-- The system with the message that announces a run of the compiler with a directory. -/
def announced (c : CommandCompiler) (request : Request) (way : Way) (s : System) : System :=
  s.logged Level.debug "compiler"
    ("Running " ++ " ".intercalate (c.invocation request (pathOf way)).arguments)

/-- The system in which the program is started: the directory is there and the message is logged. -/
def started (c : CommandCompiler) (request : Request) (s : System) : System :=
  let way := freshWay s.place s.files
  c.announced request way { s with files := s.files.put way .directory }

/-- A run of the compiler leaves what the program leaves, without the directory, whatever the run
gives. -/
theorem after_compile (c : CommandCompiler) (request : Request) (s : System) :
    let way := freshWay s.place s.files
    let started := c.started request s
    Bundle.after (c.compile request) s = { started with
      files := (c.runner (c.invocation request (pathOf way)) started.files).2.remove way
      invocations := s.invocations ++ [c.invocation request (pathOf way)] } := by
  unfold Bundle.after compile
  dsimp only
  split
  · rename_i hrun
    split at hrun
    · obtain ⟨-, rfl⟩ := EStateM.Result.ok.inj hrun
      rfl
    · cases hrun
  · rename_i hrun
    split at hrun
    · cases hrun
    · obtain ⟨-, rfl⟩ := EStateM.Result.error.inj hrun
      rfl

/-- What stands somewhere after a run of the compiler is what stands there once the run has been
announced. -/
theorem entry?_after_compile (h : c.StaysBelow request (freshWay s.place s.files)) (way : Way) :
    FileTree.entry? (Bundle.after (c.compile request) s).files way =
      FileTree.entry? (c.announced request (freshWay s.place s.files) s).files way := by
  rw [after_compile]
  dsimp only
  by_cases hway : freshWay s.place s.files <+: way
  · have hne : way ≠ [] := by
      rintro rfl
      exact freshWay_ne_nil _ _ (List.prefix_nil.1 hway)
    rw [FileTree.entry?_remove_of_isPrefix _ hway hne]
    exact (System.entry?_logged_of_none (freshWay_free _ _ hway) _ _ _).symm
  · have hother : way ≠ freshWay s.place s.files := by
      rintro rfl
      exact hway (List.prefix_refl _)
    rw [FileTree.entry?_remove_of_not_isPrefix _ hway, h _ _ hway]
    exact System.entry?_logged_of_files (s.files.entry?_put_of_ne hother .directory) _ _ _

/-- A run of the compiler whose program keeps to the directory that it is given leaves the files as
they were, whatever the run gives: nothing is made, changed or taken away, and nothing is left of the
directory.  Only the file of the log, if there is one, has the message that announced the run. -/
theorem compile_footprint (h : c.StaysBelow request (freshWay s.place s.files)) :
    (∀ way, s.log.file.map (·.way) ≠ some way →
      FileTree.entry? (Bundle.after (c.compile request) s).files way = s.files.entry? way) ∧
    (∀ way, freshWay s.place s.files <+: way →
      FileTree.entry? (Bundle.after (c.compile request) s).files way = none) ∧
    (∀ way, FileTree.entry? (Bundle.after (c.compile request) s).files way =
      FileTree.entry? (c.announced request (freshWay s.place s.files) s).files way) ∧
    (Bundle.after (c.compile request) s).place = s.place ∧
    (Bundle.after (c.compile request) s).log =
      (c.announced request (freshWay s.place s.files) s).log := by
  refine ⟨?_, ?_, entry?_after_compile h, ?_, ?_⟩
  · intro way hlog
    rw [entry?_after_compile h]
    exact System.entry?_logged_of_ne hlog _ _ _
  · intro way hway
    rw [entry?_after_compile h]
    exact System.entry?_logged_of_none (freshWay_free _ _ hway) _ _ _
  · rw [after_compile]
    rfl
  · rw [after_compile]
    exact s.log_logged_of_files _ _ _ _

/-! ## A declaration that is no text -/

/-- The directory that an invocation names for the declarations. -/
def emitWay (invocation : Invocation) : Way :=
  (Path.segments ((invocation.arguments.drop 13).headD "")).filter (· != "")

/-- A compiler that lists one file and leaves a declaration for it that is no text. -/
def garbling : CommandCompiler where
  runner invocation files :=
    (.ok "/p/a.ts\n", files.put (emitWay invocation ++ ["a.d.ts"]) (.file [0xff]))

/-- A request for one file. -/
def plainRequest : Request :=
  ⟨["/p/a.ts"], { base := "/p", outDir := some "gen" }⟩

/-- A system with that file. -/
def plainSystem : System where
  place := { workingDirectory := "/p", home := "/" }
  files := ⟨[(["tmp"], .directory), (["p"], .directory), (["p", "a.ts"], .file [])]⟩

/-- A run of the compiler that fails on a declaration leaves neither the declaration nor its
directory. -/
theorem compile_footprint_garbling :
    garbling.StaysBelow plainRequest ["tmp", "dtsbundle-0"] ∧
      Bundle.answer (garbling.compile plainRequest) plainSystem =
        .error (.undecodable ⟨0, 0, 0xff, .invalidStart⟩) ∧
      ∀ way, FileTree.entry? (Bundle.after (garbling.compile plainRequest) plainSystem).files way =
        plainSystem.files.entry? way := by
  have hstays : garbling.StaysBelow plainRequest ["tmp", "dtsbundle-0"] := by
    intro files last hlast
    have hway : emitWay (garbling.invocation plainRequest (pathOf ["tmp", "dtsbundle-0"])) =
        ["tmp", "dtsbundle-0"] := by
      decide +kernel
    refine files.entry?_put_of_ne ?_ _
    rw [hway]
    rintro rfl
    exact hlast ⟨["a.d.ts"], rfl⟩
  have hfault : Bundle.answer (garbling.compile plainRequest) plainSystem =
      .error (.undecodable ⟨0, 0, 0xff, .invalidStart⟩) := by
    decide +kernel
  refine ⟨hstays, hfault, fun way => ?_⟩
  exact (compile_footprint (s := plainSystem) hstays).1 way nofun

end DeclBundle.CommandCompiler
