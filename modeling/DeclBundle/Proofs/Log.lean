import DeclBundle.Proofs.Files.Alike
import DeclBundle.System
set_option autoImplicit false

/-!
# What logging touches

A message goes to the console and, if the log has a file, behind what that file holds.  It changes
nothing else, and what it does to the log does not depend on the files at all (`Log.exists_add_eq`).
-/

namespace DeclBundle

open DeclBundle.Files (FileTree Way)

/-- Logging a message changes the log in a way that the files have no part in, and writes to the file
of the log or nowhere. -/
theorem Log.exists_add_eq (l : Log) (level : Level) (part message : String) :
    ∃ l' : Log, l'.file.map (·.way) = l.file.map (·.way) ∧
      ((∀ t, l.add t level part message = (l', t)) ∨
        ∃ f bytes, l.file = some f ∧
          ∀ t, l.add t level part message = (l', t.writeAt f.way f.position bytes)) := by
  unfold Log.add
  cases hfile : l.file with
  | none => exact ⟨_, rfl, .inl fun _ => rfl⟩
  | some f =>
    dsimp only
    split
    · exact ⟨_, rfl, .inl fun _ => rfl⟩
    · exact ⟨_, rfl, .inr ⟨f, _, rfl, fun _ => rfl⟩⟩

namespace System

variable {s : System} {way : Way}

/-- A message stays in the same file. -/
theorem way_logged (s : System) (level : Level) (part message : String) :
    (s.logged level part message).log.file.map (·.way) = s.log.file.map (·.way) := by
  obtain ⟨l', hway, hadd⟩ := s.log.exists_add_eq level part message
  change (s.log.add s.files level part message).1.file.map (·.way) = _
  rcases hadd with hadd | ⟨f, bytes, -, hadd⟩ <;> rw [hadd, hway]

/-- A message is written to the file of the log and nowhere else. -/
theorem entry?_logged_of_ne (h : s.log.file.map (·.way) ≠ some way) (level : Level)
    (part message : String) :
    FileTree.entry? (s.logged level part message).files way = s.files.entry? way := by
  obtain ⟨l', -, hadd⟩ := s.log.exists_add_eq level part message
  change FileTree.entry? (s.log.add s.files level part message).2 way = _
  rcases hadd with hadd | ⟨f, bytes, hfile, hadd⟩
  · rw [hadd]
  · rw [hadd]
    refine s.files.entry?_writeAt_of_ne ?_ _ _
    rintro rfl
    exact h (by rw [hfile, Option.map_some])

/-- A message makes no file. -/
theorem entry?_logged_of_none (h : s.files.entry? way = none) (level : Level)
    (part message : String) :
    FileTree.entry? (s.logged level part message).files way = none := by
  obtain ⟨l', -, hadd⟩ := s.log.exists_add_eq level part message
  change FileTree.entry? (s.log.add s.files level part message).2 way = none
  rcases hadd with hadd | ⟨f, bytes, -, hadd⟩
  · rw [hadd, h]
  · rw [hadd]
    exact FileTree.entry?_writeAt_of_none h _ _ _

/-- What a message does to the log does not depend on the files. -/
theorem log_logged_of_files (s : System) (t : FileTree) (level : Level) (part message : String) :
    ({ s with files := t }.logged level part message).log =
      (s.logged level part message).log := by
  obtain ⟨l', -, hadd⟩ := s.log.exists_add_eq level part message
  change (s.log.add t level part message).1 = (s.log.add s.files level part message).1
  rcases hadd with hadd | ⟨f, bytes, -, hadd⟩ <;> rw [hadd, hadd]

/-- What a message makes of an entry depends on what stood there. -/
theorem entry?_logged_of_files {t : FileTree} (h : t.entry? way = s.files.entry? way)
    (level : Level) (part message : String) :
    FileTree.entry? ({ s with files := t }.logged level part message).files way =
      FileTree.entry? (s.logged level part message).files way := by
  obtain ⟨l', -, hadd⟩ := s.log.exists_add_eq level part message
  change FileTree.entry? (s.log.add t level part message).2 way =
    FileTree.entry? (s.log.add s.files level part message).2 way
  rcases hadd with hadd | ⟨f, bytes, -, hadd⟩
  · rw [hadd, hadd, h]
  · rw [hadd, hadd]
    exact FileTree.entry?_writeAt_congr h _ _ _

end System

end DeclBundle
