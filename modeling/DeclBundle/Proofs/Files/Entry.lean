import DeclBundle.Files.Tree
set_option autoImplicit false

/-!
# Putting entries into a tree

Putting an entry somewhere says what stands there afterwards and nothing about any other place, and
removing one leaves nothing there and below.  So a directory that is made where nothing stood is all
that is new (`FileTree.Grown`), and however far the making of directories gets, no file is touched by
it (`FileTree.grown_made`).
-/

namespace DeclBundle.Files.FileTree

variable {t t' : FileTree} {way last : Way}

/-! ## What stands where -/

/-- The entry with another one in its place, if it stands at the end of a way. -/
def replaced (way : Way) (e : Entry) (entry : Way × Entry) : Way × Entry :=
  if entry.1 == way then (entry.1, e) else entry

@[simp] theorem replaced_fst (way : Way) (e : Entry) (entry : Way × Entry) :
    (replaced way e entry).1 = entry.1 := by
  unfold replaced
  split <;> rfl

/-- Putting an entry where something stands puts it in the place of that. -/
theorem entries_put_of_any (h : t.entries.any (·.1 == way) = true) (e : Entry) :
    (t.put way e).entries = t.entries.map (replaced way e) := by
  rw [put, if_pos h]
  rfl

theorem entry?_nil (t : FileTree) : t.entry? [] = some .directory :=
  if_pos rfl

theorem entry?_put_self (t : FileTree) (hway : way ≠ []) (e : Entry) :
    FileTree.entry? (t.put way e) way = some e := by
  rw [ entry?, if_neg hway]
  by_cases hany : t.entries.any (·.1 == way) = true
  · obtain ⟨entry, hentry, hkey⟩ := List.any_eq_true.1 hany
    rw [entries_put_of_any hany, List.find?_map]
    simp only [Function.comp_def, replaced_fst]
    cases hfound : t.entries.find? (·.1 == way) with
    | none => exact absurd hkey (List.find?_eq_none.1 hfound entry hentry)
    | some found =>
      have hway : found.1 = way := by simpa using List.find?_some hfound
      simp [replaced, hway]
  · have hnone : t.entries.find? (·.1 == way) = none := by
      rw [List.find?_eq_none]
      intro entry hentry hkey
      exact hany (List.any_eq_true.2 ⟨entry, hentry, hkey⟩)
    rw [put, if_neg hany, List.find?_append, hnone]
    simp

theorem entry?_put_of_ne (t : FileTree) (h : last ≠ way) (e : Entry) :
    FileTree.entry? (t.put way e) last = t.entry? last := by
  unfold entry?
  split
  · rfl
  · by_cases hany : t.entries.any (·.1 == way) = true
    · rw [entries_put_of_any hany, List.find?_map]
      simp only [Function.comp_def, replaced_fst]
      cases hfound : t.entries.find? (·.1 == last) with
      | none => rfl
      | some found =>
        have hkey : found.1 = last := by simpa using List.find?_some hfound
        simp [replaced, hkey, h]
    · have hother : ([(way, e)] : List (Way × Entry)).find? (·.1 == last) = none := by
        simpa using Ne.symm h
      rw [put, if_neg hany, List.find?_append, hother, Option.or_none]

/-! ## Writing to a file -/

theorem entry?_writeAt_of_ne (t : FileTree) {way last : Way} (h : last ≠ way) (offset : Nat)
    (bytes : List UInt8) : FileTree.entry? (t.writeAt way offset bytes) last = t.entry? last := by
  unfold writeAt
  split
  · rename_i content hcontent
    exact t.entry?_put_of_ne h _
  · rfl

/-- Writing makes no file. -/
theorem entry?_writeAt_of_none (h : t.entry? last = none) (way : Way) (offset : Nat)
    (bytes : List UInt8) : FileTree.entry? (t.writeAt way offset bytes) last = none := by
  by_cases hlast : last = way
  · subst hlast
    unfold writeAt
    rw [h]
    exact h
  · rw [t.entry?_writeAt_of_ne hlast, h]

/-- What writing makes of an entry depends on what stood there. -/
theorem entry?_writeAt_congr (h : t'.entry? last = t.entry? last) (way : Way) (offset : Nat)
    (bytes : List UInt8) :
    FileTree.entry? (t'.writeAt way offset bytes) last =
      FileTree.entry? (t.writeAt way offset bytes) last := by
  by_cases hlast : last = way
  · subst hlast
    unfold writeAt
    rw [h]
    split
    · rename_i content hcontent
      have hne : last ≠ [] := by
        rintro rfl
        simp [t.entry?_nil] at hcontent
      rw [t'.entry?_put_self hne, t.entry?_put_self hne]
    · exact h
  · rw [t'.entry?_writeAt_of_ne hlast, t.entry?_writeAt_of_ne hlast, h]

/-! ## Removing -/

/-- Removing an entry leaves nothing there and below. -/
theorem entry?_remove_of_isPrefix (t : FileTree) (h : way <+: last) (hlast : last ≠ []) :
    FileTree.entry? (t.remove way) last = none := by
  rw [ entry?, if_neg hlast, remove, List.find?_filter]
  simp only [Option.map_eq_none_iff, List.find?_eq_none]
  rintro ⟨other, e⟩ -
  by_cases hother : other = last
  · simp [hother, h]
  · simp [hother]

/-- Removing an entry leaves everything elsewhere. -/
theorem entry?_remove_of_not_isPrefix (t : FileTree) (h : ¬ way <+: last) :
    FileTree.entry? (t.remove way) last = t.entry? last := by
  have hnot : way.isPrefixOf last = false := by
    rwa [← Bool.not_eq_true, List.isPrefixOf_iff_prefix]
  have hkept : (fun entry : Way × Entry =>
      decide ((!way.isPrefixOf entry.1) = true ∧ (entry.1 == last) = true)) =
      fun entry => entry.1 == last := by
    funext entry
    by_cases hentry : entry.1 = last
    · simp [hentry, hnot]
    · simp [hentry]
  unfold entry? remove
  simp only [List.find?_filter, hkept]

/-! ## Trees that have gained directories -/

/-- Whether a tree has what another one has, and beyond that only directories. -/
def Grown (t t' : FileTree) : Prop :=
  ∀ way, t'.entry? way = t.entry? way ∨ (t.entry? way = none ∧ t'.entry? way = some .directory)

theorem Grown.refl (t : FileTree) : Grown t t :=
  fun _ => .inl rfl

theorem Grown.trans {t'' : FileTree} (h : Grown t t') (h' : Grown t' t'') : Grown t t'' := by
  intro way
  rcases h' way with hsame' | ⟨hnone', hnew'⟩
  · rw [hsame']
    exact h way
  · rcases h way with hsame | ⟨-, hnew⟩
    · exact .inr ⟨hsame ▸ hnone', hnew'⟩
    · rw [hnone'] at hnew
      cases hnew

/-- A tree that has gained directories has the same files. -/
theorem Grown.file_iff (h : Grown t t') (way : Way) (content : List UInt8) :
    t'.entry? way = some (.file content) ↔ t.entry? way = some (.file content) := by
  rcases h way with hsame | ⟨hnone, hnew⟩
  · rw [hsame]
  · simp [hnone, hnew]

/-! ## Making directories -/

variable {place : Place} {path : String}

theorem grown_put_directory (hnone : t.entry? way = none) : Grown t (t.put way .directory) := by
  intro last
  by_cases hlast : last = way
  · subst hlast
    have hne : last ≠ [] := by
      rintro rfl
      simp [t.entry?_nil] at hnone
    exact .inr ⟨hnone, t.entry?_put_self hne _⟩
  · exact .inl (t.entry?_put_of_ne hlast _)

theorem grown_of_makeOne (h : t.makeOne place path = .ok t') : Grown t t' := by
  simp only [makeOne, bind, Except.bind] at h
  split at h
  · cases h
  · split at h
    · cases h
    · rename_i hnone
      obtain rfl := Except.ok.inj h
      exact grown_put_directory hnone

theorem grown_makeLast (t : FileTree) (place : Place) (path : String) :
    Grown t (t.makeLast place path).2 := by
  unfold makeLast
  split
  · rename_i made hmade
    exact grown_of_makeOne hmade
  · split <;> exact .refl t

/-- However far the making of a directory and of those above it gets, only directories are new. -/
theorem grown_makeUpTo (t : FileTree) (place : Place) (n : Nat) (l : Location) :
    Grown t (t.makeUpTo place n l).2 := by
  induction n generalizing l with
  | zero => exact t.grown_makeLast place l.path
  | succ n ih =>
    unfold makeUpTo
    split
    · split
      · exact .refl t
      · have habove := ih l.parent
        generalize t.makeUpTo place n l.parent = result at habove ⊢
        rcases result with ⟨_ | _, above⟩
        · exact habove
        · exact habove.trans (above.grown_makeLast place l.path)
    · exact t.grown_makeLast place l.path

/-- An attempt to make a directory touches no file, even if it fails halfway. -/
theorem grown_made (t : FileTree) (place : Place) (l : Location) : Grown t (t.made place l) :=
  t.grown_makeUpTo place _ l

end DeclBundle.Files.FileTree
