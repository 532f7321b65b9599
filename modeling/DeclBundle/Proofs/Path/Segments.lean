import DeclBundle.Path.Basic
set_option autoImplicit false

/-!
# Segments of paths

Cutting a path at its slashes and joining segments with slashes undo each other, and both go with
appending.  A path in the form that most functions return is written down by `ofRoot`: some leading
slashes, and segments with one slash between neighbours.  What directories, joined paths and names
of files are is said for this form.
-/

namespace DeclBundle.Text

/-! ## Cutting and joining -/

/-- The pieces of two texts with a separator between them are the pieces of both. -/
theorem splitAtChar_append_sep (sep : Char) (cs ds : List Char) :
    splitAtChar sep (cs ++ sep :: ds) = splitAtChar sep cs ++ splitAtChar sep ds := by
  induction cs with
  | nil => simp [splitAtChar]
  | cons c cs ih =>
    by_cases hc : c = sep
    · simp [splitAtChar, hc, ih]
    · cases hs : splitAtChar sep cs with
      | nil => exact absurd hs (splitAtChar_ne_nil sep cs)
      | cons piece pieces => simp [splitAtChar, hc, ih, hs]

/-- A text without the separator is one piece. -/
theorem splitAtChar_of_not_mem {sep : Char} {cs : List Char} (h : sep ∉ cs) :
    splitAtChar sep cs = [cs] := by
  induction cs with
  | nil => rfl
  | cons c cs ih =>
    simp only [List.mem_cons, not_or] at h
    simp [splitAtChar, Ne.symm h.1, ih h.2]

/-- No piece holds the separator. -/
theorem not_mem_of_mem_splitAtChar {sep : Char} {cs piece : List Char}
    (h : piece ∈ splitAtChar sep cs) : sep ∉ piece := by
  induction cs generalizing piece with
  | nil =>
    have hpiece : piece = [] := by simpa [splitAtChar] using h
    simp [hpiece]
  | cons c cs ih =>
    by_cases hc : c = sep
    · simp only [splitAtChar, hc, if_true, List.mem_cons] at h
      rcases h with rfl | h
      · simp
      · exact ih h
    · cases hs : splitAtChar sep cs with
      | nil => exact absurd hs (splitAtChar_ne_nil sep cs)
      | cons first others =>
        simp only [splitAtChar, hc, if_false, hs, List.mem_cons] at h
        rcases h with rfl | h
        · have hfirst : sep ∉ first := ih (by simp [hs])
          simp [Ne.symm hc, hfirst]
        · exact ih (by simp [hs, h])

/-- A piece holds only characters of the text. -/
theorem mem_of_mem_splitAtChar {sep c : Char} {cs piece : List Char}
    (h : piece ∈ splitAtChar sep cs) (hc : c ∈ piece) : c ∈ cs := by
  induction cs generalizing piece with
  | nil =>
    have hpiece : piece = [] := by simpa [splitAtChar] using h
    simp [hpiece] at hc
  | cons d ds ih =>
    by_cases hd : d = sep
    · simp only [splitAtChar, hd, if_true, List.mem_cons] at h
      rcases h with rfl | h
      · simp at hc
      · exact List.mem_cons_of_mem d (ih h hc)
    · cases hs : splitAtChar sep ds with
      | nil => exact absurd hs (splitAtChar_ne_nil sep ds)
      | cons first others =>
        simp only [splitAtChar, hd, if_false, hs, List.mem_cons] at h
        rcases h with rfl | h
        · rcases List.mem_cons.1 hc with rfl | hc
          · simp
          · exact List.mem_cons_of_mem d (ih (by simp [hs]) hc)
        · exact List.mem_cons_of_mem d (ih (by simp [hs, h]) hc)

/-- Joining two lists of pieces puts one separator between the joined halves. -/
theorem joinWithChar_append (sep : Char) {xs ys : List (List Char)} (hx : xs ≠ []) (hy : ys ≠ []) :
    joinWithChar sep (xs ++ ys) = joinWithChar sep xs ++ sep :: joinWithChar sep ys := by
  induction xs with
  | nil => exact absurd rfl hx
  | cons x xs ih =>
    cases xs with
    | nil =>
      cases ys with
      | nil => exact absurd rfl hy
      | cons y ys => simp [joinWithChar]
    | cons x' xs =>
      have hrest := ih (by simp)
      simp only [List.cons_append] at hrest
      simp [joinWithChar, hrest]

/-- Cutting joined pieces gives the pieces back. -/
theorem splitAtChar_joinWithChar {sep : Char} {xs : List (List Char)} (hne : xs ≠ [])
    (h : ∀ x ∈ xs, sep ∉ x) : splitAtChar sep (joinWithChar sep xs) = xs := by
  induction xs with
  | nil => exact absurd rfl hne
  | cons x xs ih =>
    have hx : splitAtChar sep x = [x] := splitAtChar_of_not_mem (h x (by simp))
    cases xs with
    | nil => simpa [joinWithChar] using hx
    | cons y ys =>
      have hrest := ih (by simp) fun z hz => h z (by simp [hz])
      rw [joinWithChar, splitAtChar_append_sep, hx, hrest]
      · rfl
      · simp

end DeclBundle.Text

namespace DeclBundle.Path

open Text

/-! ## Segments -/

theorem segments_ne_nil (p : String) : segments p ≠ [] := by
  simp [segments, splitAtChar_ne_nil]

/-- The segments of two paths with a slash between them are the segments of both. -/
theorem segments_append_slash (p q : String) :
    segments (p ++ "/" ++ q) = segments p ++ segments q := by
  have hlist : (p ++ "/" ++ q).toList = p.toList ++ '/' :: q.toList := by simp
  rw [segments, hlist, splitAtChar_append_sep, List.map_append, segments, segments]

/-- No segment holds a slash. -/
theorem not_mem_of_mem_segments {p seg : String} (h : seg ∈ segments p) : '/' ∉ seg.toList := by
  obtain ⟨piece, hpiece, rfl⟩ := List.mem_map.1 h
  simpa using not_mem_of_mem_splitAtChar hpiece

/-- A segment holds only characters of the path. -/
theorem mem_of_mem_segments {c : Char} {p seg : String} (hseg : seg ∈ segments p)
    (hc : c ∈ seg.toList) : c ∈ p.toList := by
  obtain ⟨piece, hpiece, rfl⟩ := List.mem_map.1 hseg
  exact mem_of_mem_splitAtChar hpiece (by simpa using hc)

/-- Cutting joined segments gives the segments back. -/
theorem segments_ofSegments {segs : List String} (hne : segs ≠ [])
    (h : ∀ seg ∈ segs, '/' ∉ seg.toList) : segments (ofSegments segs) = segs := by
  rw [segments, ofSegments, String.toList_ofList, splitAtChar_joinWithChar]
  · simp [Function.comp_def]
  · simpa using hne
  · simpa using h

@[simp] theorem ofSegments_nil : ofSegments [] = "" := rfl

@[simp] theorem ofSegments_singleton (seg : String) : ofSegments [seg] = seg := by
  simp [ofSegments, joinWithChar]

theorem ofSegments_append {xs ys : List String} (hx : xs ≠ []) (hy : ys ≠ []) :
    ofSegments (xs ++ ys) = ofSegments xs ++ "/" ++ ofSegments ys := by
  apply String.toList_inj.1
  simp only [ofSegments, List.map_append, String.toList_ofList, String.toList_append]
  rw [joinWithChar_append]
  · simp
  · simpa using hx
  · simpa using hy

theorem ofSegments_cons (seg : String) {segs : List String} (h : segs ≠ []) :
    ofSegments (seg :: segs) = seg ++ "/" ++ ofSegments segs := by
  rw [← List.singleton_append, ofSegments_append (by simp) h, ofSegments_singleton]

/-! ## Ordinary segments -/

/-- Whether a segment names something below the directory that it is looked up in. -/
structure IsOrdinary (seg : String) : Prop where
  ne_empty : seg ≠ ""
  ne_dot : seg ≠ "."
  ne_dots : seg ≠ ".."
  no_slash : '/' ∉ seg.toList

instance (seg : String) : Decidable (IsOrdinary seg) :=
  decidable_of_iff (seg ≠ "" ∧ seg ≠ "." ∧ seg ≠ ".." ∧ '/' ∉ seg.toList)
    ⟨fun ⟨h₁, h₂, h₃, h₄⟩ => ⟨h₁, h₂, h₃, h₄⟩, fun h => ⟨h.1, h.2, h.3, h.4⟩⟩

/-- Whether a segment is a name that does not begin with a dot. -/
structure IsUndotted (seg : String) : Prop where
  ne_empty : seg ≠ ""
  no_dot : beginsWith seg "." = false
  no_slash : '/' ∉ seg.toList

instance (seg : String) : Decidable (IsUndotted seg) :=
  decidable_of_iff (seg ≠ "" ∧ beginsWith seg "." = false ∧ '/' ∉ seg.toList)
    ⟨fun ⟨h₁, h₂, h₃⟩ => ⟨h₁, h₂, h₃⟩, fun h => ⟨h.1, h.2, h.3⟩⟩

theorem IsUndotted.isOrdinary {seg : String} (h : IsUndotted seg) : IsOrdinary seg := by
  have hdot : ∀ dotted : String, beginsWith dotted "." = true → seg ≠ dotted := by
    rintro dotted hdotted rfl
    rw [h.no_dot] at hdotted
    cases hdotted
  exact ⟨h.ne_empty, hdot "." (by decide), hdot ".." (by decide), h.no_slash⟩

end DeclBundle.Path
