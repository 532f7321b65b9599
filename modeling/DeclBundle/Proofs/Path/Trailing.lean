import DeclBundle.Proofs.Path.Segments
set_option autoImplicit false

/-!
# Slashes at the end of a path

Some operations drop the slashes at the end of a path and others keep them.  For the segments that
are not empty they make no difference (`filter_segments_append`).
-/

namespace DeclBundle.Path

open Text

/-- A path without its trailing slashes. -/
def stripped (p : String) : String :=
  .ofList (stripEnd (· == '/') p.toList)

/-- Whether a text is made of slashes. -/
def IsSlashes (s : String) : Prop :=
  ∀ c ∈ s.toList, c = '/'

theorem isSlashes_slash : IsSlashes "/" := by
  simp [IsSlashes]

/-- A path is what is left without its trailing slashes, and these. -/
theorem exists_stripped_append (p : String) :
    ∃ slashes, p = stripped p ++ slashes ∧ IsSlashes slashes := by
  refine ⟨.ofList (p.toList.reverse.takeWhile (· == '/')).reverse, ?_, ?_⟩
  · apply String.toList_inj.1
    rw [stripped, String.toList_append, String.toList_ofList, String.toList_ofList, stripEnd,
      ← List.reverse_append, List.takeWhile_append_dropWhile, List.reverse_reverse]
  · intro c hc
    rw [String.toList_ofList, List.mem_reverse] at hc
    have hall := List.all_takeWhile (p := (· == '/')) (l := p.toList.reverse)
    rw [List.all_eq_true] at hall
    exact eq_of_beq (hall c hc)

/-- Slashes behind a path are stripped with its own. -/
theorem stripped_append (p : String) {slashes : String} (h : IsSlashes slashes) :
    stripped (p ++ slashes) = stripped p := by
  unfold stripped stripEnd
  rw [String.toList_append, List.reverse_append, List.dropWhile_append_of_pos]
  intro c hc
  rw [h c (List.mem_reverse.1 hc)]
  rfl

/-- A path that does not start with a slash keeps its beginning. -/
theorem toList_stripped_eq_cons {p : String} {c : Char} {cs : List Char} (h : p.toList = c :: cs)
    (hc : c ≠ '/') : ∃ ds, (stripped p).toList = c :: ds := by
  obtain ⟨slashes, hsplit, hslashes⟩ := exists_stripped_append p
  cases hstripped : (stripped p).toList with
  | nil =>
    rw [String.toList_eq_nil_iff.1 hstripped, String.empty_append] at hsplit
    exact absurd (hslashes c (by simp [← hsplit, h])) hc
  | cons d ds =>
    have hhead := congrArg String.toList hsplit
    rw [h, String.toList_append, hstripped] at hhead
    obtain ⟨rfl, -⟩ := List.cons.inj hhead
    exact ⟨ds, rfl⟩

/-- No slash is left at the end. -/
theorem finishesWith_stripped (p : String) : finishesWith (stripped p) "/" = false := by
  rw [Bool.eq_false_iff]
  intro hends
  obtain ⟨front, hfront⟩ := finishesWith_iff.1 hends
  have hleft : p.toList.reverse.dropWhile (· == '/') = '/' :: front.reverse := by
    have hreverse := congrArg List.reverse hfront
    simpa [stripped, stripEnd] using hreverse.symm
  have hhead := List.head?_dropWhile_not (· == '/') p.toList.reverse
  rw [hleft] at hhead
  simp at hhead

/-- What is joined to a path goes on behind one slash. -/
theorem exists_join_eq {a : String} (ha : a ≠ "") :
    ∃ front, (a = front ∨ a = front ++ "/") ∧
      ∀ b, isAbsolute b = false → join a b = front ++ ("/" ++ b) := by
  by_cases hends : finishesWith a "/" = true
  · obtain ⟨front, hfront⟩ := finishesWith_iff.1 hends
    have hsplit : a = .ofList front ++ "/" := by
      apply String.toList_inj.1
      simp [← hfront]
    refine ⟨.ofList front, .inr hsplit, fun b hb => ?_⟩
    rw [join, if_neg (by simp [hb]), if_pos (by simp [hends]), hsplit, String.append_assoc]
  · refine ⟨a, .inl rfl, fun b hb => ?_⟩
    rw [join, if_neg (by simp [hb]), if_neg (by simp [ha, hends]), String.append_assoc]

/-- Ordinary segments are not empty. -/
theorem filter_eq_self_of_isOrdinary {segs : List String} (h : ∀ seg ∈ segs, IsOrdinary seg) :
    segs.filter (· != "") = segs :=
  List.filter_eq_self.2 fun seg hseg => by simpa using (h seg hseg).ne_empty

/-- All segments of slashes are empty. -/
theorem filter_segments_eq_nil {slashes : String} (h : IsSlashes slashes) :
    (segments slashes).filter (· != "") = [] := by
  rw [List.filter_eq_nil_iff]
  intro seg hseg
  have hempty : seg.toList = [] := by
    apply List.eq_nil_iff_forall_not_mem.2
    intro c hc
    have hslash := h c (mem_of_mem_segments hseg hc)
    exact not_mem_of_mem_segments hseg (hslash ▸ hc)
  rw [String.toList_eq_nil_iff.1 hempty]
  decide

/-- Slashes behind a path add nothing but empty segments. -/
theorem filter_segments_append (p : String) {slashes : String} (h : IsSlashes slashes) :
    (segments (p ++ slashes)).filter (· != "") = (segments p).filter (· != "") := by
  cases hlist : slashes.toList with
  | nil => rw [String.toList_eq_nil_iff.1 hlist, String.append_empty]
  | cons c cs =>
    have hc := h c (by simp [hlist])
    have hsplit : slashes = "/" ++ .ofList cs := by
      apply String.toList_inj.1
      simp [hlist, hc]
    have hrest : IsSlashes (.ofList cs) := by
      intro d hd
      rw [String.toList_ofList] at hd
      exact h d (by simp [hlist, hd])
    rw [hsplit, ← String.append_assoc, segments_append_slash, List.filter_append,
      filter_segments_eq_nil hrest, List.append_nil]

end DeclBundle.Path
