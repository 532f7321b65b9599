import DeclBundle.Proofs.Declaration.StringLiteral
import DeclBundle.Proofs.ModuleId.Segments
import DeclBundle.Proofs.Path.Trailing
import Mathlib.Data.List.Forall2
set_option autoImplicit false

/-!
# Names with escapes

A relative name is resolved as it is written, escapes and all: the segments between its slashes are
walked along, and only empty ones and dots are looked at.  So if every segment stands for a segment
of the name that is meant, and none of them turns into dots or nothing, then what the written name
resolves to stands for what the meant one resolves to (`standsFor_resolve`).
-/

namespace DeclBundle.StringLiteral

open DeclBundle.Path
open Format Text

variable {a b a' b' : String} {cs ds : List Char} {u v : List Nat} {m last : Mode}

/-! ## What a text stands for -/

/-- Whether a text on one line stands for another one between single quotes. -/
def StandsFor (written meant : String) : Prop :=
  (∀ c ∈ written.toList, isLineBreak c = false) ∧
    ∃ last, scan '\'' .plain written.toList = some (units meant.toList, last) ∧ last.isOpen = true

theorem scan_append (hcs : scan '\'' m cs = some (u, last)) {last' : Mode}
    (hds : scan '\'' last ds = some (v, last')) : scan '\'' m (cs ++ ds) = some (u ++ v, last') := by
  induction cs generalizing m u with
  | nil =>
    cases hcs
    exact hds
  | cons c cs ih =>
    obtain ⟨hmark, u₁, m₁, v₁, hstep, hscan, rfl⟩ := scan_cons_eq_some_iff.1 hcs
    exact scan_cons_eq_some_iff.2 ⟨hmark, u₁, m₁, v₁ ++ v, hstep, ih hscan, by simp⟩

/-- A slash stands for itself where there is no escape. -/
theorem step_slash (hm : m.isOpen = true) : step m '/' = some ([47], .plain) := by
  cases m <;> first | rfl | cases hm

theorem standsFor_self (h : IsPlain a.toList) : StandsFor a a :=
  ⟨fun c hc => (isPlain_iff.1 (h c hc)).2.2, .plain, scan_of_isPlain h, rfl⟩

/-- Plain characters may come before. -/
theorem StandsFor.append_left {p : String} (hp : IsPlain p.toList) (h : StandsFor a b) :
    StandsFor (p ++ a) (p ++ b) := by
  obtain ⟨hline, last, hscan, hlast⟩ := h
  refine ⟨?_, last, ?_, hlast⟩
  · intro c hc
    rw [String.toList_append, List.mem_append] at hc
    exact hc.elim (fun hc => (isPlain_iff.1 (hp c hc)).2.2) (hline c)
  · rw [String.toList_append, String.toList_append, units_append]
    exact scan_append (scan_of_isPlain hp) hscan

theorem StandsFor.append_slash (h : StandsFor a b) (h' : StandsFor a' b') :
    StandsFor (a ++ "/" ++ a') (b ++ "/" ++ b') := by
  obtain ⟨hline, last, hscan, hlast⟩ := h
  obtain ⟨hline', last', hscan', hlast'⟩ := h'
  have hslash : scan '\'' last ('/' :: a'.toList) = some (47 :: units b'.toList, last') :=
    scan_cons_eq_some_iff.2 ⟨by simp, [47], .plain, _, step_slash hlast, hscan', rfl⟩
  refine ⟨?_, last', ?_, hlast'⟩
  · intro c hc
    simp only [String.toList_append, List.mem_append] at hc
    rcases hc with (hc | hc) | hc
    · exact hline c hc
    · rw [List.mem_singleton.1 hc]
      rfl
    · exact hline' c hc
  · have hboth := scan_append hscan hslash
    simpa [unitsOfPoint] using hboth

/-- A text that stands for another one on one line is read as it in any literal. -/
theorem StandsFor.readsAs {rest : List Char} (h : StandsFor a b) :
    ReadsAs ('\'' :: (a.toList ++ '\'' :: rest)) b := by
  obtain ⟨-, last, hscan, hlast⟩ := h
  have hquotable : IsQuotable a.toList := by simp [IsQuotable, hscan]
  exact (readsAs_iff_isQuotable hscan hlast).2 hquotable

/-! ## Segments -/

/-- Whether a segment stands for another one that a walk treats alike. -/
structure SegmentFor (written meant : String) : Prop where
  stands : StandsFor written meant
  empty : written = "" ↔ meant = ""
  dot : written = "." ↔ meant = "."
  dots : written = ".." ↔ meant = ".."

theorem segmentFor_self (h : IsPlain a.toList) : SegmentFor a a :=
  ⟨standsFor_self h, .rfl, .rfl, .rfl⟩

variable {as bs : List String}

theorem segmentFor_walkStep (rooted : Bool) (htrail : List.Forall₂ SegmentFor as bs)
    (h : SegmentFor a b) :
    List.Forall₂ SegmentFor (walkStep rooted as a) (walkStep rooted bs b) := by
  have hdots : SegmentFor ".." ".." := segmentFor_self (by decide)
  unfold walkStep
  simp only [h.empty, h.dot, h.dots]
  split
  · exact htrail
  split
  · cases htrail with
    | nil =>
      cases rooted with
      | true => exact .nil
      | false => exact .cons hdots .nil
    | cons hlast hrest =>
      rename_i x y xs ys
      by_cases hy : y = ".."
      · have hx : x = ".." := hlast.dots.2 hy
        subst hx hy
        exact .cons hdots (.cons hlast hrest)
      · have hx : x ≠ ".." := fun heq => hy (hlast.dots.1 heq)
        simpa [hx, hy] using hrest
  · exact .cons h htrail

/-- Walks along segments that stand for others go alike. -/
theorem segmentFor_walk (rooted : Bool) (h : List.Forall₂ SegmentFor as bs) :
    List.Forall₂ SegmentFor (walk rooted as) (walk rooted bs) := by
  have hfold : ∀ {trail trail' : List String}, List.Forall₂ SegmentFor trail trail' →
      List.Forall₂ SegmentFor (as.foldl (walkStep rooted) trail)
        (bs.foldl (walkStep rooted) trail') := by
    induction h with
    | nil => exact fun htrail => htrail
    | cons hseg _ ih => exact fun htrail => ih (segmentFor_walkStep rooted htrail hseg)
  exact List.rel_reverse (hfold .nil)

theorem standsFor_ofSegments (h : List.Forall₂ SegmentFor as bs) :
    StandsFor (ofSegments as) (ofSegments bs) ∧ (ofSegments as = "" ↔ ofSegments bs = "") := by
  induction h with
  | nil => exact ⟨standsFor_self (by decide), .rfl⟩
  | cons hseg hrest ih =>
    rename_i a b as bs
    cases hrest with
    | nil => simpa using ⟨hseg.stands, hseg.empty⟩
    | cons =>
      have hne : ∀ s t : String, s ++ "/" ++ t ≠ "" := by
        intro s t hempty
        have hlist := congrArg String.toList hempty
        simp at hlist
      rw [ofSegments_cons a (List.cons_ne_nil _ _), ofSegments_cons b (List.cons_ne_nil _ _)]
      exact ⟨hseg.stands.append_slash ih.1, iff_of_false (hne _ _) (hne _ _)⟩

/-- What a path resolves to stands for what the path resolves to that is meant. -/
theorem standsFor_normalize (hslashes : leadingSlashes a = leadingSlashes b)
    (h : List.Forall₂ SegmentFor (segments a) (segments b)) :
    StandsFor (Path.normalize a) (Path.normalize b) := by
  obtain ⟨hbody, hempty⟩ := standsFor_ofSegments (segmentFor_walk (leadingSlashes b != 0) h)
  generalize hroot : String.ofList (List.replicate (leadingSlashes b) '/') = root
  have hplain : IsPlain root.toList := by
    intro c hc
    rw [← hroot, String.toList_ofList] at hc
    rw [List.eq_of_mem_replicate hc]
    rfl
  unfold Path.normalize
  simp only [hslashes, hroot, String.append_eq_empty_iff, hempty]
  split
  · exact standsFor_self (by decide)
  · exact hbody.append_left hplain

/-! ## Resolving -/

/-- A relative name adds no slashes to those that lead a path. -/
theorem leadingSlashes_append (p : String) (ha : ModuleId.isRelative a = true)
    (hb : ModuleId.isRelative b = true) : leadingSlashes (p ++ a) = leadingSlashes (p ++ b) := by
  obtain ⟨as, has⟩ := beginsWith_iff.1 ha
  obtain ⟨bs, hbs⟩ := beginsWith_iff.1 hb
  have ha' : a.toList = '.' :: as := has.symm
  have hb' : b.toList = '.' :: bs := hbs.symm
  rw [leadingSlashes, leadingSlashes, String.toList_append, String.toList_append, ha', hb']
  -- a dot stands among the first three characters if the path does not have as many
  rcases p.toList with _ | ⟨c, _ | ⟨d, _ | ⟨e, cs⟩⟩⟩
  · rfl
  · by_cases hc : c = '/' <;> simp [hc]
  · by_cases hc : c = '/' <;> by_cases hd : d = '/' <;> simp [hc, hd]
  · by_cases hc : c = '/' <;> by_cases hd : d = '/' <;> by_cases he : e = '/' <;> simp [hc, hd, he]

/-- The directory of a path holds only characters of the path. -/
theorem mem_of_mem_directory {c : Char} {p : String} (h : c ∈ (directory p).toList) :
    c ∈ p.toList := by
  have hmem : c ∈ (splitLast p).1.toList := by
    rw [directory, dropTrailingSlashes] at h
    split at h
    · exact h
    · rw [String.toList_ofList, stripEnd, List.mem_reverse] at h
      exact List.mem_reverse.1 ((List.dropWhile_sublist _).mem h)
  rw [splitLast, String.toList_ofList] at hmem
  exact List.mem_of_mem_take hmem

/-- What a relative name resolves to stands for what the name resolves to that is meant. -/
theorem standsFor_resolve {id : String} (hid : IsPlain id.toList)
    (ha : ModuleId.isRelative a = true) (hb : ModuleId.isRelative b = true)
    (h : List.Forall₂ SegmentFor (segments a) (segments b)) :
    StandsFor (ModuleId.resolve id a) (ModuleId.resolve id b) := by
  rw [ModuleId.resolve, if_pos ha, ModuleId.resolve, if_pos hb]
  have ha' := ModuleId.isAbsolute_of_isRelative ha
  have hb' := ModuleId.isAbsolute_of_isRelative hb
  by_cases hempty : directory id = ""
  · have hjoin : ∀ x, isAbsolute x = false → join (directory id) x = x := by
      intro x hx
      simp [join, hx, hempty]
    rw [hjoin a ha', hjoin b hb']
    exact standsFor_normalize (by simpa using leadingSlashes_append "" ha hb) h
  · obtain ⟨front, hfront, hjoin⟩ := exists_join_eq hempty
    rw [hjoin a ha', hjoin b hb', ← String.append_assoc, ← String.append_assoc]
    refine standsFor_normalize (leadingSlashes_append (front ++ "/") ha hb) ?_
    rw [segments_append_slash, segments_append_slash]
    refine List.rel_append ?_ h
    have hplain : ∀ seg ∈ segments front, IsPlain seg.toList := by
      intro seg hseg c hc
      refine hid c (mem_of_mem_directory ?_)
      have hmem := mem_of_mem_segments hseg hc
      rcases hfront with heq | heq <;> simp [heq, hmem]
    exact List.forall₂_same.2 fun seg hseg => segmentFor_self (hplain seg hseg)

end DeclBundle.StringLiteral
