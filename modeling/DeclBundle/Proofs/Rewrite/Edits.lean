import DeclBundle.Proofs.Rewrite.Splice
set_option autoImplicit false

/-!
# Edits of a source

An edit puts a text in the place of a part of the source.  Edits that are in order and apart from
each other are made one after the other, and what lies between them is kept.
-/

namespace DeclBundle.Rewrite

open Utf8

variable {κ : Type}

/-! ## Edits -/

/-- A part of a source, and the text that takes its place. -/
structure Edit where
  span : Span
  text : String
  deriving DecidableEq, Repr

/-- Whether edits lie between two offsets, in order and apart from each other. -/
def InOrder (start stop : Nat) : List Edit → Prop
  | [] => start ≤ stop
  | e :: es => start ≤ e.span.start ∧ e.span.start ≤ e.span.stop ∧ InOrder e.span.stop stop es

/-- The bytes of a source from `start` up to `stop` after edits that lie there. -/
def edited (source : List UInt8) (start stop : Nat) : List Edit → List UInt8
  | [] => stretch source start stop
  | e :: es =>
    stretch source start e.span.start ++ encode e.text.toList ++ edited source e.span.stop stop es

theorem InOrder.start_le_stop {start stop : Nat} {es : List Edit} (h : InOrder start stop es) :
    start ≤ stop := by
  induction es generalizing start with
  | nil => exact h
  | cons e es ih =>
    obtain ⟨hstart, hspan, hes⟩ := h
    have hrest := ih hes
    omega

/-- Edits that are in order behind an offset are so behind an earlier one. -/
theorem InOrder.of_le {start mid stop : Nat} {es : List Edit} (h : InOrder mid stop es)
    (hle : start ≤ mid) : InOrder start stop es := by
  cases es with
  | nil => exact Nat.le_trans hle h
  | cons e es => exact ⟨Nat.le_trans hle h.1, h.2⟩

theorem InOrder.append {start mid stop : Nat} {es fs : List Edit} (hes : InOrder start mid es)
    (hfs : InOrder mid stop fs) : InOrder start stop (es ++ fs) := by
  induction es generalizing start with
  | nil => exact hfs.of_le hes
  | cons e es ih =>
    obtain ⟨hstart, hspan, hrest⟩ := hes
    exact ⟨hstart, hspan, ih hrest⟩

/-- What comes before the first edit may be copied in two parts. -/
theorem stretch_append_edited (source : List UInt8) {start mid stop : Nat} {es : List Edit}
    (hle : start ≤ mid) (hes : InOrder mid stop es) :
    stretch source start mid ++ edited source mid stop es = edited source start stop es := by
  cases es with
  | nil => exact stretch_append source hle hes
  | cons e es =>
    simp only [edited, ← List.append_assoc]
    rw [stretch_append source hle hes.1]

/-- Edits of neighbouring parts join. -/
theorem edited_append (source : List UInt8) {start mid stop : Nat} {es fs : List Edit}
    (hes : InOrder start mid es) (hfs : InOrder mid stop fs) :
    edited source start stop (es ++ fs) =
      edited source start mid es ++ edited source mid stop fs := by
  induction es generalizing start with
  | nil => exact (stretch_append_edited source hes hfs).symm
  | cons e es ih =>
    obtain ⟨hstart, hspan, hrest⟩ := hes
    simp only [List.cons_append, edited, ih hrest, List.append_assoc]

/-! ## Rules that agree -/

mutual

/-- Walks with rules that agree on all trees that are no higher are the same. -/
theorem visit_congr {source : List UInt8} {rule other : Rule κ} :
    ∀ (t : Tree κ) (p : Progress κ), (∀ m : Tree κ, m.height ≤ t.height → rule m = other m) →
      visit source rule t p = visit source other t p
  | .node l s cs, p, h => by
    have hself := h (.node l s cs) (Nat.le_refl _)
    have hchildren : ∀ q : Progress κ, visitAll source rule cs q = visitAll source other cs q :=
      fun q => visitAll_congr cs q fun m hm => h m (by simp only [Tree.height]; omega)
    simp only [visit, hself, hchildren]

theorem visitAll_congr {source : List UInt8} {rule other : Rule κ} :
    ∀ (ts : List (Tree κ)) (p : Progress κ),
      (∀ m : Tree κ, m.height ≤ Tree.heightAll ts → rule m = other m) →
      visitAll source rule ts p = visitAll source other ts p
  | [], _, _ => rfl
  | t :: ts, p, h => by
    have ht : ∀ q : Progress κ, visit source rule t q = visit source other t q :=
      fun q => visit_congr t q fun m hm => h m (by simp only [Tree.heightAll]; omega)
    have hts : ∀ q : Progress κ, visitAll source rule ts q = visitAll source other ts q :=
      fun q => visitAll_congr ts q fun m hm => h m (by simp only [Tree.heightAll]; omega)
    simp only [visitAll, ht, hts]

end

/-- Rules that agree on all trees that are no higher rewrite siblings to the same text. -/
theorem siblings_congr {source : List UInt8} {rule other : Rule κ} {ts : List (Tree κ)}
    (h : ∀ m : Tree κ, m.height ≤ Tree.heightAll ts → rule m = other m) :
    siblings source ts rule = siblings source ts other := by
  have hvisits : ∀ p : Progress κ, visitAll source rule ts p = visitAll source other ts p :=
    fun p => visitAll_congr ts p h
  simp only [siblings, siblingsProgress, between, hvisits]

/-! ## Siblings -/

/-- Rewriting siblings that fit a text gives what becomes of them and of what stands between them,
from the beginning of the first to the end of the last. -/
theorem siblings_eq_spliced {cs : List Char} {rule : Rule κ} {answer : Tree κ → Option String}
    {first last : Tree κ} {ts : List (Tree κ)}
    (hfits : Tree.FitAll cs first.start last.stop (first :: ts))
    (hlast : (first :: ts).getLast? = some last)
    (hrule : ∀ n ∈ uncoveredAll answer (first :: ts), rule n = .ok (answer n)) :
    ∃ text, siblings (encode cs) (first :: ts) rule = .ok text ∧
      encode text.toList = splicedAll (encode cs) answer first.start last.stop (first :: ts) := by
  have hfirst : first.Fits cs := hfits.of_mem (by simp)
  have hend : last.Fits cs := hfits.of_mem (List.mem_of_getLast? hlast)
  obtain ⟨q, hq, hwritten, -⟩ :=
    between_advances hfits hrule hfirst.isBoundary_start hend.isBoundary_stop
  refine ⟨.ofList q.written, ?_, by simpa using hwritten⟩
  simp only [siblings, siblingsProgress, List.head?_cons, hlast, hq, result]

end DeclBundle.Rewrite
