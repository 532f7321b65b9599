import DeclBundle.Proofs.Text.Boundary
import DeclBundle.Rewrite
set_option autoImplicit false

/-!
# Rewriting is splicing

The walk of the rewriter is lazy: it carries one cursor through all trees and copies the source
only when a later tree or the end is reached.  Splicing says without a cursor what comes out: what
a tree becomes is the text that stands for it, or else the source between its children with what
each child becomes in its place.

For trees that fit the source the two agree.  What one tree adds is `visit_advances`, whose
invariant speaks of the bytes that have been written once the copying has caught up; what is said
of the whole source follows, and also which trees the rule is asked about.
-/

namespace DeclBundle

namespace Tree

variable {κ : Type}

mutual

/-- The trees inside a tree and itself, each before those inside it, with the trees around it from
inside to outside.  Around the whole tree stand the given ones. -/
def nodesWithin (around : List (Tree κ)) : Tree κ → List (Tree κ × List (Tree κ))
  | .node l s cs => (.node l s cs, around) :: nodesWithinAll (.node l s cs :: around) cs

/-- The same for several trees. -/
def nodesWithinAll (around : List (Tree κ)) : List (Tree κ) → List (Tree κ × List (Tree κ))
  | [] => []
  | t :: ts => nodesWithin around t ++ nodesWithinAll around ts

end

/-- The trees inside a tree and itself in pre-order, with the trees around each. -/
def nodes (t : Tree κ) : List (Tree κ × List (Tree κ)) :=
  nodesWithin [] t

mutual

/-- Whether the spans of a tree and of the trees inside it lie on the boundaries of a text, and the
children of each lie in it, in order and apart from each other. -/
def Fits (cs : List Char) : Tree κ → Prop
  | .node _ s ts =>
    Utf8.IsBoundary cs s.start ∧ Utf8.IsBoundary cs s.stop ∧ FitAll cs s.start s.stop ts

/-- The same for trees that lie between two offsets. -/
def FitAll (cs : List Char) (start stop : Nat) : List (Tree κ) → Prop
  | [] => start ≤ stop
  | t :: ts => start ≤ t.start ∧ Fits cs t ∧ FitAll cs t.stop stop ts

end

theorem fitAll_cons {cs : List Char} {start stop : Nat} {t : Tree κ} {ts : List (Tree κ)} :
    FitAll cs start stop (t :: ts) ↔
      start ≤ t.start ∧ t.Fits cs ∧ FitAll cs t.stop stop ts := by
  rw [FitAll]

mutual

/-- A tree that fits a text does not end before it begins. -/
theorem Fits.start_le_stop {cs : List Char} : ∀ {t : Tree κ}, Fits cs t → t.start ≤ t.stop
  | .node _ _ _, h => FitAll.start_le_stop (by simpa [Fits] using h.2.2)

theorem FitAll.start_le_stop {cs : List Char} :
    ∀ {ts : List (Tree κ)} {start stop : Nat}, FitAll cs start stop ts → start ≤ stop
  | [], _, _, h => by simpa [FitAll] using h
  | t :: ts, start, stop, h => by
    obtain ⟨hstart, ht, hts⟩ := fitAll_cons.1 h
    have hle := Fits.start_le_stop ht
    have hrest := FitAll.start_le_stop hts
    omega

end

theorem Fits.isBoundary_start {cs : List Char} {t : Tree κ} (h : t.Fits cs) :
    Utf8.IsBoundary cs t.start := by
  cases t with
  | node l s ts => exact (by simpa [Fits] using h : _ ∧ _ ∧ _).1

theorem Fits.isBoundary_stop {cs : List Char} {t : Tree κ} (h : t.Fits cs) :
    Utf8.IsBoundary cs t.stop := by
  cases t with
  | node l s ts => exact (by simpa [Fits] using h : _ ∧ _ ∧ _).2.1

/-- The children of a tree that fits a text lie in it. -/
theorem Fits.children {cs : List Char} {t : Tree κ} (h : t.Fits cs) :
    FitAll cs t.start t.stop t.children := by
  cases t with
  | node l s ts => exact (by simpa [Fits] using h : _ ∧ _ ∧ _).2.2

/-- Each of several trees that fit a text fits it. -/
theorem FitAll.of_mem {cs : List Char} {ts : List (Tree κ)} {start stop : Nat}
    (h : FitAll cs start stop ts) {t : Tree κ} (ht : t ∈ ts) : t.Fits cs := by
  induction ts generalizing start with
  | nil => cases ht
  | cons u us ih =>
    obtain ⟨-, hu, hus⟩ := fitAll_cons.1 h
    rcases List.mem_cons.1 ht with rfl | ht
    · exact hu
    · exact ih hus ht

theorem Fits.of_mem_children {cs : List Char} {t u : Tree κ} (h : t.Fits cs) (hu : u ∈ t.children) :
    u.Fits cs :=
  h.children.of_mem hu

end Tree

namespace Rewrite

open Utf8

variable {κ : Type}

/-! ## Splicing -/

/-- The rule that gives each tree an answer. -/
def answering (answer : Tree κ → Option String) : Rule κ :=
  fun t => .ok (answer t)

mutual

/-- What a tree becomes, in bytes. -/
def spliced (source : List UInt8) (answer : Tree κ → Option String) : Tree κ → List UInt8
  | .node l s cs =>
    match answer (.node l s cs) with
    | some text => encode text.toList
    | none => splicedAll source answer s.start s.stop cs

/-- What the source from `start` up to `stop` becomes, of which the given trees lie there. -/
def splicedAll (source : List UInt8) (answer : Tree κ → Option String) (start stop : Nat) :
    List (Tree κ) → List UInt8
  | [] => stretch source start stop
  | t :: ts =>
    stretch source start t.start ++ spliced source answer t ++
      splicedAll source answer t.stop stop ts

end

mutual

/-- The trees that stand inside no tree with a text of its own, each before those inside it. -/
def uncovered (answer : Tree κ → Option String) : Tree κ → List (Tree κ)
  | .node l s cs =>
    .node l s cs ::
      match answer (.node l s cs) with
      | some _ => []
      | none => uncoveredAll answer cs

/-- The same for several trees. -/
def uncoveredAll (answer : Tree κ → Option String) : List (Tree κ) → List (Tree κ)
  | [] => []
  | t :: ts => uncovered answer t ++ uncoveredAll answer ts

end

mutual

/-- The trees around which no tree with a text of its own stands are the uncovered ones. -/
theorem filter_nodesWithin (answer : Tree κ → Option String) :
    ∀ (t : Tree κ) (around : List (Tree κ)),
      ((t.nodesWithin around).filter fun n => n.2.all fun a => (answer a).isNone).map (·.1) =
        if around.all fun a => (answer a).isNone then uncovered answer t else []
  | .node l s ts, around => by
    have hts := filter_nodesWithinAll answer ts (.node l s ts :: around)
    simp only [Tree.nodesWithin, List.filter_cons, uncovered]
    cases hall : around.all fun a => (answer a).isNone with
    | false => simpa [hall] using hts
    | true =>
      cases hanswer : answer (.node l s ts) <;> simpa [hall, hanswer] using hts

theorem filter_nodesWithinAll (answer : Tree κ → Option String) :
    ∀ (ts : List (Tree κ)) (around : List (Tree κ)),
      ((Tree.nodesWithinAll around ts).filter fun n =>
          n.2.all fun a => (answer a).isNone).map (·.1) =
        if around.all fun a => (answer a).isNone then uncoveredAll answer ts else []
  | [], around => by simp [Tree.nodesWithinAll, uncoveredAll]
  | t :: ts, around => by
    have ht := filter_nodesWithin answer t around
    have hts := filter_nodesWithinAll answer ts around
    rw [Tree.nodesWithinAll, List.filter_append, List.map_append, ht, hts]
    split
    · rw [uncoveredAll]
    · rfl

end

/-- The uncovered trees are those around which no tree with a text of its own stands. -/
theorem uncovered_eq_filter_nodes (answer : Tree κ → Option String) (t : Tree κ) :
    uncovered answer t =
      (t.nodes.filter fun n => n.2.all fun a => (answer a).isNone).map (·.1) := by
  rw [Tree.nodes, filter_nodesWithin]
  simp

/-! ## The walk -/

/-- What has been written once the source has been copied up to an offset. -/
def Progress.upTo (source : List UInt8) (p : Progress κ) (pos : Nat) : List UInt8 :=
  encode p.written ++ stretch source p.cursor pos

/-- Whether a walk has come to `q` from `p` over the part of the source from `start` up to `stop`,
adding the given bytes and asking about the given trees. -/
structure Advances (cs : List Char) (p q : Progress κ) (start stop : Nat) (bytes : List UInt8)
    (trees : List (Tree κ)) : Prop where
  boundary : IsBoundary cs q.cursor
  cursor_le : q.cursor ≤ stop
  upTo_eq : q.upTo (encode cs) stop = p.upTo (encode cs) start ++ bytes
  asked_eq : q.asked = p.asked ++ trees

/-- Copying up to a boundary loses nothing that is copied later. -/
theorem copyTo_advances {cs : List Char} {p : Progress κ} {start pos : Nat}
    (hcursor : IsBoundary cs p.cursor) (hle : p.cursor ≤ start) (hpos : IsBoundary cs pos)
    (hstart : start ≤ pos) :
    ∃ q, copyTo (encode cs) pos p = .ok q ∧ q.cursor = pos ∧
      Advances cs p q start pos (stretch (encode cs) start pos) [] := by
  have hupTo : p.upTo (encode cs) start ++ stretch (encode cs) start pos =
      p.upTo (encode cs) pos := by
    rw [Progress.upTo, List.append_assoc, stretch_append _ hle hstart, Progress.upTo]
  rcases Nat.lt_or_ge p.cursor pos with hlt | hge
  · obtain ⟨text, hdecode, hencode⟩ := decode_stretch hcursor hpos
    refine ⟨⟨pos, p.written ++ text, p.asked⟩, ?_, rfl, hpos, Nat.le_refl _, ?_, by simp⟩
    · have hslice : slice (encode cs) p.cursor pos = .ok text := hdecode
      simp only [copyTo, hlt, if_true, hslice]
    · rw [hupTo]
      simp [Progress.upTo, hencode]
  · refine ⟨p, ?_, by omega, hcursor, by omega, hupTo.symm, by simp⟩
    simp [copyTo, Nat.not_lt.2 hge]

/-- Asking about a tree moves nothing. -/
theorem Advances.ask {cs : List Char} {p q : Progress κ} {start stop : Nat} {bytes : List UInt8}
    {trees : List (Tree κ)} (h : Advances cs p q start stop bytes trees) (t : Tree κ) :
    Advances cs p { q with asked := q.asked ++ [t] } start stop bytes (trees ++ [t]) where
  boundary := h.boundary
  cursor_le := h.cursor_le
  upTo_eq := h.upTo_eq
  asked_eq := by simp [h.asked_eq]

/-- Passing over a part of the source, at whose beginning the cursor stands, writes what stands for
it. -/
theorem advances_replace {cs : List Char} {p : Progress κ} {start stop : Nat} (text : List Char)
    (hat : p.cursor = start) (hle : start ≤ stop) (hstop : IsBoundary cs stop) :
    Advances cs p { p with cursor := max p.cursor stop, written := p.written ++ text }
      start stop (encode text) [] where
  boundary := by simpa [hat, Nat.max_eq_right hle] using hstop
  cursor_le := by simp [hat, hle]
  upTo_eq := by simp [Progress.upTo, hat, Nat.max_eq_right hle]
  asked_eq := by simp

/-- Steps of a walk over neighbouring parts of the source join. -/
theorem Advances.trans {cs : List Char} {p q r : Progress κ} {start mid stop : Nat}
    {bytes more : List UInt8} {trees others : List (Tree κ)}
    (h₁ : Advances cs p q start mid bytes trees) (h₂ : Advances cs q r mid stop more others) :
    Advances cs p r start stop (bytes ++ more) (trees ++ others) where
  boundary := h₂.boundary
  cursor_le := h₂.cursor_le
  upTo_eq := by rw [h₂.upTo_eq, h₁.upTo_eq, List.append_assoc]
  asked_eq := by rw [h₂.asked_eq, h₁.asked_eq, List.append_assoc]

mutual

/-- A walk over a tree that fits writes what the tree becomes. -/
theorem visit_advances {cs : List Char} {rule : Rule κ} {answer : Tree κ → Option String} :
    ∀ {t : Tree κ} {p : Progress κ} {start : Nat}, t.Fits cs →
      (∀ n ∈ uncovered answer t, rule n = .ok (answer n)) →
      IsBoundary cs p.cursor → p.cursor ≤ start → start ≤ t.start →
      ∃ q, visit (encode cs) rule t p = .ok q ∧
        Advances cs p q start t.stop
          (stretch (encode cs) start t.start ++ spliced (encode cs) answer t) (uncovered answer t)
  | .node l s ts, p, start, hfits, hrule, hcursor, hle, hstart => by
    have ⟨hsstart, hsstop, hts⟩ : IsBoundary cs s.start ∧ IsBoundary cs s.stop ∧
        Tree.FitAll cs s.start s.stop ts := by simpa [Tree.Fits] using hfits
    have hspan := hts.start_le_stop
    obtain ⟨q, hcopy, hat, hq⟩ := copyTo_advances hcursor hle hsstart hstart
    have hself : rule (.node l s ts) = .ok (answer (.node l s ts)) :=
      hrule _ (by simp [uncovered])
    have hasked := hq.ask (.node l s ts)
    cases hanswer : answer (.node l s ts) with
    | some text =>
      have hreplace := advances_replace (p := { q with asked := q.asked ++ [.node l s ts] })
        text.toList hat hspan hsstop
      refine ⟨⟨max q.cursor s.stop, q.written ++ text.toList, q.asked ++ [.node l s ts]⟩, ?_, ?_⟩
      · simp only [visit, hcopy, hself, hanswer, bind, Except.bind]
      · simpa [spliced, uncovered, hanswer] using hasked.trans hreplace
    | none =>
      obtain ⟨r, hvisits, hr⟩ := visitAll_advances hts
        (fun n hn => hrule n (by simp [uncovered, hanswer, hn])) hasked.boundary hasked.cursor_le
      refine ⟨r, ?_, ?_⟩
      · simp only [visit, hcopy, hself, hanswer, bind, Except.bind, hvisits]
      · simpa [spliced, uncovered, hanswer] using hasked.trans hr

/-- A walk over several trees that fit writes what each becomes and what stands between them. -/
theorem visitAll_advances {cs : List Char} {rule : Rule κ} {answer : Tree κ → Option String} :
    ∀ {ts : List (Tree κ)} {p : Progress κ} {start stop : Nat}, Tree.FitAll cs start stop ts →
      (∀ n ∈ uncoveredAll answer ts, rule n = .ok (answer n)) →
      IsBoundary cs p.cursor → p.cursor ≤ start →
      ∃ q, visitAll (encode cs) rule ts p = .ok q ∧
        Advances cs p q start stop (splicedAll (encode cs) answer start stop ts)
          (uncoveredAll answer ts)
  | [], p, start, stop, hfits, _, hcursor, hle => by
    have hspan := hfits.start_le_stop
    refine ⟨p, rfl, hcursor, by omega, ?_, by simp [uncoveredAll]⟩
    simp only [Progress.upTo, splicedAll, List.append_assoc]
    rw [stretch_append _ hle hspan]
  | t :: ts, p, start, stop, hfits, hrule, hcursor, hle => by
    obtain ⟨hstart, ht, hts⟩ := Tree.fitAll_cons.1 hfits
    obtain ⟨q, hvisit, hq⟩ := visit_advances ht
      (fun n hn => hrule n (by simp [uncoveredAll, hn])) hcursor hle hstart
    obtain ⟨r, hvisits, hr⟩ := visitAll_advances hts
      (fun n hn => hrule n (by simp [uncoveredAll, hn])) hq.boundary hq.cursor_le
    refine ⟨r, ?_, ?_⟩
    · simp only [visitAll, hvisit, bind, Except.bind, hvisits]
    · simpa [splicedAll, uncoveredAll] using hq.trans hr

end

/-! ## The whole source -/

/-- Rewriting a part of the source along trees that fit there writes what the part becomes. -/
theorem between_advances {cs : List Char} {rule : Rule κ} {answer : Tree κ → Option String}
    {ts : List (Tree κ)} {start stop : Nat} (hfits : Tree.FitAll cs start stop ts)
    (hrule : ∀ n ∈ uncoveredAll answer ts, rule n = .ok (answer n))
    (hstart : IsBoundary cs start) (hstop : IsBoundary cs stop) :
    ∃ q, between (encode cs) rule ts start stop = .ok q ∧
      encode q.written = splicedAll (encode cs) answer start stop ts ∧
      q.asked = uncoveredAll answer ts := by
  obtain ⟨q, hvisits, hq⟩ := visitAll_advances (p := ⟨start, [], []⟩) hfits hrule hstart
    (Nat.le_refl start)
  obtain ⟨r, hcopy, hat, hr⟩ := copyTo_advances hq.boundary hq.cursor_le hstop (Nat.le_refl stop)
  have hall := hq.trans hr
  refine ⟨r, ?_, ?_, ?_⟩
  · simp only [between, hvisits, bind, Except.bind, hcopy]
  · simpa [Progress.upTo, hat] using hall.upTo_eq
  · simpa using hall.asked_eq

/-- Rewriting the whole source along a tree that fits it splices what the tree becomes into the
source, and asks about the uncovered trees, once each and in pre-order. -/
theorem wholeProgress_advances {cs : List Char} {rule : Rule κ} {answer : Tree κ → Option String}
    {root : Tree κ} (hfits : root.Fits cs)
    (hrule : ∀ n ∈ uncovered answer root, rule n = .ok (answer n)) :
    ∃ q, wholeProgress (encode cs) root rule = .ok q ∧
      encode q.written =
        (encode cs).take root.start ++ spliced (encode cs) answer root ++
          (encode cs).drop root.stop ∧
      q.asked = uncovered answer root := by
  have hstop : root.stop ≤ (encode cs).length := hfits.isBoundary_stop.le_length
  have hall : Tree.FitAll cs 0 (encode cs).length [root] := by
    simp [Tree.FitAll, hfits, hstop]
  obtain ⟨q, hq, hwritten, hasked⟩ := between_advances hall
    (by simpa [uncoveredAll] using hrule) (isBoundary_zero cs) (isBoundary_length cs)
  refine ⟨q, hq, ?_, by simpa [uncoveredAll] using hasked⟩
  simpa [splicedAll, stretch_zero, stretch_length] using hwritten

/-- For every tree that fits a text and every rule, rewriting gives the text whose bytes are the
source with what the tree becomes in its place.  The rule is asked about each tree that stands
inside no tree with a text of its own, once each and in pre-order, and about no other. -/
theorem whole_eq_spliced {cs : List Char} {root : Tree κ} (hfits : root.Fits cs)
    (answer : Tree κ → Option String) :
    ∃ text asked,
      whole (encode cs) root (answering answer) = .ok text ∧
      encode text.toList =
        (encode cs).take root.start ++ spliced (encode cs) answer root ++
          (encode cs).drop root.stop ∧
      (wholeProgress (encode cs) root (answering answer)).map (·.asked) = .ok asked ∧
      asked = (root.nodes.filter fun n => n.2.all fun a => (answer a).isNone).map (·.1) := by
  have hrule : ∀ n ∈ uncovered answer root, answering answer n = .ok (answer n) :=
    fun _ _ => rfl
  obtain ⟨q, hq, hwritten, hasked⟩ := wholeProgress_advances hfits hrule
  refine ⟨.ofList q.written, q.asked, ?_, ?_, ?_, ?_⟩
  · simp only [whole, hq, result]
  · simpa using hwritten
  · simp only [hq, Except.map]
  · rw [hasked, uncovered_eq_filter_nodes]

/-- After a letter of two bytes stands a call, whose first argument gets another text and hides what
is inside it, and whose second has no width. -/
theorem whole_eq_spliced_call :
    let x : Tree String := .node "x" ⟨9, 10⟩ []
    let inner : Tree String := .node "inner" ⟨3, 11⟩ [x]
    let missing : Tree String := .node "missing" ⟨11, 11⟩ []
    let root : Tree String := .node "call" ⟨2, 12⟩ [inner, missing]
    let answer : Tree String → Option String := fun t =>
      if t.label = "inner" || t.label = "x" then some "I" else none
    root.Fits "é(inner(x))".toList ∧
      whole (encode "é(inner(x))".toList) root (answering answer) = .ok "é(I)" ∧
      (wholeProgress (encode "é(inner(x))".toList) root (answering answer)).map (·.asked) =
        .ok [root, inner, missing] := by
  intro x inner missing root answer
  have hfits : root.Fits "é(inner(x))".toList := by
    simp only [root, inner, x, missing, Tree.Fits, Tree.FitAll, Tree.start_node, Tree.stop_node]
    decide
  obtain ⟨text, asked, htext, hbytes, hasked, hnodes⟩ := whole_eq_spliced hfits answer
  refine ⟨hfits, ?_, ?_⟩
  · have hlist : text.toList = "é(I)".toList := by
      apply encode_injective
      rw [hbytes]
      decide
    rw [htext, String.toList_inj.1 hlist]
  · rw [hasked, hnodes]
    rfl

end Rewrite

end DeclBundle
