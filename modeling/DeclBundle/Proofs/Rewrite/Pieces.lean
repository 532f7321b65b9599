import DeclBundle.Proofs.Rewrite.Splice
import DeclBundle.Proofs.Text.Edge
set_option autoImplicit false

/-!
# What a walk writes on any tree

Nothing is asked of the spans of a tree here: they may overlap, run backwards or lie past the end of
the source.  What a walk writes then still consists of pieces, each a part of the source or what
stands for a tree, and of what the pieces are one thing is known: they lead the cursor on
(`Leads`).  From this it follows that nothing is copied twice or out of order, and that a byte that
is not copied lies in a tree that has been replaced (`Leads.composed`).  What each tree adds is
`visit_adds`; a walk that ends at all has led the cursor through the whole source
(`whole_composed`).
-/

namespace DeclBundle

/-- Whether a byte lies in a span. -/
def Span.Holds (s : Span) (pos : Nat) : Prop :=
  s.start ≤ pos ∧ pos < s.stop

instance (s : Span) (pos : Nat) : Decidable (s.Holds pos) :=
  inferInstanceAs (Decidable (_ ∧ _))

namespace Rewrite

open Utf8

variable {κ : Type} {source : List UInt8} {rule : Rule κ}

/-! ## Pieces -/

/-- A piece of a rewritten text. -/
inductive Piece (κ : Type) where
  /-- a part of the source and the text that stands there -/
  | copied (span : Span) (text : List Char)
  /-- a tree and the text that stands for it -/
  | replaced (tree : Tree κ) (text : String)

/-- What a piece contributes. -/
def Piece.text : Piece κ → List Char
  | copied _ text => text
  | replaced _ text => text.toList

/-- The part of the source that a piece accounts for. -/
def Piece.span : Piece κ → Span
  | copied s _ => s
  | replaced t _ => t.span

/-- The part of the source that a piece copies. -/
def Piece.copied? : Piece κ → Option Span
  | copied s _ => some s
  | replaced _ _ => none

/-- The tree that a piece replaces, and the text for it. -/
def Piece.replaced? : Piece κ → Option (Tree κ × String)
  | copied _ _ => none
  | replaced t text => some (t, text)

/-- The text that a rule gives for a tree, if it gives one. -/
def firing (rule : Rule κ) (t : Tree κ) : Option String :=
  match rule t with
  | .ok found => found
  | .error _ => none

/-- The trees among some for which a rule gives a text, with that text. -/
def firings (rule : Rule κ) (ts : List (Tree κ)) : List (Tree κ × String) :=
  ts.filterMap fun t => (firing rule t).map (t, ·)

/-- Whether pieces make up what a rule makes of a source along a tree. -/
structure Composed (source : List UInt8) (root : Tree κ) (rule : Rule κ)
    (pieces : List (Piece κ)) : Prop where
  /-- what is replaced are the trees for which the rule gives a text and around which no other such
  tree stands, in pre-order -/
  replaced_eq : pieces.filterMap Piece.replaced? =
    firings rule ((root.nodes.filter fun n => n.2.all fun a => (firing rule a).isNone).map (·.1))
  /-- what is copied is text of the source -/
  slice_eq : ∀ s text, .copied s text ∈ pieces →
    s.start < s.stop ∧ slice source s.start s.stop = .ok text
  /-- nothing is copied twice or out of order -/
  inOrder : (pieces.filterMap Piece.copied?).Pairwise fun s s' => s.stop ≤ s'.start
  /-- a byte that is not copied lies in a tree that is replaced -/
  accounted : ∀ pos < source.length, ∃ piece ∈ pieces, piece.span.Holds pos
  /-- what stands before a replacement accounts for all before the tree, and behind it nothing is
  copied from before the end of the tree -/
  placed : ∀ before t text after, pieces = before ++ .replaced t text :: after →
    (∀ pos < source.length, pos < t.start → ∃ piece ∈ before, piece.span.Holds pos) ∧
      ∀ s ∈ after.filterMap Piece.copied?, t.stop ≤ s.start

/-! ## The way of the cursor -/

/-- Whether pieces lead the cursor from one offset to another: a copied part begins where the cursor
stands, and a tree is replaced when its beginning has been reached. -/
inductive Leads (source : List UInt8) : Nat → List (Piece κ) → Nat → Prop where
  | nil {pos : Nat} : Leads source pos [] pos
  | copied {start mid stop : Nat} {text : List Char} {pieces : List (Piece κ)} (hlt : start < mid)
      (htext : slice source start mid = .ok text) (h : Leads source mid pieces stop) :
      Leads source start (.copied ⟨start, mid⟩ text :: pieces) stop
  | replaced {start stop : Nat} {t : Tree κ} {text : String} {pieces : List (Piece κ)}
      (hreached : t.start ≤ start) (h : Leads source (max start t.stop) pieces stop) :
      Leads source start (.replaced t text :: pieces) stop

variable {start mid stop : Nat} {pieces others : List (Piece κ)}

theorem Leads.append (h : Leads source start pieces mid) (h' : Leads source mid others stop) :
    Leads source start (pieces ++ others) stop := by
  induction h with
  | nil => exact h'
  | copied hlt htext _ ih => exact .copied hlt htext (ih h')
  | replaced hreached _ ih => exact .replaced hreached (ih h')

theorem Leads.exists_of_append (h : Leads source start (pieces ++ others) stop) :
    ∃ mid, Leads source start pieces mid ∧ Leads source mid others stop := by
  induction pieces generalizing start with
  | nil => exact ⟨start, .nil, h⟩
  | cons piece pieces ih =>
    cases h with
    | copied hlt htext h =>
      obtain ⟨mid, hpieces, hothers⟩ := ih h
      exact ⟨mid, .copied hlt htext hpieces, hothers⟩
    | replaced hreached h =>
      obtain ⟨mid, hpieces, hothers⟩ := ih h
      exact ⟨mid, .replaced hreached hpieces, hothers⟩

/-- The cursor never goes back. -/
theorem Leads.le (h : Leads source start pieces stop) : start ≤ stop := by
  induction h with
  | nil => exact Nat.le_refl _
  | copied hlt _ _ ih => omega
  | replaced _ _ ih => omega

theorem Leads.slice_eq (h : Leads source start pieces stop) {s : Span} {text : List Char}
    (hmem : .copied s text ∈ pieces) :
    s.start < s.stop ∧ slice source s.start s.stop = .ok text := by
  induction h with
  | nil => cases hmem
  | copied hlt htext _ ih =>
    rcases List.mem_cons.1 hmem with heq | hmem
    · cases heq
      exact ⟨hlt, htext⟩
    · exact ih hmem
  | replaced _ _ ih =>
    rcases List.mem_cons.1 hmem with heq | hmem
    · cases heq
    · exact ih hmem

/-- What is copied lies behind where the cursor stood. -/
theorem Leads.le_start (h : Leads source start pieces stop) {s : Span}
    (hs : s ∈ pieces.filterMap Piece.copied?) : start ≤ s.start := by
  induction h with
  | nil => cases hs
  | copied hlt _ _ ih =>
    rcases List.mem_cons.1 hs with rfl | hs
    · exact Nat.le_refl _
    · exact Nat.le_trans (Nat.le_of_lt hlt) (ih hs)
  | replaced _ _ ih => exact Nat.le_trans (Nat.le_max_left _ _) (ih hs)

theorem Leads.inOrder (h : Leads source start pieces stop) :
    (pieces.filterMap Piece.copied?).Pairwise fun s s' => s.stop ≤ s'.start := by
  induction h with
  | nil => exact .nil
  | copied _ _ h ih => exact .cons (fun s hs => h.le_start hs) ih
  | replaced _ _ ih => exact ih

/-- Every byte that the cursor passes is copied or lies in a tree that is replaced. -/
theorem Leads.accounted (h : Leads source start pieces stop) {pos : Nat} (hstart : start ≤ pos)
    (hstop : pos < stop) : ∃ piece ∈ pieces, piece.span.Holds pos := by
  induction h with
  | nil => omega
  | @copied first next _ _ _ _ _ _ ih =>
    rcases Nat.lt_or_ge pos next with hlt | hge
    · exact ⟨_, List.mem_cons_self, hstart, hlt⟩
    · obtain ⟨piece, hmem, hpiece⟩ := ih hge hstop
      exact ⟨piece, List.mem_cons_of_mem _ hmem, hpiece⟩
  | @replaced first _ t _ _ hreached _ ih =>
    rcases Nat.lt_or_ge pos (max first t.stop) with hlt | hge
    · exact ⟨_, List.mem_cons_self, Nat.le_trans hreached hstart, show pos < t.stop by omega⟩
    · obtain ⟨piece, hmem, hpiece⟩ := ih hge hstop
      exact ⟨piece, List.mem_cons_of_mem _ hmem, hpiece⟩

/-- Around a replacement the pieces stand as the tree does in the source. -/
theorem Leads.placed {before after : List (Piece κ)} {t : Tree κ} {text : String}
    (h : Leads source start (before ++ .replaced t text :: after) stop) :
    (∀ pos, start ≤ pos → pos < t.start → ∃ piece ∈ before, piece.span.Holds pos) ∧
      ∀ s ∈ after.filterMap Piece.copied?, t.stop ≤ s.start := by
  obtain ⟨mid, hbefore, hrest⟩ := h.exists_of_append
  cases hrest with
  | replaced hreached hafter =>
    refine ⟨fun pos hstart hpos => hbefore.accounted hstart (by omega), fun s hs => ?_⟩
    exact Nat.le_trans (Nat.le_max_right _ _) (hafter.le_start hs)

/-- Pieces that lead through the whole source make up what a rule makes of it, if the replacements
are the rule's. -/
theorem Leads.composed {root : Tree κ} (h : Leads source 0 pieces stop)
    (hstop : source.length ≤ stop)
    (hreplaced : pieces.filterMap Piece.replaced? =
      firings rule (uncovered (firing rule) root)) : Composed source root rule pieces where
  replaced_eq := by rw [hreplaced, uncovered_eq_filter_nodes]
  slice_eq := fun _ _ hmem => h.slice_eq hmem
  inOrder := h.inOrder
  accounted := fun pos hpos => h.accounted (Nat.zero_le pos) (Nat.lt_of_lt_of_le hpos hstop)
  placed := by
    rintro before t text after rfl
    obtain ⟨hbefore, hafter⟩ := h.placed
    exact ⟨fun pos _ hpos => hbefore pos (Nat.zero_le pos) hpos, hafter⟩

/-! ## What a walk adds -/

/-- Whether a walk from `p` to `q` has written what the rule gives for some trees, and what it
copied on the way. -/
def Adds (source : List UInt8) (rule : Rule κ) (trees : List (Tree κ)) (p q : Progress κ) : Prop :=
  ∃ pieces : List (Piece κ), q.written = p.written ++ pieces.flatMap Piece.text ∧
    Leads source p.cursor pieces q.cursor ∧
    pieces.filterMap Piece.replaced? = firings rule trees

theorem Adds.refl (p : Progress κ) : Adds source rule [] p p :=
  ⟨[], by simp, .nil, rfl⟩

theorem Adds.trans {trees more : List (Tree κ)} {p q r : Progress κ}
    (h : Adds source rule trees p q) (h' : Adds source rule more q r) :
    Adds source rule (trees ++ more) p r := by
  obtain ⟨pieces, hwritten, hleads, hreplaced⟩ := h
  obtain ⟨others, hwritten', hleads', hreplaced'⟩ := h'
  refine ⟨pieces ++ others, ?_, hleads.append hleads', ?_⟩
  · rw [hwritten', hwritten, List.flatMap_append, List.append_assoc]
  · rw [List.filterMap_append, hreplaced, hreplaced', firings, firings, firings,
      List.filterMap_append]

/-- Asking about a tree for which the rule gives no text adds nothing. -/
theorem Adds.ask {p q : Progress κ} {t : Tree κ} (h : Adds source rule [] p q)
    (ht : firing rule t = none) : Adds source rule [t] p { q with asked := q.asked ++ [t] } := by
  obtain ⟨pieces, hwritten, hleads, hreplaced⟩ := h
  exact ⟨pieces, hwritten, hleads, by simpa [firings, ht] using hreplaced⟩

/-- Replacing a tree whose beginning has been reached adds its text. -/
theorem Adds.replace {p q : Progress κ} {t : Tree κ} {text : String}
    (h : Adds source rule [] p q) (ht : firing rule t = some text) (hreached : t.start ≤ q.cursor) :
    Adds source rule [t] p ⟨max q.cursor t.stop, q.written ++ text.toList, q.asked ++ [t]⟩ := by
  have hself : Adds source rule [t] q
      ⟨max q.cursor t.stop, q.written ++ text.toList, q.asked ++ [t]⟩ :=
    ⟨[.replaced t text], by simp [Piece.text], .replaced hreached .nil,
      by simp [Piece.replaced?, firings, ht]⟩
  exact h.trans hself

/-- Copying adds no text of the rule, and the cursor has then reached the offset. -/
theorem copyTo_adds (rule : Rule κ) {p q : Progress κ} {pos : Nat}
    (h : copyTo source pos p = .ok q) : Adds source rule [] p q ∧ pos ≤ q.cursor := by
  unfold copyTo at h
  split at h
  · rename_i hlt
    split at h
    · rename_i text htext
      obtain rfl := Except.ok.inj h
      exact ⟨⟨[.copied ⟨p.cursor, pos⟩ text], by simp [Piece.text], .copied hlt htext .nil, rfl⟩,
        Nat.le_refl _⟩
    · cases h
  · rename_i hge
    obtain rfl := Except.ok.inj h
    exact ⟨.refl p, Nat.le_of_not_lt hge⟩

mutual

/-- A walk over a tree adds what the rule gives for the trees in it that are asked about. -/
theorem visit_adds : ∀ {t : Tree κ} {p q : Progress κ}, visit source rule t p = .ok q →
    Adds source rule (uncovered (firing rule) t) p q
  | .node l s ts, p, q, h => by
    cases hcopy : copyTo source s.start p with
    | error halt => simp [visit, hcopy, bind, Except.bind] at h
    | ok r =>
      obtain ⟨hadds, hreached⟩ := copyTo_adds rule hcopy
      simp only [visit, hcopy, bind, Except.bind] at h
      split at h
      · cases h
      · rename_i text hrule
        have hfires : firing rule (.node l s ts) = some text := by simp [firing, hrule]
        obtain rfl := Except.ok.inj h
        simpa [uncovered, hfires] using hadds.replace hfires hreached
      · rename_i hrule
        have hfires : firing rule (.node l s ts) = none := by simp [firing, hrule]
        simpa [uncovered, hfires] using (hadds.ask hfires).trans (visitAll_adds h)

theorem visitAll_adds : ∀ {ts : List (Tree κ)} {p q : Progress κ},
    visitAll source rule ts p = .ok q → Adds source rule (uncoveredAll (firing rule) ts) p q
  | [], p, q, h => by
    obtain rfl := Except.ok.inj h
    simpa [uncoveredAll] using Adds.refl p
  | t :: ts, p, q, h => by
    cases hvisit : visit source rule t p with
    | error halt => simp [visitAll, hvisit, bind, Except.bind] at h
    | ok r =>
      simp only [visitAll, hvisit, bind, Except.bind] at h
      simpa [uncoveredAll] using (visit_adds hvisit).trans (visitAll_adds h)

end

/-- A walk that ends has led the cursor through the whole source. -/
theorem exists_pieces_of_whole {root : Tree κ} {text : String}
    (h : whole source root rule = .ok text) :
    ∃ pieces stop, text.toList = pieces.flatMap Piece.text ∧ Leads source 0 pieces stop ∧
      source.length ≤ stop ∧
      pieces.filterMap Piece.replaced? = firings rule (uncovered (firing rule) root) := by
  unfold whole wholeProgress between at h
  cases hvisits : visitAll source rule [root] ⟨0, [], []⟩ with
  | error halt => simp [hvisits, bind, Except.bind, result] at h
  | ok p =>
    simp only [hvisits, bind, Except.bind] at h
    cases hcopy : copyTo source source.length p with
    | error halt => simp [hcopy, result] at h
    | ok q =>
      obtain ⟨hcopied, hreached⟩ := copyTo_adds rule hcopy
      obtain ⟨pieces, hwritten, hleads, hreplaced⟩ := (visitAll_adds hvisits).trans hcopied
      rw [hcopy] at h
      obtain rfl := Except.ok.inj h
      refine ⟨pieces, q.cursor, ?_, hleads, hreached, ?_⟩
      · simpa using hwritten
      · simpa [uncoveredAll] using hreplaced

/-! ## Rules that give no text -/

variable {cs : List Char}

/-- What is copied without a replacement between is the source. -/
theorem Leads.encode_eq (h : Leads (encode cs) start pieces stop) (hstart : IsEdge cs start)
    (hcopied : pieces.filterMap Piece.replaced? = []) :
    encode (pieces.flatMap Piece.text) = stretch (encode cs) start stop := by
  induction h with
  | nil => simp
  | @copied first next last text pieces hlt htext h ih =>
    have hedge : IsEdge cs next := hstart.of_decode (Nat.le_of_lt hlt) htext
    obtain ⟨same, hsame, hbytes⟩ := hstart.decode_stretch hedge
    obtain rfl : same = text := Except.ok.inj (hsame.symm.trans htext)
    rw [List.flatMap_cons, encode_append, ih hedge hcopied,
      ← stretch_append (encode cs) (Nat.le_of_lt hlt) h.le]
    exact congrArg (· ++ _) hbytes
  | replaced => simp [Piece.replaced?] at hcopied

/-- If no tree is replaced, the source comes out. -/
theorem Leads.text_eq (h : Leads (encode cs) 0 pieces stop) (hstop : (encode cs).length ≤ stop)
    (hcopied : pieces.filterMap Piece.replaced? = []) : pieces.flatMap Piece.text = cs := by
  apply encode_injective
  rw [h.encode_eq (isEdge_zero cs) hcopied, stretch_zero, List.take_of_length_le hstop]

/-! ## Trees between characters -/

/-- Whether a tree begins and ends at edges of a text. -/
def OnEdges (cs : List Char) (t : Tree κ) : Prop :=
  IsEdge cs t.start ∧ IsEdge cs t.stop

instance (cs : List Char) (t : Tree κ) : Decidable (OnEdges cs t) :=
  inferInstanceAs (Decidable (_ ∧ _))

theorem copyTo_of_isEdge {p : Progress κ} {pos : Nat} (hcursor : IsEdge cs p.cursor)
    (hpos : IsEdge cs pos) : ∃ q, copyTo (encode cs) pos p = .ok q ∧ IsEdge cs q.cursor := by
  unfold copyTo
  split
  · obtain ⟨text, htext, -⟩ := hcursor.decode_stretch hpos
    have hslice : slice (encode cs) p.cursor pos = .ok text := htext
    exact ⟨⟨pos, p.written ++ text, p.asked⟩, by simp only [hslice], hpos⟩
  · exact ⟨p, rfl, hcursor⟩

mutual

/-- A walk over trees between characters does not fail, wherever they stand. -/
theorem visit_of_onEdges : ∀ (t : Tree κ) (around : List (Tree κ)) {p : Progress κ},
    IsEdge cs p.cursor →
    (∀ n ∈ t.nodesWithin around, OnEdges cs n.1 ∧ ∃ found, rule n.1 = .ok found) →
    ∃ q, visit (encode cs) rule t p = .ok q ∧ IsEdge cs q.cursor
  | .node l s ts, around, p, hcursor, hnodes => by
    obtain ⟨⟨hstart, hstop⟩, found, hfound⟩ :=
      hnodes (.node l s ts, around) (by simp [Tree.nodesWithin])
    obtain ⟨q, hcopy, hedge⟩ := copyTo_of_isEdge hcursor hstart
    rw [Tree.start_node] at hcopy
    cases found with
    | some text =>
      refine ⟨⟨max q.cursor s.stop, q.written ++ text.toList, q.asked ++ [.node l s ts]⟩, ?_, ?_⟩
      · simp only [visit, hcopy, hfound, bind, Except.bind]
      · rcases Nat.le_total q.cursor s.stop with hle | hle
        · simpa [Nat.max_eq_right hle] using hstop
        · simpa [Nat.max_eq_left hle] using hedge
    | none =>
      obtain ⟨r, hvisits, hr⟩ := visitAll_of_onEdges ts (.node l s ts :: around)
        (p := { q with asked := q.asked ++ [.node l s ts] }) hedge
        fun n hn => hnodes n (by simp [Tree.nodesWithin, hn])
      exact ⟨r, by simp only [visit, hcopy, hfound, bind, Except.bind, hvisits], hr⟩

theorem visitAll_of_onEdges : ∀ (ts around : List (Tree κ)) {p : Progress κ},
    IsEdge cs p.cursor →
    (∀ n ∈ Tree.nodesWithinAll around ts, OnEdges cs n.1 ∧ ∃ found, rule n.1 = .ok found) →
    ∃ q, visitAll (encode cs) rule ts p = .ok q ∧ IsEdge cs q.cursor
  | [], _, p, hcursor, _ => ⟨p, rfl, hcursor⟩
  | t :: ts, around, p, hcursor, hnodes => by
    obtain ⟨q, hvisit, hq⟩ := visit_of_onEdges t around hcursor
      fun n hn => hnodes n (by simp [Tree.nodesWithinAll, hn])
    obtain ⟨r, hvisits, hr⟩ := visitAll_of_onEdges ts around hq
      fun n hn => hnodes n (by simp [Tree.nodesWithinAll, hn])
    exact ⟨r, by simp only [visitAll, hvisit, bind, Except.bind, hvisits], hr⟩

end

theorem exists_whole_of_onEdges {root : Tree κ}
    (hnodes : ∀ n ∈ root.nodes, OnEdges cs n.1 ∧ ∃ found, rule n.1 = .ok found) :
    ∃ text, whole (encode cs) root rule = .ok text := by
  have hall : ∀ n ∈ Tree.nodesWithinAll [] [root],
      OnEdges cs n.1 ∧ ∃ found, rule n.1 = .ok found := by
    simpa [Tree.nodesWithinAll, Tree.nodes] using hnodes
  obtain ⟨p, hvisits, hp⟩ := visitAll_of_onEdges [root] [] (p := ⟨0, [], []⟩) (isEdge_zero cs) hall
  obtain ⟨q, hcopy, -⟩ := copyTo_of_isEdge hp (isEdge_length cs)
  refine ⟨.ofList q.written, ?_⟩
  simp only [whole, wholeProgress, between, hvisits, bind, Except.bind, hcopy, result]

/-- For every text, every tree, whatever its spans are, and every rule: if rewriting ends, what
comes out is made up of what the rule gives and of parts of the source, and it is the source if the
rule gives nothing.  It ends if the spans of all trees begin and end between characters or behind the
end, and the rule does not fail. -/
theorem whole_composed (cs : List Char) (root : Tree κ) (rule : Rule κ) :
    (∀ text, whole (encode cs) root rule = .ok text →
      (∃ pieces, text.toList = pieces.flatMap Piece.text ∧
        Composed (encode cs) root rule pieces) ∧
      ((∀ n ∈ root.nodes, rule n.1 = .ok none) → text.toList = cs)) ∧
    ((∀ n ∈ root.nodes, OnEdges cs n.1 ∧ ∃ found, rule n.1 = .ok found) →
      ∃ text, whole (encode cs) root rule = .ok text) := by
  refine ⟨fun text h => ?_, exists_whole_of_onEdges⟩
  obtain ⟨pieces, stop, htext, hleads, hstop, hreplaced⟩ := exists_pieces_of_whole h
  refine ⟨⟨pieces, htext, hleads.composed hstop hreplaced⟩, fun hsilent => ?_⟩
  have hnone : firings rule (uncovered (firing rule) root) = [] := by
    refine List.filterMap_eq_nil_iff.2 fun t ht => ?_
    rw [uncovered_eq_filter_nodes] at ht
    obtain ⟨n, hn, rfl⟩ := List.mem_map.1 ht
    simp [firing, hsilent n (List.mem_filter.1 hn).1]
  rw [htext, hleads.text_eq hstop (hreplaced.trans hnone)]

/-- The second tree lies in the first and runs backwards, and the third lies past the end. -/
theorem whole_composed_overlapping :
    let first : Tree String := .node "x" ⟨2, 4⟩ []
    let second : Tree String := .node "y" ⟨3, 2⟩ []
    let third : Tree String := .node "" ⟨9, 2⟩ []
    let root : Tree String := .node "" ⟨0, 20⟩ [first, second, third]
    let answer : Tree String → Option String := fun t => if t.label = "" then none else some t.label
    let cs := "é(ab)".toList
    (∀ n ∈ root.nodes, OnEdges cs n.1) ∧
      whole (encode cs) root (answering answer) = .ok "éxyb)" ∧
      (∃ pieces, "éxyb)".toList = pieces.flatMap Piece.text ∧
        Composed (encode cs) root (answering answer) pieces) ∧
      whole (encode cs) root (answering fun _ => none) = .ok "é(ab)" := by
  intro first second third root answer cs
  have hedges : ∀ n ∈ root.nodes, OnEdges cs n.1 := by decide
  have hwhole : whole (encode cs) root (answering answer) = .ok "éxyb)" := by rfl
  obtain ⟨hcomposed, -⟩ := (whole_composed cs root (answering answer)).1 _ hwhole
  refine ⟨hedges, hwhole, hcomposed, ?_⟩
  obtain ⟨hends, hsilent⟩ := whole_composed cs root (answering fun _ => none)
  obtain ⟨text, htext⟩ := hsilent fun n hn => ⟨hedges n hn, none, rfl⟩
  have hsame : text.toList = "é(ab)".toList := (hends text htext).2 fun _ _ => rfl
  rw [htext, String.toList_inj.1 hsame]

end Rewrite

end DeclBundle
