import DeclBundle.Proofs.Rewrite.Edits
import DeclBundle.Proofs.Rewrite.Pieces
set_option autoImplicit false

/-!
# Rewriting siblings in parts

The walk over siblings carries its cursor from one to the next, and the cursor may lag behind: the
source after the last child of a tree is copied only when the next tree or the end is reached.  At a
boundary between two siblings this does not show.  Catching up there and going on is the same walk
(`visitAll_of_slice`), and what a walk has done before does not matter to what it does next
(`visitAll_continuing`).  So siblings can be rewritten in parts, with the source between the parts
copied, and a tree can be rewritten by way of its children (`siblings_composes`).
-/

namespace DeclBundle

namespace Tree

variable {κ : Type} {cs : List Char} {start stop : Nat}

/-- Trees that fit a text in order fit it in two parts. -/
theorem FitAll.exists_of_append {ts us : List (Tree κ)} (h : FitAll cs start stop (ts ++ us)) :
    ∃ mid, FitAll cs start mid ts ∧ FitAll cs mid stop us := by
  induction ts generalizing start with
  | nil => exact ⟨start, by simp [FitAll], h⟩
  | cons t ts ih =>
    obtain ⟨hstart, hfits, hrest⟩ := fitAll_cons.1 h
    obtain ⟨mid, hts, hus⟩ := ih hrest
    exact ⟨mid, fitAll_cons.2 ⟨hstart, hfits, hts⟩, hus⟩

/-- Trees that fit a text reach no further than the last of them. -/
theorem FitAll.of_last {ts : List (Tree κ)} {last : Tree κ}
    (h : FitAll cs start stop (ts ++ [last])) :
    FitAll cs start last.stop (ts ++ [last]) ∧ last.stop ≤ stop := by
  induction ts generalizing start with
  | nil =>
    obtain ⟨hstart, hfits, hstop⟩ : start ≤ last.start ∧ last.Fits cs ∧ last.stop ≤ stop := by
      simpa [FitAll] using h
    exact ⟨by simp [FitAll, hstart, hfits], hstop⟩
  | cons t ts ih =>
    obtain ⟨hstart, hfits, hrest⟩ := fitAll_cons.1 h
    obtain ⟨hlast, hle⟩ := ih hrest
    exact ⟨fitAll_cons.2 ⟨hstart, hfits, hlast⟩, hle⟩

/-- Trees that fit a text fit it from where the first begins to where the last ends. -/
theorem FitAll.within {trees : List (Tree κ)} (h : FitAll cs start stop trees) (hne : trees ≠ []) :
    start ≤ (trees.head hne).start ∧
      FitAll cs (trees.head hne).start (trees.getLast hne).stop trees := by
  have hparts : trees.dropLast ++ [trees.getLast hne] = trees := List.dropLast_concat_getLast hne
  have hlast : FitAll cs start (trees.getLast hne).stop trees := by
    rw [← hparts] at h
    have hreach := h.of_last.1
    rwa [hparts] at hreach
  clear hparts h
  generalize (trees.getLast hne).stop = last at hlast
  cases trees with
  | nil => exact absurd rfl hne
  | cons t ts =>
    obtain ⟨hstart, hfits⟩ := fitAll_cons.1 hlast
    exact ⟨hstart, fitAll_cons.2 ⟨Nat.le_refl _, hfits⟩⟩

end Tree

namespace Rewrite

open Utf8

variable {κ : Type} {source : List UInt8} {cs : List Char} {rule : Rule κ}

/-! ## Going on from another walk -/

/-- A walk that another one came before: what that one has written and asked about stands in
front. -/
def continuing (before : Progress κ) :
    Except (Halt κ) (Progress κ) → Except (Halt κ) (Progress κ)
  | .ok p => .ok ⟨p.cursor, before.written ++ p.written, before.asked ++ p.asked⟩
  | .error h => .error ⟨h.fault, before.asked ++ h.asked⟩

theorem continuing_bind {before : Progress κ} (r : Except (Halt κ) (Progress κ))
    {f : Progress κ → Except (Halt κ) (Progress κ)}
    (hf : ∀ p, f ⟨p.cursor, before.written ++ p.written, before.asked ++ p.asked⟩ =
      continuing before (f p)) :
    (continuing before r >>= f) = continuing before (r >>= f) := by
  cases r with
  | error h => rfl
  | ok p => exact hf p

theorem copyTo_continuing (before : Progress κ) (pos : Nat) (p : Progress κ) :
    copyTo source pos ⟨p.cursor, before.written ++ p.written, before.asked ++ p.asked⟩ =
      continuing before (copyTo source pos p) := by
  unfold copyTo
  dsimp only
  split
  · cases slice source p.cursor pos with
    | error fault => rfl
    | ok text => simp [continuing]
  · rfl

mutual

/-- What has been done before does not matter to a walk over a tree. -/
theorem visit_continuing (before : Progress κ) : ∀ (t : Tree κ) (p : Progress κ),
    visit source rule t ⟨p.cursor, before.written ++ p.written, before.asked ++ p.asked⟩ =
      continuing before (visit source rule t p)
  | .node l s ts, p => by
    unfold visit
    rw [copyTo_continuing]
    refine continuing_bind _ fun q => ?_
    dsimp only
    rw [List.append_assoc]
    cases rule (.node l s ts) with
    | error fault => rfl
    | ok found =>
      cases found with
      | some text => simp [continuing]
      | none => exact visitAll_continuing before ts ⟨q.cursor, q.written, q.asked ++ [.node l s ts]⟩

/-- What has been done before does not matter to a walk over several trees. -/
theorem visitAll_continuing (before : Progress κ) : ∀ (ts : List (Tree κ)) (p : Progress κ),
    visitAll source rule ts ⟨p.cursor, before.written ++ p.written, before.asked ++ p.asked⟩ =
      continuing before (visitAll source rule ts p)
  | [], _ => rfl
  | t :: ts, p => by
    unfold visitAll
    rw [visit_continuing before t p]
    exact continuing_bind _ fun q => visitAll_continuing before ts q

end

theorem visitAll_append (ts us : List (Tree κ)) (p : Progress κ) :
    visitAll source rule (ts ++ us) p = visitAll source rule ts p >>= visitAll source rule us := by
  induction ts generalizing p with
  | nil => rfl
  | cons t ts ih =>
    simp only [List.cons_append, visitAll, bind_assoc]
    exact bind_congr fun q => ih q

/-! ## Catching up -/

/-- Whether the cursor of a walk stands between two characters and not behind an offset. -/
structure Lags (cs : List Char) (pos : Nat) (p : Progress κ) : Prop where
  boundary : IsBoundary cs p.cursor
  cursor_le : p.cursor ≤ pos

/-- A part of the source is copied in two parts as in one. -/
theorem exists_slices {start mid stop : Nat} (hstart : IsBoundary cs start)
    (hmid : IsBoundary cs mid) (hstop : IsBoundary cs stop) (hle : start ≤ mid)
    (hle' : mid ≤ stop) :
    ∃ text more, slice (encode cs) start mid = .ok text ∧ slice (encode cs) mid stop = .ok more ∧
      slice (encode cs) start stop = .ok (text ++ more) := by
  obtain ⟨text, htext, hbytes⟩ := decode_stretch hstart hmid
  obtain ⟨more, hmore, hbytes'⟩ := decode_stretch hmid hstop
  obtain ⟨both, hboth, hbytes''⟩ := decode_stretch hstart hstop
  have hsame : both = text ++ more := by
    apply encode_injective
    rw [encode_append, hbytes, hbytes', hbytes'', stretch_append _ hle hle']
  exact ⟨text, more, htext, hmore, hsame ▸ hboth⟩

theorem copyTo_of_slice (source : List UInt8) {p : Progress κ} {pos : Nat} {text : List Char}
    (hle : p.cursor ≤ pos) (htext : slice source p.cursor pos = .ok text) :
    copyTo source pos p = .ok ⟨pos, p.written ++ text, p.asked⟩ := by
  rcases Nat.lt_or_eq_of_le hle with hlt | rfl
  · simp only [copyTo, hlt, if_true, htext]
  · have hnothing : slice source p.cursor p.cursor = .ok [] := by
      have hempty : stretch source p.cursor p.cursor = [] := stretch_self source _
      exact (congrArg decode hempty).trans (decode_encode [])
    obtain rfl := Except.ok.inj (htext.symm.trans hnothing)
    simp [copyTo]

/-- A walk that lags behind an offset can catch up there; what is copied then and what stands between
that offset and a further one are all that is copied up to the further one. -/
theorem Lags.exists_copyTo {p : Progress κ} {mid stop : Nat} {gap : List Char} (h : Lags cs mid p)
    (hmid : IsBoundary cs mid) (hstop : IsBoundary cs stop) (hle : mid ≤ stop)
    (hgap : slice (encode cs) mid stop = .ok gap) :
    ∃ text, copyTo (encode cs) mid p = .ok ⟨mid, p.written ++ text, p.asked⟩ ∧
      slice (encode cs) p.cursor stop = .ok (text ++ gap) := by
  obtain ⟨text, same, htext, hsame, hboth⟩ :=
    exists_slices h.boundary hmid hstop h.cursor_le hle
  obtain rfl := Except.ok.inj (hsame.symm.trans hgap)
  exact ⟨text, copyTo_of_slice (encode cs) h.cursor_le htext, hboth⟩

/-- Catching up before a walk over trees changes nothing: the walk begins by copying up to the first
of them. -/
theorem visitAll_of_slice (rule : Rule κ) {trees : List (Tree κ)} (hne : trees ≠ [])
    {p : Progress κ} {text : List Char} (hle : p.cursor ≤ (trees.head hne).start)
    (htext : slice source p.cursor (trees.head hne).start = .ok text) :
    visitAll source rule trees p =
      visitAll source rule trees ⟨(trees.head hne).start, p.written ++ text, p.asked⟩ := by
  obtain ⟨⟨l, s, us⟩, ts, rfl⟩ := List.exists_cons_of_ne_nil hne
  have hcopy := copyTo_of_slice source hle htext
  have hthere : copyTo source s.start ⟨s.start, p.written ++ text, p.asked⟩ =
      (.ok ⟨s.start, p.written ++ text, p.asked⟩ : Except (Halt κ) (Progress κ)) := by
    simp [copyTo]
  simp only [List.head_cons, Tree.start_node] at hcopy ⊢
  simp only [visitAll, visit, hcopy, hthere]

mutual

/-- A walk over a tree that fits leaves the cursor in the tree. -/
theorem lags_of_visit : ∀ {t : Tree κ} {p q : Progress κ}, t.Fits cs → Lags cs t.start p →
    visit (encode cs) rule t p = .ok q → Lags cs t.stop q
  | .node l s ts, p, q, hfits, hp, h => by
    have hstart := hfits.isBoundary_start
    have hchildren := hfits.children
    obtain ⟨text, htext, -⟩ := decode_stretch hp.boundary hstart
    have hcopy := copyTo_of_slice (encode cs) hp.cursor_le htext
    rw [Tree.start_node] at hcopy
    simp only [visit, hcopy, bind, Except.bind] at h
    split at h
    · cases h
    · obtain rfl := Except.ok.inj h
      have hmax : max s.start s.stop = s.stop := Nat.max_eq_right hfits.start_le_stop
      refine ⟨?_, Nat.le_of_eq hmax⟩
      change IsBoundary cs (max s.start s.stop)
      rw [hmax]
      exact hfits.isBoundary_stop
    · exact lags_of_visitAll hchildren ⟨hstart, Nat.le_refl _⟩ h

theorem lags_of_visitAll : ∀ {ts : List (Tree κ)} {start stop : Nat} {p q : Progress κ},
    Tree.FitAll cs start stop ts → Lags cs start p → visitAll (encode cs) rule ts p = .ok q →
    Lags cs stop q
  | [], start, stop, p, q, hfits, hp, h => by
    obtain rfl := Except.ok.inj h
    exact ⟨hp.boundary, Nat.le_trans hp.cursor_le hfits.start_le_stop⟩
  | t :: ts, start, stop, p, q, hfits, hp, h => by
    obtain ⟨hstart, ht, hts⟩ := Tree.fitAll_cons.1 hfits
    cases hvisit : visit (encode cs) rule t p with
    | error halt => simp [visitAll, hvisit, bind, Except.bind] at h
    | ok r =>
      simp only [visitAll, hvisit, bind, Except.bind] at h
      exact lags_of_visitAll hts
        (lags_of_visit ht ⟨hp.boundary, Nat.le_trans hp.cursor_le hstart⟩ hvisit) h

end

/-! ## Siblings in parts -/

theorem siblingsProgress_eq {trees : List (Tree κ)} (hne : trees ≠ []) :
    siblingsProgress source trees rule =
      between source rule trees (trees.head hne).start (trees.getLast hne).stop := by
  simp only [siblingsProgress, List.head?_eq_some_head hne, List.getLast?_eq_some_getLast hne]

/-- What is written before a walk over trees from where the first of them begins stands in front of
what becomes of them. -/
theorem visitAll_bind_copyTo (source : List UInt8) (rule : Rule κ) {trees : List (Tree κ)}
    (hne : trees ≠ []) (before : Progress κ) :
    (visitAll source rule trees ⟨(trees.head hne).start, before.written, before.asked⟩ >>=
      copyTo source (trees.getLast hne).stop) =
      continuing before (siblingsProgress source trees rule) := by
  have hgoes : visitAll source rule trees
      ⟨(trees.head hne).start, before.written ++ [], before.asked ++ []⟩ =
      continuing before (visitAll source rule trees ⟨(trees.head hne).start, [], []⟩) :=
    visitAll_continuing before trees ⟨(trees.head hne).start, [], []⟩
  simp only [List.append_nil] at hgoes
  rw [hgoes, siblingsProgress_eq hne, between]
  exact continuing_bind _ fun q => copyTo_continuing before _ q

/-- Rewriting siblings is rewriting those up to one of them, copying the source up to the next, and
rewriting the others. -/
theorem siblingsProgress_append (rule : Rule κ) {left right : List (Tree κ)} {x y : Tree κ}
    {start stop : Nat}
    (hfits : Tree.FitAll cs start stop (left ++ x :: y :: right)) :
    ∃ gap, slice (encode cs) x.stop y.start = .ok gap ∧
      siblingsProgress (encode cs) (left ++ x :: y :: right) rule = (do
        let p ← siblingsProgress (encode cs) (left ++ [x]) rule
        continuing { p with written := p.written ++ gap }
          (siblingsProgress (encode cs) (y :: right) rule)) := by
  have hsplit : left ++ x :: y :: right = (left ++ [x]) ++ (y :: right) := by simp
  have hneleft : left ++ [x] ≠ [] := by simp
  have hneright : y :: right ≠ [] := by simp
  have hlast : (left ++ [x]).getLast hneleft = x := by simp
  rw [hsplit] at hfits ⊢
  obtain ⟨mid, hleft, hright⟩ := hfits.exists_of_append
  obtain ⟨hleft, hx⟩ := hleft.of_last
  have hy : mid ≤ y.start := (hright.within hneright).1
  have hle : x.stop ≤ y.start := Nat.le_trans hx hy
  have hxstop : IsBoundary cs x.stop := (hleft.of_mem (by simp)).isBoundary_stop
  have hystart : IsBoundary cs y.start := (hright.of_mem (by simp)).isBoundary_start
  have hfirst := (hleft.of_mem (List.head_mem hneleft)).isBoundary_start
  obtain ⟨-, hwithin⟩ := hleft.within hneleft
  obtain ⟨gap, hgap, -⟩ := decode_stretch hxstop hystart
  refine ⟨gap, hgap, ?_⟩
  rw [siblingsProgress_eq (List.append_ne_nil_of_left_ne_nil hneleft _),
    List.head_append_of_ne_nil hneleft, List.getLast_append_of_ne_nil _ hneright,
    siblingsProgress_eq hneleft, between, between, visitAll_append, bind_assoc, bind_assoc]
  cases hvisits :
      visitAll (encode cs) rule (left ++ [x]) ⟨((left ++ [x]).head hneleft).start, [], []⟩ with
  | error halt => rfl
  | ok q =>
    have hq : Lags cs x.stop q := by
      have hlags := lags_of_visitAll hwithin ⟨hfirst, Nat.le_refl _⟩ hvisits
      rwa [hlast] at hlags
    obtain ⟨text, hcopy, hboth⟩ := hq.exists_copyTo hxstop hystart hle hgap
    have hvisit := visitAll_of_slice rule hneright (Nat.le_trans hq.cursor_le hle) hboth
    rw [hlast]
    calc visitAll (encode cs) rule (y :: right) q >>=
          copyTo (encode cs) ((y :: right).getLast hneright).stop
      _ = continuing { q with written := q.written ++ (text ++ gap) }
          (siblingsProgress (encode cs) (y :: right) rule) := by
        rw [hvisit]
        exact visitAll_bind_copyTo (encode cs) rule hneright
          { q with written := q.written ++ (text ++ gap) }
      _ = copyTo (encode cs) x.stop q >>= fun p =>
          continuing { p with written := p.written ++ gap }
            (siblingsProgress (encode cs) (y :: right) rule) := by
        rw [hcopy, ← List.append_assoc]
        rfl

/-- Where the rule gives nothing for a root, rewriting the source is copying what stands before the
children of the root, rewriting these, and copying the rest. -/
theorem wholeProgress_of_children {trees : List (Tree κ)} {start stop : Nat}
    (hfits : Tree.FitAll cs start stop trees) (hne : trees ≠ []) {l : κ} {s : Span}
    (hstart : IsBoundary cs s.start) (hle : s.start ≤ (trees.head hne).start)
    (hrule : rule (.node l s trees) = .ok none) :
    ∃ lead tail, slice (encode cs) 0 (trees.head hne).start = .ok lead ∧
      slice (encode cs) (trees.getLast hne).stop (encode cs).length = .ok tail ∧
      wholeProgress (encode cs) (.node l s trees) rule = (do
        let p ← continuing ⟨0, lead, [.node l s trees]⟩
          (siblingsProgress (encode cs) trees rule)
        .ok ⟨(encode cs).length, p.written ++ tail, p.asked⟩) := by
  obtain ⟨-, hwithin⟩ := hfits.within hne
  have hfirst := (hwithin.of_mem (List.head_mem hne)).isBoundary_start
  have hlast := (hwithin.of_mem (List.getLast_mem hne)).isBoundary_stop
  have hend := isBoundary_length cs
  obtain ⟨lead, more, hlead, hmore, hboth⟩ :=
    exists_slices (isBoundary_zero cs) hstart hfirst (Nat.zero_le _) hle
  obtain ⟨tail, htail, -⟩ := decode_stretch hlast hend
  refine ⟨lead ++ more, tail, hboth, htail, ?_⟩
  have hself : visitAll (encode cs) rule [.node l s trees] ⟨0, [], []⟩ =
      visitAll (encode cs) rule trees ⟨s.start, lead, [.node l s trees]⟩ := by
    have hcopy := copyTo_of_slice (p := (⟨0, [], []⟩ : Progress κ)) (encode cs)
      (Nat.zero_le _) hlead
    simp only [visitAll, visit, hcopy, hrule, bind, Except.bind, List.nil_append]
    cases visitAll (encode cs) rule trees ⟨s.start, lead, [.node l s trees]⟩ <;> rfl
  have hcaught := visitAll_of_slice rule hne
    (p := ⟨s.start, lead, [.node l s trees]⟩) hle hmore
  have hon := visitAll_bind_copyTo (encode cs) rule hne
    ⟨0, lead ++ more, [.node l s trees]⟩
  rw [wholeProgress, between, hself, hcaught, ← hon, bind_assoc]
  cases hvisits : visitAll (encode cs) rule trees
      ⟨(trees.head hne).start, lead ++ more, [.node l s trees]⟩ with
  | error halt => rfl
  | ok q =>
    have hq := lags_of_visitAll hwithin ⟨hfirst, Nat.le_refl _⟩ hvisits
    obtain ⟨text, hcopy, hrest⟩ := hq.exists_copyTo hlast hend hlast.le_length htail
    have hcopy' := copyTo_of_slice (encode cs) (Nat.le_trans hq.cursor_le hlast.le_length) hrest
    calc copyTo (encode cs) (encode cs).length q
      _ = .ok ⟨(encode cs).length, q.written ++ text ++ tail, q.asked⟩ := by
        rw [hcopy', List.append_assoc]
      _ = (copyTo (encode cs) (trees.getLast hne).stop q >>= fun p =>
          .ok ⟨(encode cs).length, p.written ++ tail, p.asked⟩) := by
        rw [hcopy]
        rfl

/-- Rewriting siblings that fit a text ends if the rule never fails.  It gives the same text, or
stops at the same fault, as rewriting them in two parts with the source between the parts copied,
wherever they are parted.  And where the rule gives nothing for a tree whose children they are, and
which does not begin behind them, rewriting the whole source along that tree is rewriting them, with
the source before the first and behind the last copied. -/
theorem siblings_composes {trees : List (Tree κ)} {start stop : Nat}
    (hfits : Tree.FitAll cs start stop trees) (hne : trees ≠ []) (rule : Rule κ) :
    ((∀ t, ∃ found, rule t = .ok found) → ∃ text, siblings (encode cs) trees rule = .ok text) ∧
    (∀ left x y right, trees = left ++ x :: y :: right →
      ∃ gap, slice (encode cs) x.stop y.start = .ok gap ∧
        siblings (encode cs) trees rule = (do
          let before ← siblings (encode cs) (left ++ [x]) rule
          let after ← siblings (encode cs) (y :: right) rule
          return before ++ .ofList gap ++ after)) ∧
    ∀ l s, IsBoundary cs s.start → s.start ≤ (trees.head hne).start →
      rule (.node l s trees) = .ok none →
      ∃ lead tail, slice (encode cs) 0 (trees.head hne).start = .ok lead ∧
        slice (encode cs) (trees.getLast hne).stop (encode cs).length = .ok tail ∧
        whole (encode cs) (.node l s trees) rule = (do
          let inner ← siblings (encode cs) trees rule
          return .ofList lead ++ inner ++ .ofList tail) := by
  refine ⟨fun htotal => ?_, ?_, ?_⟩
  · obtain ⟨-, hwithin⟩ := hfits.within hne
    obtain ⟨first, others, rfl⟩ := List.exists_cons_of_ne_nil hne
    have hrule : ∀ n ∈ uncoveredAll (firing rule) (first :: others),
        rule n = .ok (firing rule n) := by
      intro n _
      obtain ⟨found, hfound⟩ := htotal n
      rw [firing, hfound]
    obtain ⟨text, htext, -⟩ := siblings_eq_spliced hwithin (List.getLast?_eq_some_getLast hne) hrule
    exact ⟨text, htext⟩
  · rintro left x y right rfl
    obtain ⟨gap, hgap, hprogress⟩ := siblingsProgress_append rule hfits
    refine ⟨gap, hgap, ?_⟩
    unfold siblings
    rw [hprogress]
    cases siblingsProgress (encode cs) (left ++ [x]) rule with
    | error halt => rfl
    | ok p =>
      cases siblingsProgress (encode cs) (y :: right) rule with
      | error halt => rfl
      | ok q =>
        simp [result, continuing, bind, Except.bind, pure, Except.pure, String.append_assoc]
  · intro l s hstart hle hrule
    obtain ⟨lead, tail, hlead, htail, hprogress⟩ :=
      wholeProgress_of_children hfits hne hstart hle hrule
    refine ⟨lead, tail, hlead, htail, ?_⟩
    unfold siblings whole
    rw [hprogress]
    cases siblingsProgress (encode cs) trees rule with
    | error halt => rfl
    | ok p =>
      simp [result, continuing, bind, Except.bind, pure, Except.pure, String.append_assoc]

/-- Behind the argument of the first of two siblings a bracket is left, and the cursor stands before
it when the second sibling is reached. -/
theorem siblings_composes_bracket :
    let x : Tree String := .node "x" ⟨5, 6⟩ []
    let inner : Tree String := .node "inner" ⟨3, 7⟩ [x]
    let y : Tree String := .node "y" ⟨10, 11⟩ []
    let rule : Rule String := answering fun t => if t.label = "x" then some "é" else none
    let cs := "é(a(b) , c)".toList
    Tree.FitAll cs 3 11 [inner, y] ∧
      siblings (encode cs) [inner] rule = .ok "a(é)" ∧ siblings (encode cs) [y] rule = .ok "c" ∧
      siblings (encode cs) [inner, y] rule = .ok "a(é) , c" ∧
      whole (encode cs) (.node "call" ⟨2, 12⟩ [inner, y]) rule = .ok "é(a(é) , c)" := by
  intro x inner y rule cs
  have hfits : Tree.FitAll cs 3 11 [inner, y] := by
    simp only [cs, inner, x, y, Tree.FitAll, Tree.Fits, Tree.start_node, Tree.stop_node]
    decide
  have hinner : siblings (encode cs) [inner] rule = .ok "a(é)" := rfl
  have hy : siblings (encode cs) [y] rule = .ok "c" := rfl
  obtain ⟨-, hparts, hwhole⟩ := siblings_composes hfits (by simp) rule
  obtain ⟨gap, hgap, hboth⟩ := hparts [] inner y [] rfl
  obtain ⟨lead, tail, hlead, htail, hcall⟩ := hwhole "call" ⟨2, 12⟩ (by decide) (by decide) rfl
  obtain rfl : gap = " , ".toList := (Except.ok.inj hgap).symm
  obtain rfl : lead = "é(".toList := (Except.ok.inj hlead).symm
  obtain rfl : tail = ")".toList := (Except.ok.inj htail).symm
  rw [List.nil_append, hinner, hy] at hboth
  rw [hboth] at hcall
  exact ⟨hfits, hinner, hy, hboth, hcall⟩

end Rewrite

end DeclBundle
