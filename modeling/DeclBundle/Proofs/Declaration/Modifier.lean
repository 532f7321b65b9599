import DeclBundle.Proofs.Declaration.Around
import DeclBundle.Proofs.Rewrite.Pieces
set_option autoImplicit false

/-!
# A modifier that begins its line

A declaration whose `declare` begins its line is replaced as a whole: a second walk rewrites what
stands behind the modifier, and its text takes the place of the declaration.  The rules for single
nodes know no such declarations; with them alone the walk goes on into each, and only the word goes.
Both contents are the source with edits in order.  Those of the second are made in the first as
well, and what the first makes besides them is to delete what stands around the modifiers
(`moduleContent_eq_plainContent`).
-/

namespace DeclBundle.Rewrite

open Utf8

variable {κ : Type} {cs : List Char} {answer : Tree κ → Option String}

/-! ## The edits of a walk -/

/-- The texts that stand for some trees, as edits. -/
def replacements (answer : Tree κ → Option String) (ts : List (Tree κ)) : List Edit :=
  ts.filterMap fun t => (answer t).map (Edit.mk t.span)

theorem replacements_append (answer : Tree κ → Option String) (ts us : List (Tree κ)) :
    replacements answer (ts ++ us) = replacements answer ts ++ replacements answer us :=
  List.filterMap_append

mutual

/-- A tree that fits becomes what its source becomes by the replacements in it. -/
theorem spliced_eq_edited : ∀ {t : Tree κ}, t.Fits cs →
    InOrder t.start t.stop (replacements answer (uncovered answer t)) ∧
      spliced (encode cs) answer t =
        edited (encode cs) t.start t.stop (replacements answer (uncovered answer t))
  | .node l s ts, hfits => by
    have hle : s.start ≤ s.stop := hfits.start_le_stop
    cases hanswer : answer (.node l s ts) with
    | some text =>
      have hself : replacements answer (uncovered answer (.node l s ts)) = [⟨s, text⟩] := by
        simp [uncovered, replacements, hanswer, Tree.span]
      rw [hself]
      exact ⟨⟨Nat.le_refl _, hle, Nat.le_refl _⟩, by simp [spliced, hanswer, edited]⟩
    | none =>
      have hself : replacements answer (uncovered answer (.node l s ts)) =
          replacements answer (uncoveredAll answer ts) := by
        simp [uncovered, replacements, hanswer]
      rw [hself]
      obtain ⟨hin, hbytes⟩ := splicedAll_eq_edited hfits.children
      exact ⟨hin, by simpa [spliced, hanswer] using hbytes⟩

theorem splicedAll_eq_edited : ∀ {ts : List (Tree κ)} {start stop : Nat},
    Tree.FitAll cs start stop ts →
    InOrder start stop (replacements answer (uncoveredAll answer ts)) ∧
      splicedAll (encode cs) answer start stop ts =
        edited (encode cs) start stop (replacements answer (uncoveredAll answer ts))
  | [], start, stop, hfits => ⟨hfits.start_le_stop, rfl⟩
  | t :: ts, start, stop, hfits => by
    obtain ⟨hstart, ht, hts⟩ := Tree.fitAll_cons.1 hfits
    obtain ⟨hin, hbytes⟩ := spliced_eq_edited ht
    obtain ⟨hrest, hrestBytes⟩ := splicedAll_eq_edited hts
    have hfirst := hin.of_le hstart
    rw [uncoveredAll, replacements_append]
    refine ⟨hfirst.append hrest, ?_⟩
    rw [edited_append _ hfirst hrest, splicedAll, hbytes, hrestBytes,
      stretch_append_edited _ hstart hin]

end

/-- Rewriting the whole source along a tree that fits it makes the replacements of the trees that
the rule is asked about, if it does not fail for one of them. -/
theorem whole_eq_edited (rule : Rule κ) {root : Tree κ} (hfits : root.Fits cs)
    (hrule : ∀ t ∈ uncovered (firing rule) root, ∃ found, rule t = .ok found) :
    ∃ text, whole (encode cs) root rule = .ok text ∧
      (wholeProgress (encode cs) root rule).map (·.asked) = .ok (uncovered (firing rule) root) ∧
      encode text.toList = edited (encode cs) 0 (encode cs).length
        (replacements (firing rule) (uncovered (firing rule) root)) := by
  have hanswers : ∀ t ∈ uncovered (firing rule) root, rule t = .ok (firing rule t) := by
    intro t ht
    obtain ⟨found, hfound⟩ := hrule t ht
    simp only [firing, hfound]
  obtain ⟨q, hq, hwritten, hasked⟩ := wholeProgress_advances hfits hanswers
  obtain ⟨hin, hspliced⟩ : InOrder root.start root.stop (replacements _ _) ∧ _ =
      edited _ _ _ (replacements (firing rule) (uncovered (firing rule) root)) :=
    spliced_eq_edited hfits
  have hstop : root.stop ≤ (encode cs).length := hfits.isBoundary_stop.le_length
  have hend : InOrder root.stop (encode cs).length [] := hstop
  have hwhole := edited_append (encode cs) (hin.of_le (Nat.zero_le _)) hend
  rw [List.append_nil] at hwhole
  refine ⟨.ofList q.written, by simp only [whole, hq, result],
    by simp only [hq, Except.map, hasked], ?_⟩
  rw [String.toList_ofList, hwritten, hspliced, hwhole, ← stretch_zero,
    stretch_append_edited _ (Nat.zero_le _) hin, edited, stretch_length]

/-! ## Two kinds of edits -/

/-- Whether a list is made up of two others, each in its order. -/
inductive Interleaves {α : Type} : List α → List α → List α → Prop where
  | nil : Interleaves [] [] []
  | left {x : α} {xs ys zs : List α} (h : Interleaves xs ys zs) :
      Interleaves (x :: xs) ys (x :: zs)
  | right {y : α} {xs ys zs : List α} (h : Interleaves xs ys zs) :
      Interleaves xs (y :: ys) (y :: zs)

theorem Interleaves.append {α : Type} {xs ys zs xs' ys' zs' : List α} (h : Interleaves xs ys zs)
    (h' : Interleaves xs' ys' zs') : Interleaves (xs ++ xs') (ys ++ ys') (zs ++ zs') := by
  induction h with
  | nil => exact h'
  | left _ ih => exact .left ih
  | right _ ih => exact .right ih

end DeclBundle.Rewrite

namespace DeclBundle.Declaration

open Utf8 Rewrite

variable {id : String} {cs : List Char} {place : Place} {n : Node}

/-! ## The rules for single nodes alone -/

/-- The rules for single nodes in the module `id`, without those for whole declarations. -/
def plainRules (id : String) (source : List UInt8) : Rule Located :=
  fun t => nodeRule id source t.label.1 t.label.2

/-- The content of the module `id` by the rules for single nodes alone. -/
def plainContent (id : String) (source : List UInt8) (file : Node) : Except Utf8.Fault String :=
  whole source (locate .root file) (plainRules id source)

/-- What those rules give for a tree. -/
def plain (id : String) (source : List UInt8) : Tree Located → Option String :=
  firing (plainRules id source)

/-- To delete what stands between the modifier of a declaration and the next part of it, and what
stands before the modifier in the declaration if it does not begin it. -/
def besideModifier (n : Node) : List Edit :=
  match n.children with
  | modifier :: next :: _ =>
    (if n.start = modifier.start then [] else [⟨⟨n.start, modifier.start⟩, ""⟩]) ++
      [⟨⟨modifier.stop, next.start⟩, ""⟩]
  | _ => []

/-- To delete what stands beside the modifiers that begin their lines, for the declarations among
some trees. -/
def gaps (source : List UInt8) (ts : List (Tree Located)) : List Edit :=
  (ts.filter fun t => beginsLineAmbient source t.label.1).flatMap fun t => besideModifier t.label.1

theorem gaps_append (source : List UInt8) (ts us : List (Tree Located)) :
    gaps source (ts ++ us) = gaps source ts ++ gaps source us := by
  rw [gaps, List.filter_append, List.flatMap_append, gaps, gaps]

/-- The rules for single nodes have no text for a declaration behind `declare`. -/
theorem nodeRule_ambient {source : List UInt8} (h : n.label.type = "ambient_declaration") :
    nodeRule id source n place = .ok none := by
  simp [nodeRule, h, isModuleSource, isImportArgument]

theorem nodeRule_modifier {source : List UInt8} (htype : n.label.type = "declare")
    (hnamed : n.label.isNamed = false) : nodeRule id source n place = .ok (some "") := by
  simp [nodeRule, htype, hnamed]

/-- For a located node those rules give what they say of the node at its place. -/
theorem plain_locate (source : List UInt8) {found : Option String}
    (h : nodeRule id source n place = .ok found) :
    plain id source (locate place n) = found := by
  simp [plain, firing, plainRules, h]

mutual

/-- A walk along a located node asks about nodes of it at their places. -/
theorem label_mem_placed {t : Tree Located} {answer : Tree Located → Option String} :
    ∀ {place : Place} {n : Node}, t ∈ uncovered answer (locate place n) → t.label ∈ placed place n
  | place, .node l s ns, ht => by
    rw [locate, uncovered, List.mem_cons] at ht
    rw [placed, List.mem_cons]
    rcases ht with rfl | ht
    · exact .inl rfl
    · split at ht
      · cases ht
      · exact .inr (label_mem_placedAll ht)

theorem label_mem_placedAll {t : Tree Located} {answer : Tree Located → Option String} :
    ∀ {parent : Node} {place : Place} {before ns : List Node},
    t ∈ uncoveredAll answer (locateAll parent place before ns) →
    t.label ∈ placedAll parent place before ns
  | _, _, _, [], ht => by simp [locateAll, uncoveredAll] at ht
  | parent, place, before, n :: ns, ht => by
    rw [locateAll, uncoveredAll, List.mem_append] at ht
    rw [placedAll, List.mem_append]
    exact ht.imp label_mem_placed label_mem_placedAll

end

/-- The rules for single nodes do not fail on a tree that fits. -/
theorem exists_plainRules (id : String) {t : Tree Located} {answer : Tree Located → Option String}
    (hfits : n.Fits cs) (ht : t ∈ uncovered answer (locate place n)) :
    ∃ found, plainRules id (encode cs) t = .ok found :=
  exists_nodeRule id t.label.2 (fits_of_mem_placed hfits (label_mem_placed ht))

/-! ## The changes and the plain replacements -/

/-- Whether the replacements that the rules for single nodes make in a part of the source, together
with the deletions beside modifiers, make the same of it as other edits. -/
structure Splits (id : String) (cs : List Char) (trees : List (Tree Located)) (start stop : Nat)
    (merged edits : List Edit) : Prop where
  interleaves : Interleaves
    (replacements (plain id (encode cs)) (uncoveredAll (plain id (encode cs)) trees))
    (gaps (encode cs) (uncoveredAll (plain id (encode cs)) trees)) merged
  inOrder : InOrder start stop merged
  edits_inOrder : InOrder start stop edits
  edited_eq : edited (encode cs) start stop merged = edited (encode cs) start stop edits

variable {start stop : Nat} {merged edits others : List Edit} {trees : List (Tree Located)}

theorem Splits.nil (h : start ≤ stop) : Splits id cs [] start stop [] [] where
  interleaves := .nil
  inOrder := h
  edits_inOrder := h
  edited_eq := rfl

/-- Neighbouring parts of the source join. -/
theorem Splits.cons {t : Tree Located} {more : List Edit}
    (ht : Splits id cs [t] t.start t.stop merged edits)
    (hts : Splits id cs trees t.stop stop more others) (hle : start ≤ t.start) :
    Splits id cs (t :: trees) start stop (merged ++ more) (edits ++ others) where
  interleaves := by
    have hall : uncoveredAll (plain id (encode cs)) (t :: trees) =
        uncoveredAll (plain id (encode cs)) [t] ++ uncoveredAll (plain id (encode cs)) trees := by
      simp [uncoveredAll]
    rw [hall, replacements_append, gaps_append]
    exact ht.interleaves.append hts.interleaves
  inOrder := (ht.inOrder.of_le hle).append hts.inOrder
  edits_inOrder := (ht.edits_inOrder.of_le hle).append hts.edits_inOrder
  edited_eq := by
    rw [edited_append _ (ht.inOrder.of_le hle) hts.inOrder,
      edited_append _ (ht.edits_inOrder.of_le hle) hts.edits_inOrder, hts.edited_eq,
      ← stretch_append_edited _ hle ht.inOrder, ← stretch_append_edited _ hle ht.edits_inOrder,
      ht.edited_eq]

/-- In a node for which a rule gives a text nothing else is asked about. -/
theorem asked_of_text {text : String} (hbegins : beginsLineAmbient (encode cs) n = false)
    (hrule : nodeRule id (encode cs) n place = .ok (some text)) :
    replacements (plain id (encode cs)) (uncoveredAll (plain id (encode cs)) [locate place n]) =
        [⟨n.span, text⟩] ∧
      gaps (encode cs) (uncoveredAll (plain id (encode cs)) [locate place n]) = [] := by
  have hplain := plain_locate (encode cs) hrule
  have hasked : uncoveredAll (plain id (encode cs)) [locate place n] = [locate place n] := by
    cases n with
    | node l s ns =>
      rw [locate] at hplain
      simp [uncoveredAll, locate, uncovered, hplain]
  rw [hasked]
  exact ⟨by simp [replacements, hplain], by simp [gaps, hbegins]⟩

/-- In a node for which no rule gives a text the children are asked about behind it. -/
theorem asked_of_none (hrule : nodeRule id (encode cs) n place = .ok none) :
    let asked := uncoveredAll (plain id (encode cs)) (locateAll n place [] n.children)
    replacements (plain id (encode cs)) (uncoveredAll (plain id (encode cs)) [locate place n]) =
        replacements (plain id (encode cs)) asked ∧
      gaps (encode cs) (uncoveredAll (plain id (encode cs)) [locate place n]) =
        (if beginsLineAmbient (encode cs) n then besideModifier n else []) ++
          gaps (encode cs) asked := by
  intro asked
  have hplain := plain_locate (encode cs) hrule
  have hasked : uncoveredAll (plain id (encode cs)) [locate place n] = locate place n :: asked := by
    cases n with
    | node l s ns =>
      rw [locate] at hplain
      simp [asked, uncoveredAll, locate, uncovered, hplain]
  rw [hasked]
  refine ⟨by simp [replacements, hplain], ?_⟩
  cases hbegins : beginsLineAmbient (encode cs) n <;> simp [gaps, hbegins]

/-- A node for which a rule gives a text is replaced by it. -/
theorem Splits.replaced {text : String} (hfits : n.Fits cs)
    (hbegins : beginsLineAmbient (encode cs) n = false)
    (hrule : nodeRule id (encode cs) n place = .ok (some text)) :
    Splits id cs [locate place n] n.start n.stop [⟨n.span, text⟩] [⟨n.span, text⟩] := by
  have hin : InOrder n.start n.stop [⟨n.span, text⟩] :=
    ⟨Nat.le_refl _, hfits.start_le_stop, Nat.le_refl _⟩
  obtain ⟨hreplacements, hgaps⟩ := asked_of_text hbegins hrule
  refine ⟨?_, hin, hin, rfl⟩
  rw [hreplacements, hgaps]
  exact .left .nil

/-- A node that stays becomes what its children make of it. -/
theorem Splits.kept (hbegins : beginsLineAmbient (encode cs) n = false)
    (hrule : nodeRule id (encode cs) n place = .ok none)
    (h : Splits id cs (locateAll n place [] n.children) n.start n.stop merged edits) :
    Splits id cs [locate place n] n.start n.stop merged edits where
  interleaves := by
    obtain ⟨hreplacements, hgaps⟩ := asked_of_none hrule
    rw [hreplacements, hgaps, hbegins]
    exact h.interleaves
  inOrder := h.inOrder
  edits_inOrder := h.edits_inOrder
  edited_eq := h.edited_eq

/-- Where a modifier goes with what stands beside it, the next part comes to stand at the beginning
of the declaration. -/
theorem besideModifier_edited {source : List UInt8} {modifier next : Node} {more : List Node}
    (hchildren : n.children = modifier :: next :: more) (hle : n.start ≤ modifier.start)
    (hmodifier : modifier.start ≤ modifier.stop) (hgap : modifier.stop ≤ next.start)
    (hmerged : InOrder next.start stop merged) :
    ∃ front, Interleaves [⟨modifier.span, ""⟩] (besideModifier n) front ∧
      InOrder n.start stop (front ++ merged) ∧
      edited source n.start stop (front ++ merged) = edited source next.start stop merged := by
  have hspan : modifier.span.start = modifier.start := rfl
  have hspan' : modifier.span.stop = modifier.stop := rfl
  by_cases hbegins : n.start = modifier.start
  · refine ⟨[⟨modifier.span, ""⟩, ⟨⟨modifier.stop, next.start⟩, ""⟩], ?_, ?_, ?_⟩
    · simpa [besideModifier, hchildren, hbegins] using Interleaves.left (.right .nil)
    · exact ⟨hle, hmodifier, Nat.le_refl _, hgap, hmerged⟩
    · simp [edited, hbegins, hspan, hspan']
  · refine ⟨[⟨⟨n.start, modifier.start⟩, ""⟩, ⟨modifier.span, ""⟩,
      ⟨⟨modifier.stop, next.start⟩, ""⟩], ?_, ?_, ?_⟩
    · simpa [besideModifier, hchildren, hbegins] using Interleaves.right (.left (.right .nil))
    · exact ⟨Nat.le_refl _, hle, Nat.le_refl _, hmodifier, Nat.le_refl _, hgap, hmerged⟩
    · simp [edited, hspan, hspan']

/-- A declaration whose modifier begins its line loses what stands beside the modifier. -/
theorem Splits.leading {modifier next : Node} {more : List Node} (hfits : n.Fits cs)
    (hbegins : beginsLineAmbient (encode cs) n = true)
    (hchildren : n.children = modifier :: next :: more) (hnamed : modifier.label.isNamed = false)
    (h : Splits id cs (locateAll n place [modifier] (next :: more)) next.start n.stop merged
      edits) :
    ∃ all, Splits id cs [locate place n] n.start n.stop all
      (⟨⟨n.start, next.start⟩, ""⟩ :: edits) := by
  obtain ⟨htype, -, modifier', next', more', hchildren', hdeclare⟩ :=
    beginsLineAmbient_iff.1 hbegins
  obtain ⟨rfl, -⟩ : modifier = modifier' ∧ _ := List.cons.inj (hchildren.symm.trans hchildren')
  have hall := hfits.children
  rw [hchildren] at hall
  obtain ⟨hle, hmodifier, hbehind⟩ := Tree.fitAll_cons.1 hall
  have hgap := (Tree.fitAll_cons.1 hbehind).1
  have hmodifierRule : nodeRule id (encode cs) modifier (.inside n place []) = .ok (some "") :=
    nodeRule_modifier hdeclare hnamed
  have hmodifierBegins : beginsLineAmbient (encode cs) modifier = false :=
    beginsLineAmbient_of_type (by simp [hdeclare])
  obtain ⟨front, hfront, hin, hbytes⟩ :=
    besideModifier_edited hchildren hle hmodifier.start_le_stop hgap h.inOrder
  have hrule : nodeRule id (encode cs) n place = .ok none := nodeRule_ambient htype
  -- the declaration is asked about, then the modifier, then what stands behind it
  obtain ⟨hself, hselfGaps⟩ := asked_of_none hrule
  obtain ⟨hword, hwordGaps⟩ := asked_of_text hmodifierBegins hmodifierRule
  have hbehind : uncoveredAll (plain id (encode cs)) (locateAll n place [] n.children) =
      uncoveredAll (plain id (encode cs)) [locate (.inside n place []) modifier] ++
        uncoveredAll (plain id (encode cs)) (locateAll n place [modifier] (next :: more)) := by
    rw [hchildren, locateAll]
    simp [uncoveredAll]
  rw [hbehind, replacements_append, hword] at hself
  rw [hbehind, gaps_append, hwordGaps, hbegins, if_pos rfl, List.nil_append] at hselfGaps
  have hspan : n.start ≤ next.start :=
    Nat.le_trans hle (Nat.le_trans hmodifier.start_le_stop hgap)
  refine ⟨front ++ merged, ?_, hin, ⟨Nat.le_refl _, hspan, h.edits_inOrder⟩, ?_⟩
  · rw [hself, hselfGaps]
    exact hfront.append h.interleaves
  · rw [hbytes, h.edited_eq]
    simp [edited]

mutual

/-- The changes in a node make of it what the replacements of the rules for single nodes make of it
together with the deletions beside the modifiers that begin their lines. -/
theorem exists_splits (id : String) (place : Place) : ∀ {n : Node}, n.Fits cs →
    (∀ p ∈ placed place n, p.1.label.type = "declare" → p.1.label.isNamed = false) →
    ∃ merged, Splits id cs [locate place n] n.start n.stop merged (editsIn id (encode cs) place n)
  | .node l s ns, hfits, hwords => by
    have hchildWords : ∀ p ∈ placedAll (.node l s ns) place [] ns,
        p.1.label.type = "declare" → p.1.label.isNamed = false :=
      fun p hp => hwords p (by simp [placed, hp])
    cases hbegins : beginsLineAmbient (encode cs) (.node l s ns) with
    | true =>
      obtain ⟨-, -, modifier, next, more, hchildren, hdeclare⟩ := beginsLineAmbient_iff.1 hbegins
      obtain rfl : ns = modifier :: next :: more := hchildren
      obtain ⟨-, hrest⟩ := fitAll_behind hfits.children
      -- what stands behind the modifier is rewritten alike, by a walk of its own or by the same one
      rw [placedAll] at hchildWords
      have hmodifier : (modifier, Place.inside (.node l s (modifier :: next :: more)) place []) ∈
          placed (.inside (.node l s (modifier :: next :: more)) place []) modifier := by
        cases modifier
        exact List.mem_cons_self
      have hnamed : modifier.label.isNamed = false :=
        hchildWords _ (List.mem_append_left _ hmodifier) hdeclare
      obtain ⟨merged, hmerged⟩ :=
        exists_splitsAll id _ place [modifier] hrest
          fun p hp => hchildWords p (List.mem_append_right _ hp)
      obtain ⟨all, hall⟩ := hmerged.leading hfits hbegins rfl hnamed
      exact ⟨all, by simpa [editsIn, editsInRest, change?, hbegins] using hall⟩
    | false =>
      obtain ⟨found, hrule⟩ := exists_nodeRule id place hfits
      cases found with
      | some text =>
        have hedits : editsIn id (encode cs) place (.node l s ns) = [⟨s, text⟩] := by
          simp [editsIn, change?, hbegins, hrule]
        exact ⟨_, by rw [hedits]; exact Splits.replaced hfits hbegins hrule⟩
      | none =>
        have hedits : editsIn id (encode cs) place (.node l s ns) =
            editsInAll id (encode cs) (.node l s ns) place [] ns := by
          simp [editsIn, change?, hbegins, hrule]
        obtain ⟨merged, hmerged⟩ := exists_splitsAll id _ place [] hfits.children hchildWords
        exact ⟨merged, by rw [hedits]; exact hmerged.kept hbegins hrule⟩

theorem exists_splitsAll (id : String) (parent : Node) (place : Place) :
    ∀ {ns : List Node} (before : List Node) {start stop : Nat}, Tree.FitAll cs start stop ns →
    (∀ p ∈ placedAll parent place before ns,
      p.1.label.type = "declare" → p.1.label.isNamed = false) →
    ∃ merged, Splits id cs (locateAll parent place before ns) start stop merged
      (editsInAll id (encode cs) parent place before ns)
  | [], _, _, _, hfits, _ =>
    ⟨[], by simpa [locateAll, editsInAll] using Splits.nil hfits.start_le_stop⟩
  | n :: ns, before, start, stop, hfits, hwords => by
    obtain ⟨hstart, hn, hns⟩ := Tree.fitAll_cons.1 hfits
    obtain ⟨merged, hmerged⟩ := exists_splits id (.inside parent place before) hn
      fun p hp => hwords p (by simp [placedAll, hp])
    obtain ⟨more, hmore⟩ := exists_splitsAll id parent place (n :: before) hns
      fun p hp => hwords p (by simp [placedAll, hp])
    refine ⟨merged ++ more, ?_⟩
    rw [locateAll, editsInAll]
    exact Splits.cons (by simpa using hmerged) (by simpa using hmore) (by simpa using hstart)

end

/-! ## The content -/

/-- For every tree that fits a text, whose declarations behind `declare` end with their last child
and in which `declare` is a word of the language, the content of a module differs from its content
by the rules for single nodes in the deletions beside the modifiers that begin their lines only.
Both are the text with edits in order: those of the second are the replacements of the trees that
the rules are asked about, and those of the first are these replacements and, among them, the
deletions for the declarations asked about. -/
theorem moduleContent_eq_plainContent {tree : Node} (id : String) (hfits : tree.Fits cs)
    (hends : ∀ p ∈ placed .root tree, p.1.label.type = "ambient_declaration" → EndsWithLast p.1)
    (hwords : ∀ p ∈ placed .root tree, p.1.label.type = "declare" → p.1.label.isNamed = false) :
    ∃ content plainText asked edits,
      moduleContent id (encode cs) tree = .ok content ∧
      plainContent id (encode cs) tree = .ok plainText ∧
      (wholeProgress (encode cs) (locate .root tree) (plainRules id (encode cs))).map (·.asked) =
        .ok asked ∧
      Interleaves (replacements (plain id (encode cs)) asked) (gaps (encode cs) asked) edits ∧
      InOrder 0 (encode cs).length edits ∧
      encode plainText.toList =
        edited (encode cs) 0 (encode cs).length (replacements (plain id (encode cs)) asked) ∧
      encode content.toList = edited (encode cs) 0 (encode cs).length edits := by
  obtain ⟨content, hcontent, hbytes, hin⟩ := exists_content id hfits hends
  have hlocated : (locate .root tree).Fits cs := fits_locate hfits
  obtain ⟨plainText, hplain, hasked, hplainBytes⟩ :=
    whole_eq_edited (plainRules id (encode cs)) hlocated
      fun t ht => exists_plainRules id hfits ht
  obtain ⟨merged, hmerged⟩ := exists_splits id .root hfits hwords
  have hinterleaves := hmerged.interleaves
  simp only [uncoveredAll, List.append_nil] at hinterleaves
  have hstop : tree.stop ≤ (encode cs).length := hfits.isBoundary_stop.le_length
  have hend : InOrder tree.stop (encode cs).length [] := hstop
  have hmergedIn : InOrder 0 tree.stop merged := hmerged.inOrder.of_le (Nat.zero_le _)
  have hsame := edited_append (encode cs) hmergedIn hend
  have hsame' := edited_append (encode cs) (hin.of_le (Nat.zero_le _)) hend
  rw [List.append_nil] at hsame hsame'
  refine ⟨content, plainText, _, merged, hcontent, hplain, hasked, hinterleaves,
    by simpa using hmergedIn.append hend, hplainBytes, ?_⟩
  rw [hbytes, hsame, hsame', ← stretch_append_edited _ (Nat.zero_le _) hin,
    ← stretch_append_edited _ (Nat.zero_le _) hmerged.inOrder, hmerged.edited_eq]

/-- A namespace and a declaration in it begin their lines with a modifier. -/
theorem moduleContent_eq_plainContent_nested :
    let inner : Node := .node { type := "declare", isNamed := false } ⟨22, 29⟩ []
    let binding : Node := .node { type := "lexical_declaration" } ⟨31, 36⟩ []
    let nested : Node := .node { type := "ambient_declaration" } ⟨22, 36⟩ [inner, binding]
    let outer : Node := .node { type := "declare", isNamed := false } ⟨0, 7⟩ []
    let space : Node := .node { type := "internal_module" } ⟨8, 38⟩ [nested]
    let ambient : Node := .node { type := "ambient_declaration" } ⟨0, 38⟩ [outer, space]
    let tree : Node := .node { type := "program" } ⟨0, 38⟩ [ambient]
    let cs := "declare namespace N \x7b\ndeclare  let b \x7d".toList
    tree.Fits cs ∧
      (∀ p ∈ placed .root tree, p.1.label.type = "ambient_declaration" → EndsWithLast p.1) ∧
      (∀ p ∈ placed .root tree, p.1.label.type = "declare" → p.1.label.isNamed = false) ∧
      (∃ edits, Interleaves [⟨⟨0, 7⟩, ""⟩, ⟨⟨22, 29⟩, ""⟩] [⟨⟨7, 8⟩, ""⟩, ⟨⟨29, 31⟩, ""⟩] edits ∧
        InOrder 0 38 edits ∧
        encode "namespace N \x7b\nlet b \x7d".toList = edited (encode cs) 0 38 edits) ∧
      plainContent "m" (encode cs) tree = .ok " namespace N \x7b\n  let b \x7d" ∧
      moduleContent "m" (encode cs) tree = .ok "namespace N \x7b\nlet b \x7d" := by
  intro inner binding nested outer space ambient tree cs
  have hfits : tree.Fits cs := by
    simp only [tree, ambient, outer, space, nested, inner, binding, Tree.Fits, Tree.FitAll,
      Tree.start_node, Tree.stop_node]
    decide
  have hends : ∀ p ∈ placed .root tree,
      p.1.label.type = "ambient_declaration" → EndsWithLast p.1 := by decide
  have hwords : ∀ p ∈ placed .root tree,
      p.1.label.type = "declare" → p.1.label.isNamed = false := by decide
  have hplain : plainContent "m" (encode cs) tree = .ok " namespace N \x7b\n  let b \x7d" := by
    decide +kernel
  have htext : moduleContent "m" (encode cs) tree = .ok "namespace N \x7b\nlet b \x7d" := by
    decide +kernel
  obtain ⟨content, -, asked, edits, hcontent, -, hasked, hinterleaves, hin, -, hbytes⟩ :=
    moduleContent_eq_plainContent "m" hfits hends hwords
  have hlocated : (locate .root tree).Fits cs := fits_locate hfits
  obtain ⟨-, -, hall, -⟩ := whole_eq_edited (plainRules "m" (encode cs)) hlocated
    fun t ht => exists_plainRules "m" hfits ht
  obtain rfl := Except.ok.inj (hasked.symm.trans hall)
  obtain rfl := Except.ok.inj (hcontent.symm.trans htext)
  have hreplacements : replacements (plain "m" (encode cs))
      (uncovered (firing (plainRules "m" (encode cs))) (locate .root tree)) =
        [⟨⟨0, 7⟩, ""⟩, ⟨⟨22, 29⟩, ""⟩] := by rfl
  have hgaps : gaps (encode cs)
      (uncovered (firing (plainRules "m" (encode cs))) (locate .root tree)) =
        [⟨⟨7, 8⟩, ""⟩, ⟨⟨29, 31⟩, ""⟩] := by rfl
  rw [hreplacements, hgaps] at hinterleaves
  exact ⟨hfits, hends, hwords, ⟨edits, hinterleaves, hin, hbytes⟩, hplain, htext⟩

end DeclBundle.Declaration
