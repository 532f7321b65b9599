import DeclBundle.Proofs.Declaration.Change
set_option autoImplicit false

/-!
# The content of a bundled module

The rules enter the rewriter again for a declaration whose `declare` begins its line.  That they are
given a bound on the height of trees for this does not show (`rules_eq`).  On a tree that fits the
source no rule fails (`exists_nodeRule`), and a walk makes the changes of the nodes that are not
hidden, in order, and nothing else (`makes_locate`).
-/

namespace DeclBundle.Declaration

open Utf8 Rewrite

variable {id : String} {source : List UInt8}

/-! ## The rules without a bound -/

/-- A bound that is high enough does not matter. -/
theorem rulesUpTo_eq {bound other : Nat} {t : Tree Located} (hbound : t.height ≤ bound)
    (hother : t.height ≤ other) : rulesUpTo id source bound t = rulesUpTo id source other t := by
  induction bound generalizing other t with
  | zero => cases t with
    | node l s cs => simp [Tree.height] at hbound
  | succ bound ih =>
    cases other with
    | zero => cases t with
      | node l s cs => simp [Tree.height] at hother
    | succ other =>
      have hsiblings : siblings source (t.children.drop 1) (rulesUpTo id source bound) =
          siblings source (t.children.drop 1) (rulesUpTo id source other) := by
        apply siblings_congr
        intro m hm
        have hlt : m.height < t.height := Nat.lt_of_le_of_lt hm (Tree.heightAll_drop_children_lt 1 t)
        exact ih (by omega) (by omega)
      simp only [rulesUpTo, hsiblings]

/-- What the rules say of a tree: a declaration whose `declare` begins its line becomes what the
rules make of the rest of it. -/
theorem rules_eq (id : String) (source : List UInt8) (t : Tree Located) :
    rules id source t =
      if beginsLineAmbient source t.label.1 then
        (siblings source (t.children.drop 1) (rules id source)).map some
      else nodeRule id source t.label.1 t.label.2 := by
  have hheight : t.height = t.height - 1 + 1 := by
    cases t with
    | node l s cs => simp [Tree.height]
  have hsiblings : siblings source (t.children.drop 1) (rulesUpTo id source (t.height - 1)) =
      siblings source (t.children.drop 1) (rules id source) := by
    apply siblings_congr
    intro m hm
    have hlt : m.height < t.height := Nat.lt_of_le_of_lt hm (Tree.heightAll_drop_children_lt 1 t)
    exact rulesUpTo_eq (by omega) (Nat.le_refl _)
  rw [← hsiblings, rules, hheight]
  rfl

/-! ## No rule fails -/

variable {cs : List Char} {n : Node} {place : Place}

/-- A node that fits a text has a text. -/
theorem exists_textOf (h : n.Fits cs) : ∃ text, textOf (encode cs) n = .ok text := by
  obtain ⟨text, htext, -⟩ := decode_stretch h.isBoundary_start h.isBoundary_stop
  refine ⟨.ofList text, ?_⟩
  rw [textOf, slice]
  exact congrArg (Except.map String.ofList) htext

theorem exists_valueOf (h : n.Fits cs) : ∃ value, valueOf (encode cs) n = .ok value := by
  obtain ⟨text, htext⟩ := exists_textOf h
  exact ⟨unquoted text, by simp [valueOf, htext, Except.map]⟩

theorem fits_of_firstOfType {type : String} {child : Node} (h : n.Fits cs)
    (hchild : firstOfType? n type = some child) : child.Fits cs :=
  h.of_mem_children (List.mem_of_find?_eq_some hchild)

theorem fits_of_field {name : String} {child : Node} (h : n.Fits cs)
    (hchild : field? n name = some child) : child.Fits cs :=
  h.of_mem_children (List.mem_of_find?_eq_some hchild)

/-- A computation that goes on from a result with one that has a result has one. -/
theorem exists_bind {ε α β : Type} {x : Except ε α} {f : α → Except ε β} (hx : ∃ a, x = .ok a)
    (hf : ∀ a, x = .ok a → ∃ b, f a = .ok b) : ∃ b, (x >>= f) = .ok b := by
  obtain ⟨a, ha⟩ := hx
  obtain ⟨b, hb⟩ := hf a ha
  exact ⟨b, bind_eq_ok_iff.2 ⟨a, ha, hb⟩⟩

theorem exists_boundName? (h : n.Fits cs) : ∃ found, boundName? (encode cs) n = .ok found := by
  unfold boundName?
  split
  · cases hname : field? n "name" with
    | none => exact ⟨none, rfl⟩
    | some name =>
      refine exists_bind (exists_textOf (fits_of_field h hname)) fun text _ => ?_
      cases hother : field? n "alias" with
      | none => exact ⟨some text, rfl⟩
      | some other =>
        refine exists_bind (exists_textOf (fits_of_field h hother)) fun given _ => ?_
        exact ⟨some (aliasText text given), rfl⟩
  · exact ⟨none, rfl⟩

theorem exists_boundNames {ns : List Node} (h : ∀ n ∈ ns, n.Fits cs) :
    ∃ texts, boundNames (encode cs) ns = .ok texts := by
  induction ns with
  | nil => exact ⟨[], rfl⟩
  | cons n ns ih =>
    have hrest := ih fun m hm => h m (by simp [hm])
    refine exists_bind (exists_boundName? (h n (by simp))) fun found _ => ?_
    cases found with
    | none => exact hrest
    | some text => exact exists_bind hrest fun texts _ => ⟨text :: texts, rfl⟩

theorem exists_importRule (h : n.Fits cs) : ∃ found, importRule id (encode cs) n = .ok found := by
  unfold importRule
  split
  · rename_i named clause hnamed hclause
    have hfits := fits_of_firstOfType h hclause
    refine exists_bind (exists_valueOf (fits_of_field h hnamed)) fun value _ => ?_
    cases hname : firstOfType? clause "identifier" with
    | some name =>
      refine exists_bind (exists_textOf (fits_of_firstOfType hfits hname)) fun text _ => ?_
      exact ⟨some (importText text (ModuleId.resolve id value)), rfl⟩
    | none =>
      cases hnames : firstOfType? clause "named_imports" with
      | none => exact ⟨none, rfl⟩
      | some names =>
        have hbound := exists_boundNames fun m hm =>
          (fits_of_firstOfType hfits hnames).of_mem_children hm
        refine exists_bind hbound fun texts _ => ?_
        exact ⟨some (importText (bracedText texts) (ModuleId.resolve id value)), rfl⟩
  · exact ⟨none, rfl⟩

theorem exists_requireRule (h : n.Fits cs) : ∃ found, requireRule id (encode cs) n = .ok found := by
  unfold requireRule
  split
  · rename_i name named hname hnamed
    have hfits : named.Fits cs := by
      rcases Option.or_eq_some_iff.1 hnamed with hfield | ⟨-, htype⟩
      · exact fits_of_field h hfield
      · exact fits_of_firstOfType h htype
    refine exists_bind (exists_valueOf hfits) fun value _ => ?_
    split
    · refine exists_bind (exists_textOf (fits_of_firstOfType h hname)) fun text _ => ?_
      exact ⟨some (requireText text (ModuleId.resolve id value)), rfl⟩
    · exact ⟨none, rfl⟩
  · exact ⟨none, rfl⟩

theorem exists_literalRule (h : n.Fits cs) : ∃ found, literalRule id (encode cs) n = .ok found :=
  exists_bind (exists_valueOf h) fun _ _ => ⟨_, rfl⟩

/-- The rules for single nodes do not fail on a node that fits the source. -/
theorem exists_nodeRule (id : String) (place : Place) (h : n.Fits cs) :
    ∃ found, nodeRule id (encode cs) n place = .ok found := by
  unfold nodeRule
  split
  · exact exists_requireRule h
  · split
    · exact ⟨some "", rfl⟩
    · split
      · exact exists_importRule h
      · split
        · exact exists_literalRule h
        · exact ⟨none, rfl⟩

/-! ## The changes in order -/

mutual

/-- The nodes of a tree in pre-order, each with its place. -/
def placed (place : Place) : Node → List Located
  | .node l s cs => (.node l s cs, place) :: placedAll (.node l s cs) place [] cs

/-- The same for nodes that stand in a node behind the given ones. -/
def placedAll (parent : Node) (place : Place) (before : List Node) : List Node → List Located
  | [] => []
  | c :: cs =>
    placed (.inside parent place before) c ++ placedAll parent place (c :: before) cs

end

mutual

/-- The changes in a tree that no other change hides, in pre-order. -/
def editsIn (id : String) (source : List UInt8) (place : Place) : Node → List Edit
  | .node l s cs =>
    match change? id source (.node l s cs) place with
    | none => editsInAll id source (.node l s cs) place [] cs
    | some e =>
      e ::
        if beginsLineAmbient source (.node l s cs) then editsInRest id source (.node l s cs) place cs
        else []

/-- The same for nodes that stand in a node behind the given ones. -/
def editsInAll (id : String) (source : List UInt8) (parent : Node) (place : Place)
    (before : List Node) : List Node → List Edit
  | [] => []
  | c :: cs =>
    editsIn id source (.inside parent place before) c ++
      editsInAll id source parent place (c :: before) cs

/-- The same for all nodes that stand in a node but the first. -/
def editsInRest (id : String) (source : List UInt8) (parent : Node) (place : Place) :
    List Node → List Edit
  | [] => []
  | c :: cs => editsInAll id source parent place [c] cs

end

mutual

/-- The changes that are not hidden are found by passing over what a change hides. -/
theorem filterMap_placed (place : Place) :
    ∀ n : Node, ((placed place n).filter fun p => !isHidden id source p.2).filterMap
        (fun p => change? id source p.1 p.2) =
      if isHidden id source place then [] else editsIn id source place n
  | .node l s cs => by
    cases hplace : isHidden id source place with
    | true =>
      have hcs := filterMap_placedAll (.node l s cs) place true cs [] fun more => by
        simp [isHidden, hplace]
      simpa [placed, hplace] using hcs
    | false =>
      cases hchange : change? id source (.node l s cs) place with
      | none =>
        have hcs := filterMap_placedAll (.node l s cs) place false cs [] fun more => by
          simp [isHidden, hplace, hchange]
        simpa [placed, editsIn, hplace, hchange] using hcs
      | some e =>
        cases hbegins : beginsLineAmbient source (.node l s cs) with
        | false =>
          have hcs := filterMap_placedAll (.node l s cs) place true cs [] fun more => by
            simp [isHidden, hchange, hbegins]
          simpa [placed, editsIn, hplace, hchange, hbegins] using hcs
        | true =>
          cases cs with
          | nil => simp [placed, placedAll, editsIn, editsInRest, hplace, hchange]
          | cons c cs =>
            -- the first child is hidden, the others are not
            have hc := filterMap_placed (.inside (.node l s (c :: cs)) place []) c
            have hcs := filterMap_placedAll (.node l s (c :: cs)) place false cs [c] fun more => by
              simp [isHidden, hplace, hbegins]
            have hfirst : isHidden id source (.inside (.node l s (c :: cs)) place []) = true := by
              simp [isHidden, hchange]
            rw [hfirst, if_pos rfl] at hc
            simpa [placed, placedAll, editsIn, editsInRest, hplace, hchange, hbegins, hc] using hcs

theorem filterMap_placedAll (parent : Node) (place : Place) (hidden : Bool) :
    ∀ (ns before : List Node),
      (∀ more : List Node, isHidden id source (.inside parent place (more ++ before)) = hidden) →
      ((placedAll parent place before ns).filter fun p => !isHidden id source p.2).filterMap
          (fun p => change? id source p.1 p.2) =
        if hidden then [] else editsInAll id source parent place before ns
  | [], before, _ => by simp [placedAll, editsInAll]
  | n :: ns, before, h => by
    have hn := filterMap_placed (.inside parent place before) n
    have hns := filterMap_placedAll parent place hidden ns (n :: before) fun more => by
      simpa using h (more ++ [n])
    have hself : isHidden id source (.inside parent place before) = hidden := by simpa using h []
    rw [placedAll, List.filter_append, List.filterMap_append, hn, hns, hself, editsInAll]
    split <;> rfl

end

/-! ## What a walk makes of a tree -/

mutual

theorem fits_locate {place : Place} : ∀ {n : Node}, n.Fits cs → (locate place n).Fits cs
  | .node l s ns, h => by
    obtain ⟨hstart, hstop, hns⟩ : IsBoundary cs s.start ∧ IsBoundary cs s.stop ∧
        Tree.FitAll cs s.start s.stop ns := by simpa [Tree.Fits] using h
    simpa [locate, Tree.Fits, hstart, hstop] using fitAll_locateAll hns

theorem fitAll_locateAll {parent : Node} {place : Place} :
    ∀ {ns before : List Node} {start stop : Nat}, Tree.FitAll cs start stop ns →
      Tree.FitAll cs start stop (locateAll parent place before ns)
  | [], _, _, _, h => by simpa [locateAll, Tree.FitAll] using h
  | n :: ns, _, start, stop, h => by
    obtain ⟨hstart, hn, hns⟩ := Tree.fitAll_cons.1 h
    simp [locateAll, Tree.FitAll, hstart, fits_locate hn, fitAll_locateAll hns]

end

theorem map_stop_locateAll (parent : Node) (place : Place) (before ns : List Node) :
    (locateAll parent place before ns).map Tree.stop = ns.map Tree.stop := by
  induction ns generalizing before with
  | nil => rfl
  | cons n ns ih => simp [locateAll, ih]

/-- The answer of the rules for a tree, where they do not fail. -/
def given (id : String) (source : List UInt8) (t : Tree Located) : Option String :=
  match rules id source t with
  | .ok found => found
  | .error _ => none

/-- Whether a node ends where its last child ends. -/
def EndsWithLast (n : Node) : Prop :=
  ∀ last, n.children.getLast? = some last → last.stop = n.stop

instance (n : Node) : Decidable (EndsWithLast n) :=
  decidable_of_iff (∀ last ∈ n.children.getLast?, last.stop = n.stop) Iff.rfl

/-- Whether the rules answer for the trees of a part of the source that a walk asks about, and the
part becomes what edits make of it. -/
structure Makes (id : String) (cs : List Char) (trees : List (Tree Located)) (start stop : Nat)
    (edits : List Edit) : Prop where
  answered : ∀ m ∈ uncoveredAll (given id (encode cs)) trees,
    rules id (encode cs) m = .ok (given id (encode cs) m)
  spliced_eq : splicedAll (encode cs) (given id (encode cs)) start stop trees =
    edited (encode cs) start stop edits
  inOrder : InOrder start stop edits

/-- A part of the source without trees is kept. -/
theorem Makes.nil {start stop : Nat} (h : start ≤ stop) : Makes id cs [] start stop [] where
  answered := by simp [uncoveredAll]
  spliced_eq := rfl
  inOrder := h

/-- Neighbouring parts of the source join. -/
theorem Makes.cons {t : Tree Located} {ts : List (Tree Located)} {start stop : Nat}
    {es fs : List Edit} (ht : Makes id cs [t] t.start t.stop es) (hts : Makes id cs ts t.stop stop fs)
    (hle : start ≤ t.start) : Makes id cs (t :: ts) start stop (es ++ fs) where
  answered := by
    intro m hm
    rw [uncoveredAll, List.mem_append] at hm
    rcases hm with hm | hm
    · exact ht.answered m (by simpa [uncoveredAll] using hm)
    · exact hts.answered m hm
  spliced_eq := by
    have hspliced : spliced (encode cs) (given id (encode cs)) t =
        edited (encode cs) t.start t.stop es := by
      simpa [splicedAll] using ht.spliced_eq
    rw [edited_append _ (ht.inOrder.of_le hle) hts.inOrder, splicedAll, hspliced, hts.spliced_eq,
      stretch_append_edited _ hle ht.inOrder]
  inOrder := (ht.inOrder.of_le hle).append hts.inOrder

/-- A tree that stands for itself becomes what its children make of it. -/
theorem Makes.node {l : Located} {s : Span} {ts : List (Tree Located)} {es : List Edit}
    (hrule : rules id (encode cs) (.node l s ts) = .ok none)
    (hts : Makes id cs ts s.start s.stop es) :
    Makes id cs [.node l s ts] s.start s.stop es := by
  have hgiven : given id (encode cs) (.node l s ts) = none := by simp [given, hrule]
  refine ⟨?_, ?_, hts.inOrder⟩
  · intro m hm
    simp only [uncoveredAll, uncovered, hgiven, List.append_nil, List.mem_cons] at hm
    rcases hm with rfl | hm
    · rw [hrule, hgiven]
    · exact hts.answered m hm
  · simpa [splicedAll, spliced, hgiven] using hts.spliced_eq

/-- A tree that a text stands for becomes that text. -/
theorem Makes.text {l : Located} {s : Span} {ts : List (Tree Located)} {es : List Edit}
    {text : String} (hrule : rules id (encode cs) (.node l s ts) = .ok (some text))
    (htext : encode text.toList = edited (encode cs) s.start s.stop es)
    (hes : InOrder s.start s.stop es) : Makes id cs [.node l s ts] s.start s.stop es := by
  have hgiven : given id (encode cs) (.node l s ts) = some text := by simp [given, hrule]
  refine ⟨?_, ?_, hes⟩
  · intro m hm
    simp only [uncoveredAll, uncovered, hgiven, List.append_nil, List.mem_singleton] at hm
    rw [hm, hrule, hgiven]
  · simpa [splicedAll, spliced, hgiven] using htext

/-- Rewriting siblings from the beginning of the first to the end of the last gives what edits make
of that part. -/
theorem Makes.siblings {parent : Node} {place : Place} {before ns : List Node} {stop : Nat}
    {es : List Edit} (hfits : Tree.FitAll cs n.start stop (n :: ns))
    (hstop : ∀ last, (n :: ns).getLast? = some last → last.stop = stop)
    (h : Makes id cs (locateAll parent place before (n :: ns)) n.start stop es) :
    ∃ text, Rewrite.siblings (encode cs) (locateAll parent place before (n :: ns))
        (rules id (encode cs)) = .ok text ∧
      encode text.toList = edited (encode cs) n.start stop es := by
  have hlocated : Tree.FitAll cs n.start stop (locateAll parent place before (n :: ns)) :=
    fitAll_locateAll hfits
  have hstops := congrArg List.getLast? (map_stop_locateAll parent place before (n :: ns))
  rw [List.getLast?_map, List.getLast?_map] at hstops
  obtain ⟨last, hlast⟩ : ∃ last, (n :: ns).getLast? = some last :=
    Option.isSome_iff_exists.1 (by simp)
  rw [hlast, Option.map_some, Option.map_eq_some_iff] at hstops
  obtain ⟨final, hfinal, hfinalStop⟩ := hstops
  rw [hstop last hlast] at hfinalStop
  simp only [locateAll] at h hlocated hfinal ⊢
  have hspliced := h.spliced_eq
  have hstart : (locate (.inside parent place before) n).start = n.start := start_locate _ n
  rw [← hfinalStop, ← hstart] at hlocated hspliced
  obtain ⟨text, htext, hbytes⟩ := siblings_eq_spliced hlocated hfinal h.answered
  exact ⟨text, htext, by rw [hbytes, hspliced, hfinalStop, hstart]⟩

/-- The siblings behind the first one, from where the second begins. -/
theorem fitAll_behind {first next : Node} {others : List Node} {start stop : Nat}
    (h : Tree.FitAll cs start stop (first :: next :: others)) :
    start ≤ next.start ∧ Tree.FitAll cs next.start stop (next :: others) := by
  obtain ⟨hstart, hfirst, hbehind⟩ := Tree.fitAll_cons.1 h
  obtain ⟨hgap, hnext⟩ := Tree.fitAll_cons.1 hbehind
  have hspan := hfirst.start_le_stop
  exact ⟨by omega, Tree.fitAll_cons.2 ⟨Nat.le_refl _, hnext⟩⟩

/-- What stands behind a modifier at the beginning of a line is rewritten where the declaration
stood, and the modifier goes. -/
theorem Makes.unmodified {l : Label} {s : Span} {place : Place} {modifier next : Node}
    {others : List Node}
    (hbegins : beginsLineAmbient (encode cs) (.node l s (modifier :: next :: others)) = true)
    (hfits : Tree.FitAll cs s.start s.stop (modifier :: next :: others))
    (hlast : EndsWithLast (.node l s (modifier :: next :: others)))
    (hmakes : Makes id cs
      (locateAll (.node l s (modifier :: next :: others)) place [modifier] (next :: others))
      next.start s.stop
      (editsInAll id (encode cs) (.node l s (modifier :: next :: others)) place [modifier]
        (next :: others))) :
    Makes id cs [locate place (.node l s (modifier :: next :: others))] s.start s.stop
      (editsIn id (encode cs) place (.node l s (modifier :: next :: others))) := by
  obtain ⟨hle, hrest⟩ := fitAll_behind hfits
  obtain ⟨text, htext, hbytes⟩ :=
    Makes.siblings hrest (fun last h => hlast last (by simpa using h)) hmakes
  have hself := rules_eq id (encode cs) (locate place (.node l s (modifier :: next :: others)))
  rw [label_locate, children_locate, if_pos hbegins] at hself
  have hrule : rules id (encode cs) (locate place (.node l s (modifier :: next :: others))) =
      .ok (some text) := by
    rw [hself]
    exact congrArg (Except.map some) htext
  have hchange : change? id (encode cs) (.node l s (modifier :: next :: others)) place =
      some ⟨⟨s.start, next.start⟩, ""⟩ := by simp [change?, hbegins]
  have hedits : editsIn id (encode cs) place (.node l s (modifier :: next :: others)) =
      ⟨⟨s.start, next.start⟩, ""⟩ ::
        editsInAll id (encode cs) (.node l s (modifier :: next :: others)) place [modifier]
          (next :: others) := by
    rw [editsIn, hchange]
    simp only [hbegins, if_true, editsInRest]
  rw [hedits]
  exact Makes.text hrule (by simp [edited, hbytes]) ⟨Nat.le_refl _, hle, hmakes.inOrder⟩

/-- A node that begins no line with a modifier becomes the text of its rule, or else what its
children make of it. -/
theorem Makes.ruled {l : Label} {s : Span} {place : Place} {ns : List Node}
    (hbegins : beginsLineAmbient (encode cs) (.node l s ns) = false)
    (hfits : Tree.Fits cs (.node l s ns))
    (hmakes : Makes id cs (locateAll (.node l s ns) place [] ns) s.start s.stop
      (editsInAll id (encode cs) (.node l s ns) place [] ns)) :
    Makes id cs [locate place (.node l s ns)] s.start s.stop
      (editsIn id (encode cs) place (.node l s ns)) := by
  have hself := rules_eq id (encode cs) (locate place (.node l s ns))
  rw [label_locate, children_locate, if_neg (by simp [hbegins])] at hself
  obtain ⟨found, hfound⟩ := exists_nodeRule id place hfits
  rw [hfound] at hself
  cases found with
  | some text =>
    have hchange : change? id (encode cs) (.node l s ns) place = some ⟨s, text⟩ := by
      simp [change?, hbegins, hfound]
    have hspan : s.start ≤ s.stop := hfits.start_le_stop
    have hedits : editsIn id (encode cs) place (.node l s ns) = [⟨s, text⟩] := by
      simp [editsIn, hchange, hbegins]
    rw [hedits]
    exact Makes.text (by simpa [locate] using hself) (by simp [edited])
      ⟨Nat.le_refl _, hspan, Nat.le_refl _⟩
  | none =>
    have hchange : change? id (encode cs) (.node l s ns) place = none := by
      simp [change?, hbegins, hfound]
    simpa [locate, editsIn, hchange] using Makes.node (by simpa [locate] using hself) hmakes

mutual

/-- A walk over a node makes the changes in it that are not hidden. -/
theorem makes_locate {place : Place} : ∀ {n : Node}, n.Fits cs →
    (∀ p ∈ placed place n, p.1.label.type = "ambient_declaration" → EndsWithLast p.1) →
    Makes id cs [locate place n] n.start n.stop (editsIn id (encode cs) place n)
  | .node l s ns, hfits, hends => by
    have hns : Tree.FitAll cs s.start s.stop ns := hfits.children
    cases hbegins : beginsLineAmbient (encode cs) (.node l s ns) with
    | true =>
      obtain ⟨htype, hline, modifier, next, others, hchildren, hmodifier⟩ :=
        beginsLineAmbient_iff.1 hbegins
      obtain rfl : ns = modifier :: next :: others := hchildren
      have hlast : EndsWithLast (.node l s (modifier :: next :: others)) :=
        hends (.node l s (modifier :: next :: others), place) (by simp [placed]) htype
      obtain ⟨-, hrest⟩ := fitAll_behind hns
      exact Makes.unmodified hbegins hns hlast <| makes_locateAll hrest fun p hp => hends p <| by
        rw [placed, placedAll]
        exact List.mem_cons_of_mem _ (List.mem_append_right _ hp)
    | false =>
      exact Makes.ruled hbegins hfits <| makes_locateAll hns fun p hp =>
        hends p (by simp [placed, hp])

theorem makes_locateAll {parent : Node} {place : Place} :
    ∀ {ns before : List Node} {start stop : Nat}, Tree.FitAll cs start stop ns →
    (∀ p ∈ placedAll parent place before ns,
      p.1.label.type = "ambient_declaration" → EndsWithLast p.1) →
    Makes id cs (locateAll parent place before ns) start stop
      (editsInAll id (encode cs) parent place before ns)
  | [], before, start, stop, hfits, _ => by
    have hnil : Makes id cs [] start stop [] := Makes.nil hfits
    simpa [locateAll, editsInAll] using hnil
  | n :: ns, before, start, stop, hfits, hends => by
    obtain ⟨hstart, hn, hns⟩ := Tree.fitAll_cons.1 hfits
    have hfirst : Makes id cs [locate (.inside parent place before) n] n.start n.stop
        (editsIn id (encode cs) (.inside parent place before) n) :=
      makes_locate hn fun p hp => hends p (by simp [placedAll, hp])
    have hrest : Makes id cs (locateAll parent place (n :: before) ns) n.stop stop
        (editsInAll id (encode cs) parent place (n :: before) ns) :=
      makes_locateAll hns fun p hp => hends p (by simp [placedAll, hp])
    simpa [locateAll, editsInAll] using Makes.cons (by simpa using hfirst) (by simpa using hrest)
      (by simpa using hstart)

end

/-! ## The whole content -/

/-- The changes that are found are those of the nodes that are written anew. -/
theorem forall₂_change (id : String) (source : List UInt8) (ps : List Located) :
    List.Forall₂ (fun p e => Change id source p.1 p.2 e)
      (ps.filter fun p => IsChanged id source p)
      ((ps.filter fun p => !isHidden id source p.2).filterMap fun p => change? id source p.1 p.2) := by
  induction ps with
  | nil => exact .nil
  | cons p ps ih =>
    cases hhidden : isHidden id source p.2 with
    | true =>
      have hp : ¬ IsChanged id source p := fun h => h.2 (isHidden_iff.1 hhidden)
      simpa [hp, hhidden] using ih
    | false =>
      have hplace : ¬ Hidden id source p.2 := by simp [← isHidden_iff, hhidden]
      cases hchange : change? id source p.1 p.2 with
      | none =>
        have hp : ¬ IsChanged id source p := by
          rintro ⟨⟨e, he⟩, -⟩
          simp [change?_eq_some_iff.2 he] at hchange
        simpa [hp, hhidden, hchange] using ih
      | some e =>
        have he := change?_eq_some_iff.1 hchange
        have hp : IsChanged id source p := ⟨⟨e, he⟩, hplace⟩
        simpa [hp, hhidden, hchange] using ⟨he, ih⟩

/-- For every tree that fits a text and whose declarations behind `declare` end with their last
child, the content of a module is the text with edits made in it, and these are the changes of the
nodes that are not hidden by the change of a node around them, in order. -/
theorem moduleContent_eq_edited {tree : Node} (id : String) (hfits : tree.Fits cs)
    (hends : ∀ p ∈ placed .root tree,
      p.1.label.type = "ambient_declaration" → EndsWithLast p.1) :
    ∃ text edits,
      moduleContent id (encode cs) tree = .ok text ∧
      encode text.toList = edited (encode cs) 0 (encode cs).length edits ∧
      InOrder 0 (encode cs).length edits ∧
      List.Forall₂ (fun p e => Change id (encode cs) p.1 p.2 e)
        ((placed .root tree).filter fun p => IsChanged id (encode cs) p) edits := by
  have hstop : tree.stop ≤ (encode cs).length := hfits.isBoundary_stop.le_length
  have hroot : Makes id cs [locate .root tree] (locate .root tree).start (locate .root tree).stop
      (editsIn id (encode cs) .root tree) := by
    simpa using makes_locate hfits hends
  have hnil : Makes id cs [] (locate .root tree).stop (encode cs).length [] :=
    Makes.nil (by simpa using hstop)
  have hmakes := hroot.cons hnil (Nat.zero_le _)
  rw [List.append_nil] at hmakes
  have hall : Tree.FitAll cs 0 (encode cs).length [locate .root tree] := by
    simp [Tree.FitAll, fits_locate hfits, hstop]
  obtain ⟨q, hq, hwritten, -⟩ :=
    between_advances hall hmakes.answered (isBoundary_zero cs) (isBoundary_length cs)
  refine ⟨.ofList q.written, editsIn id (encode cs) .root tree, ?_, ?_, hmakes.inOrder, ?_⟩
  · simp only [moduleContent, whole, wholeProgress, hq, result]
  · rw [String.toList_ofList, hwritten, hmakes.spliced_eq]
  · have hchanges := forall₂_change id (encode cs) (placed .root tree)
    rw [filterMap_placed] at hchanges
    simpa [isHidden] using hchanges

/-- A default import is written in the one form, and a declaration on a line of its own loses its
modifier and the blank behind it. -/
theorem moduleContent_eq_edited_default :
    let name : Node := .node { type := "identifier" } ⟨7, 8⟩ []
    let clause : Node := .node { type := "import_clause" } ⟨7, 8⟩ [name]
    let named : Node := .node { type := "string", field := some "source" } ⟨14, 19⟩ []
    let statement : Node := .node { type := "import_statement" } ⟨0, 19⟩ [clause, named]
    let modifier : Node := .node { type := "declare", isNamed := false } ⟨20, 27⟩ []
    let declaration : Node := .node { type := "lexical_declaration" } ⟨28, 33⟩ []
    let ambient : Node := .node { type := "ambient_declaration" } ⟨20, 33⟩ [modifier, declaration]
    let tree : Node := .node { type := "program" } ⟨0, 33⟩ [statement, ambient]
    let cs := "import A from './a'\ndeclare let b".toList
    tree.Fits cs ∧
      (∀ p ∈ placed .root tree, p.1.label.type = "ambient_declaration" → EndsWithLast p.1) ∧
      moduleContent "lib/m" (encode cs) tree = .ok "import A from 'lib/a';\nlet b" := by
  intro name clause named statement modifier declaration ambient tree cs
  have hfits : tree.Fits cs := by
    simp only [tree, statement, ambient, clause, name, named, modifier, declaration, Tree.Fits,
      Tree.FitAll, Tree.start_node, Tree.stop_node]
    decide
  have hends : ∀ p ∈ placed .root tree,
      p.1.label.type = "ambient_declaration" → EndsWithLast p.1 := by decide
  obtain ⟨text, edits, htext, hbytes, -, hchanges⟩ := moduleContent_eq_edited "lib/m" hfits hends
  refine ⟨hfits, hends, ?_⟩
  have hfilter : ((placed .root tree).filter fun p => IsChanged "lib/m" (encode cs) p) =
      [(statement, .inside tree .root []), (ambient, .inside tree .root [statement])] := by rfl
  have hstatement : change? "lib/m" (encode cs) statement (.inside tree .root []) =
      some ⟨⟨0, 19⟩, "import A from 'lib/a';"⟩ := by rfl
  have hambient : change? "lib/m" (encode cs) ambient (.inside tree .root [statement]) =
      some ⟨⟨20, 28⟩, ""⟩ := by rfl
  rw [hfilter] at hchanges
  obtain ⟨e₁, rest, h₁, hrest, rfl⟩ := List.forall₂_cons_left_iff.1 hchanges
  obtain ⟨e₂, none, h₂, hnone, rfl⟩ := List.forall₂_cons_left_iff.1 hrest
  obtain rfl := List.forall₂_nil_left_iff.1 hnone
  obtain rfl := Option.some.inj (hstatement.symm.trans (change?_eq_some_iff.2 h₁))
  obtain rfl := Option.some.inj (hambient.symm.trans (change?_eq_some_iff.2 h₂))
  have hlist : text.toList = "import A from 'lib/a';\nlet b".toList := by
    apply encode_injective
    rw [hbytes]
    decide
  rw [htext, String.toList_inj.1 hlist]

end DeclBundle.Declaration
