import DeclBundle.Proofs.Declaration.Content
set_option autoImplicit false

/-!
# What stands around a part of a module

The content of a module is the source with edits made in it.  Around one of these edits, and around a
node that none of them replaces, the content falls into what becomes of the source before the part,
of the part itself and of the source behind it (`exists_content_edit`, `exists_content_node`).
-/

namespace DeclBundle.Rewrite

open Utf8

/-! ## Edits in parts -/

variable {start stop : Nat} {es fs : List Edit} {e : Edit} {cs : List Char}

/-- Edits in order are in order before and behind each of them. -/
theorem InOrder.of_append_cons (h : InOrder start stop (es ++ e :: fs)) :
    InOrder start e.span.start es ∧ e.span.start ≤ e.span.stop ∧ InOrder e.span.stop stop fs := by
  induction es generalizing start with
  | nil => exact h
  | cons f es ih =>
    obtain ⟨hstart, hspan, hrest⟩ := h
    obtain ⟨hes, he, hfs⟩ := ih hrest
    exact ⟨⟨hstart, hspan, hes⟩, he, hfs⟩

theorem InOrder.span_of_mem (h : InOrder start stop es) (he : e ∈ es) :
    start ≤ e.span.start ∧ e.span.start ≤ e.span.stop ∧ e.span.stop ≤ stop := by
  obtain ⟨before, after, rfl⟩ := List.append_of_mem he
  obtain ⟨hbefore, hspan, hafter⟩ := h.of_append_cons
  exact ⟨hbefore.start_le_stop, hspan, hafter.start_le_stop⟩

/-- The first of some edits in order lie where they do in front of the others, up to any offset
behind them. -/
theorem InOrder.take {mid : Nat} (h : InOrder start stop (es ++ fs)) (hle : start ≤ mid)
    (hes : ∀ e ∈ es, e.span.stop ≤ mid) : InOrder start mid es := by
  induction es generalizing start with
  | nil => exact hle
  | cons e es ih =>
    obtain ⟨hstart, hspan, hrest⟩ := h
    have he := hes e List.mem_cons_self
    exact ⟨hstart, hspan, ih hrest he fun f hf => hes f (List.mem_cons_of_mem e hf)⟩

/-- Edits between the characters of a text make a text of each part that they lie in. -/
theorem exists_encode_edited (hstart : IsBoundary cs start) (hstop : IsBoundary cs stop)
    (hes : ∀ e ∈ es, IsBoundary cs e.span.start ∧ IsBoundary cs e.span.stop) :
    ∃ text, encode text = edited (encode cs) start stop es := by
  induction es generalizing start with
  | nil =>
    obtain ⟨text, -, htext⟩ := decode_stretch hstart hstop
    exact ⟨text, htext⟩
  | cons e es ih =>
    obtain ⟨hbegins, hends⟩ := hes e List.mem_cons_self
    obtain ⟨before, -, hbefore⟩ := decode_stretch hstart hbegins
    obtain ⟨after, hafter⟩ := ih hends fun f hf => hes f (List.mem_cons_of_mem e hf)
    refine ⟨before ++ e.text.toList ++ after, ?_⟩
    rw [edited, encode_append, encode_append, hbefore, hafter]

/-- A text that edits make of a source falls into what becomes of the three parts in which the edits
lie. -/
theorem exists_parts {content : List Char} {mid₁ mid₂ : Nat} {es₁ es₂ es₃ : List Edit}
    (hcontent : encode content = edited (encode cs) start stop (es₁ ++ es₂ ++ es₃))
    (h₁ : InOrder start mid₁ es₁) (h₂ : InOrder mid₁ mid₂ es₂) (h₃ : InOrder mid₂ stop es₃)
    (hstart : IsBoundary cs start) (hmid₁ : IsBoundary cs mid₁) (hmid₂ : IsBoundary cs mid₂)
    (hstop : IsBoundary cs stop)
    (hes : ∀ e ∈ es₁ ++ es₂ ++ es₃, IsBoundary cs e.span.start ∧ IsBoundary cs e.span.stop) :
    ∃ front text back, content = front ++ text ++ back ∧
      encode front = edited (encode cs) start mid₁ es₁ ∧
      encode text = edited (encode cs) mid₁ mid₂ es₂ ∧
      encode back = edited (encode cs) mid₂ stop es₃ := by
  obtain ⟨front, hfront⟩ : ∃ text, encode text = edited (encode cs) start mid₁ es₁ :=
    exists_encode_edited hstart hmid₁ fun e he => hes e (by simp [he])
  obtain ⟨text, htext⟩ : ∃ text, encode text = edited (encode cs) mid₁ mid₂ es₂ :=
    exists_encode_edited hmid₁ hmid₂ fun e he => hes e (by simp [he])
  obtain ⟨back, hback⟩ : ∃ text, encode text = edited (encode cs) mid₂ stop es₃ :=
    exists_encode_edited hmid₂ hstop fun e he => hes e (by simp [he])
  refine ⟨front, text, back, encode_injective ?_, hfront, htext, hback⟩
  rw [hcontent, edited_append _ (h₁.append h₂) h₃, edited_append _ h₁ h₂, encode_append,
    encode_append, hfront, htext, hback]

end DeclBundle.Rewrite

namespace DeclBundle.Declaration

open Utf8 Rewrite

variable {id : String} {cs : List Char} {tree n : Node} {place : Place}

/-! ## Nodes of a tree -/

mutual

theorem fits_of_mem_placed {place : Place} {p : Located} : ∀ {n : Node}, n.Fits cs →
    p ∈ placed place n → p.1.Fits cs
  | .node l s ns, hfits, hp => by
    rw [placed, List.mem_cons] at hp
    rcases hp with rfl | hp
    · exact hfits
    · exact fits_of_mem_placedAll hfits.children hp

theorem fits_of_mem_placedAll {parent : Node} {place : Place} {p : Located} :
    ∀ {ns before : List Node} {start stop : Nat}, Tree.FitAll cs start stop ns →
    p ∈ placedAll parent place before ns → p.1.Fits cs
  | [], _, _, _, _, hp => by simp [placedAll] at hp
  | n :: ns, before, start, stop, hfits, hp => by
    obtain ⟨-, hn, hns⟩ := Tree.fitAll_cons.1 hfits
    rw [placedAll, List.mem_append] at hp
    rcases hp with hp | hp
    · exact fits_of_mem_placed hn hp
    · exact fits_of_mem_placedAll hns hp

end

mutual

/-- What stands in a hidden node is hidden. -/
theorem isHidden_of_mem_placed {source : List UInt8} {place : Place} {p : Located} :
    ∀ {n : Node}, isHidden id source place = true → p ∈ placed place n →
    isHidden id source p.2 = true
  | .node l s ns, hhidden, hp => by
    rw [placed, List.mem_cons] at hp
    rcases hp with rfl | hp
    · exact hhidden
    · exact isHidden_of_mem_placedAll (fun more => by simp [isHidden, hhidden]) hp

theorem isHidden_of_mem_placedAll {source : List UInt8} {parent : Node} {place : Place}
    {p : Located} : ∀ {ns before : List Node},
    (∀ more : List Node, isHidden id source (.inside parent place (more ++ before)) = true) →
    p ∈ placedAll parent place before ns → isHidden id source p.2 = true
  | [], _, _, hp => by simp [placedAll] at hp
  | n :: ns, before, hhidden, hp => by
    rw [placedAll, List.mem_append] at hp
    rcases hp with hp | hp
    · exact isHidden_of_mem_placed (by simpa using hhidden []) hp
    · exact isHidden_of_mem_placedAll (fun more => by simpa using hhidden (more ++ [n])) hp

end

/-- The part of the source that a change replaces lies in the node, between characters. -/
theorem Change.span_fits {e : Edit} (h : Change id (encode cs) n place e) (hfits : n.Fits cs) :
    n.start ≤ e.span.start ∧ e.span.stop ≤ n.stop ∧
      IsBoundary cs e.span.start ∧ IsBoundary cs e.span.stop := by
  have hself : n.start ≤ n.span.start ∧ n.span.stop ≤ n.stop ∧
      IsBoundary cs n.span.start ∧ IsBoundary cs n.span.stop :=
    ⟨Nat.le_refl _, Nat.le_refl _, hfits.isBoundary_start, hfits.isBoundary_stop⟩
  cases h with
  | leadingModifier htype hchildren hmodifier hline =>
    rename_i modifier next others
    have hall := hfits.children
    rw [hchildren] at hall
    obtain ⟨-, hnext⟩ := fitAll_behind hall
    have hnextFits : next.Fits cs := hfits.of_mem_children (by simp [hchildren])
    have hle := hnextFits.start_le_stop
    have hstop := hnext.start_le_stop
    exact ⟨Nat.le_refl _, hstop, hfits.isBoundary_start, hnextFits.isBoundary_start⟩
  | _ => exact hself

/-! ## The edits of a tree -/

/-- The changes that are not hidden in a tree are its edits. -/
theorem forall₂_editsIn (source : List UInt8) (h : isHidden id source place = false) :
    List.Forall₂ (fun p e => Change id source p.1 p.2 e)
      ((placed place n).filter fun p => IsChanged id source p) (editsIn id source place n) := by
  have hchanges := forall₂_change id source (placed place n)
  rwa [filterMap_placed, h, if_neg (by decide)] at hchanges

theorem isBoundary_of_mem_editsIn {e : Edit} (hfits : n.Fits cs)
    (h : isHidden id (encode cs) place = false) (he : e ∈ editsIn id (encode cs) place n) :
    IsBoundary cs e.span.start ∧ IsBoundary cs e.span.stop := by
  obtain ⟨i, hi, rfl⟩ := List.mem_iff_getElem.1 he
  have hedits := forall₂_editsIn (n := n) (encode cs) h
  have hchange := hedits.get (hedits.length_eq ▸ hi) hi
  have hmem := (List.mem_filter.1 (List.get_mem _ ⟨i, hedits.length_eq ▸ hi⟩)).1
  obtain ⟨-, -, hboundaries⟩ := hchange.span_fits (fits_of_mem_placed hfits hmem)
  exact hboundaries

/-- Whether the edits in a part of the source fall into those before a node, those in it and those
behind it. -/
def PartAround (id : String) (source : List UInt8) (p : Located) (start stop : Nat)
    (edits : List Edit) : Prop :=
  ∃ before after, edits = before ++ editsIn id source p.2 p.1 ++ after ∧
    InOrder start p.1.start before ∧ InOrder p.1.start p.1.stop (editsIn id source p.2 p.1) ∧
    InOrder p.1.stop stop after

theorem PartAround.append {source : List UInt8} {p : Located} {start mid stop : Nat}
    {es fs : List Edit} (hes : PartAround id source p start mid es) (hfs : InOrder mid stop fs) :
    PartAround id source p start stop (es ++ fs) := by
  obtain ⟨before, after, rfl, hbefore, hin, hafter⟩ := hes
  exact ⟨before, after ++ fs, by rw [List.append_assoc], hbefore, hin, hafter.append hfs⟩

theorem PartAround.prepend {source : List UInt8} {p : Located} {start mid stop : Nat}
    {es fs : List Edit} (hes : InOrder start mid es) (hfs : PartAround id source p mid stop fs) :
    PartAround id source p start stop (es ++ fs) := by
  obtain ⟨before, after, rfl, hbefore, hin, hafter⟩ := hfs
  exact ⟨es ++ before, after, by simp only [List.append_assoc], hes.append hbefore, hin, hafter⟩

mutual

/-- The edits in a tree fall into those before, in and behind each node of it that is not hidden. -/
theorem partAround_of_mem_placed {place : Place} {p : Located} : ∀ {n : Node}, n.Fits cs →
    (∀ q ∈ placed place n, q.1.label.type = "ambient_declaration" → EndsWithLast q.1) →
    p ∈ placed place n → isHidden id (encode cs) p.2 = false →
    PartAround id (encode cs) p n.start n.stop (editsIn id (encode cs) place n)
  | .node l s ns, hfits, hends, hp, hshown => by
    have hself : InOrder s.start s.stop (editsIn id (encode cs) place (.node l s ns)) :=
      (makes_locate hfits hends).inOrder
    rw [placed, List.mem_cons] at hp
    rcases hp with rfl | hp
    · exact ⟨[], [], by simp, Nat.le_refl _, hself, Nat.le_refl _⟩
    · have hends' : ∀ q ∈ placedAll (.node l s ns) place [] ns,
          q.1.label.type = "ambient_declaration" → EndsWithLast q.1 :=
        fun q hq => hends q (by simp [placed, hq])
      cases hchange : change? id (encode cs) (.node l s ns) place with
      | none =>
        simpa [editsIn, hchange] using
          partAround_of_mem_placedAll hfits.children hends' hp hshown
      | some e =>
        cases hbegins : beginsLineAmbient (encode cs) (.node l s ns) with
        | false =>
          -- the change replaces everything in the node
          have hhidden : isHidden id (encode cs) p.2 = true :=
            isHidden_of_mem_placedAll (fun more => by simp [isHidden, hchange, hbegins]) hp
          rw [hshown] at hhidden
          cases hhidden
        | true =>
          obtain ⟨-, -, modifier, next, others, hchildren, -⟩ := beginsLineAmbient_iff.1 hbegins
          obtain rfl : ns = modifier :: next :: others := hchildren
          obtain ⟨hle, hrest⟩ := fitAll_behind hfits.children
          have hedit : e = ⟨⟨s.start, next.start⟩, ""⟩ := by
            simpa [change?, hbegins, eq_comm] using hchange
          have hedits : editsIn id (encode cs) place (.node l s (modifier :: next :: others)) =
              [⟨⟨s.start, next.start⟩, ""⟩] ++ editsInAll id (encode cs)
                (.node l s (modifier :: next :: others)) place [modifier] (next :: others) := by
            simp [editsIn, editsInRest, hchange, hbegins, hedit]
          have hmodifier : InOrder s.start next.start [⟨⟨s.start, next.start⟩, ""⟩] :=
            ⟨Nat.le_refl _, hle, Nat.le_refl _⟩
          rw [placedAll, List.mem_append] at hp
          rcases hp with hp | hp
          · -- the modifier goes with all that stands in it
            have hhidden : isHidden id (encode cs) p.2 = true :=
              isHidden_of_mem_placed (by simp [isHidden, hchange]) hp
            rw [hshown] at hhidden
            cases hhidden
          · rw [hedits]
            have hends'' : ∀ q ∈ placedAll (.node l s (modifier :: next :: others)) place
                [modifier] (next :: others),
                q.1.label.type = "ambient_declaration" → EndsWithLast q.1 := by
              intro q hq
              refine hends' q ?_
              rw [placedAll]
              exact List.mem_append_right _ hq
            exact PartAround.prepend hmodifier
              (partAround_of_mem_placedAll hrest hends'' hp hshown)

theorem partAround_of_mem_placedAll {parent : Node} {place : Place} {p : Located} :
    ∀ {ns before : List Node} {start stop : Nat}, Tree.FitAll cs start stop ns →
    (∀ q ∈ placedAll parent place before ns,
      q.1.label.type = "ambient_declaration" → EndsWithLast q.1) →
    p ∈ placedAll parent place before ns → isHidden id (encode cs) p.2 = false →
    PartAround id (encode cs) p start stop (editsInAll id (encode cs) parent place before ns)
  | [], _, _, _, _, _, hp, _ => by simp [placedAll] at hp
  | n :: ns, before, start, stop, hfits, hends, hp, hshown => by
    obtain ⟨hstart, hn, hns⟩ := Tree.fitAll_cons.1 hfits
    have hends₁ : ∀ q ∈ placed (.inside parent place before) n,
        q.1.label.type = "ambient_declaration" → EndsWithLast q.1 :=
      fun q hq => hends q (by simp [placedAll, hq])
    have hends₂ : ∀ q ∈ placedAll parent place (n :: before) ns,
        q.1.label.type = "ambient_declaration" → EndsWithLast q.1 :=
      fun q hq => hends q (by simp [placedAll, hq])
    rw [placedAll, List.mem_append] at hp
    rw [editsInAll]
    rcases hp with hp | hp
    · obtain ⟨front, after, heq, hfront, hin, hafter⟩ :=
        partAround_of_mem_placed hn hends₁ hp hshown
      have hrest : InOrder n.stop stop (editsInAll id (encode cs) parent place (n :: before) ns) :=
        (makes_locateAll hns hends₂).inOrder
      exact PartAround.append ⟨front, after, heq, hfront.of_le hstart, hin, hafter⟩ hrest
    · have hfirst : InOrder n.start n.stop
          (editsIn id (encode cs) (.inside parent place before) n) :=
        (makes_locate hn hends₁).inOrder
      exact PartAround.prepend (hfirst.of_le hstart)
        (partAround_of_mem_placedAll hns hends₂ hp hshown)

end

/-! ## The content -/

/-- The content of a module is the source with the edits of its tree. -/
theorem exists_content (id : String) (hfits : tree.Fits cs)
    (hends : ∀ p ∈ placed .root tree, p.1.label.type = "ambient_declaration" → EndsWithLast p.1) :
    ∃ content, moduleContent id (encode cs) tree = .ok content ∧
      encode content.toList =
        edited (encode cs) 0 (encode cs).length (editsIn id (encode cs) .root tree) ∧
      InOrder tree.start tree.stop (editsIn id (encode cs) .root tree) := by
  have hstop : tree.stop ≤ (encode cs).length := hfits.isBoundary_stop.le_length
  have hroot : Makes id cs [locate .root tree] (locate .root tree).start (locate .root tree).stop
      (editsIn id (encode cs) .root tree) := by
    simpa using makes_locate hfits hends
  have hnil : Makes id cs [] (locate .root tree).stop (encode cs).length [] :=
    Makes.nil (by simpa using hstop)
  have hmakes := hroot.cons hnil (Nat.zero_le _)
  rw [List.append_nil] at hmakes
  have hall : Tree.FitAll cs 0 (encode cs).length [locate .root tree] := by
    simp [Tree.FitAll, fits_locate hfits, hstop]
  obtain ⟨q, hq, hwritten, -⟩ :=
    between_advances hall hmakes.answered (isBoundary_zero cs) (isBoundary_length cs)
  refine ⟨.ofList q.written, ?_, ?_, by simpa using hroot.inOrder⟩
  · simp only [moduleContent, whole, wholeProgress, hq, result]
  · rw [String.toList_ofList, hwritten, hmakes.spliced_eq]

end DeclBundle.Declaration
