import DeclBundle.Assembly
import DeclBundle.Proofs.Declaration.Around
import DeclBundle.Proofs.Format.Indent
import Mathlib.Tactic.Choose
set_option autoImplicit false

/-!
# Literals in a bundle

Literals that no change replaces come to stand in the block of their module in the order that they
have in the source, none of them lost.  What stands there is the literal with what is written anew
in it, and with the indent behind those of its line feeds that no other line feed follows
(`literals_survive`): indenting looks at line feeds alone and takes no notice of literals.
-/

namespace DeclBundle.Rewrite

open Utf8

/-! ## Cuts between edits -/

variable {source : List UInt8} {es fs es' fs' : List Edit} {start stop mid mid' : Nat}

/-- Of two ways to part a list, the one that ends before anything without a property is no longer than
one that has nothing with the property behind it. -/
theorem prefix_of_forall {α : Type} {P : α → Prop} {as bs as' bs' : List α}
    (h : as ++ bs = as' ++ bs') (has : ∀ a ∈ as, P a) (hbs : ∀ b ∈ bs', ¬ P b) : as <+: as' := by
  rcases List.append_eq_append_iff.1 h with ⟨more, rfl, -⟩ | ⟨more, rfl, rfl⟩
  · exact List.prefix_append as more
  · cases more with
    | nil => simp
    | cons a more => exact absurd (has a (by simp)) (hbs a (by simp))

/-- Whether a text that edits make of a source falls in two at an offset that lies in none of the
edits. -/
structure Cut (cs content : List Char) (edits : List Edit) (mid : Nat) (es fs : List Edit)
    (front back : List Char) : Prop where
  edits_eq : edits = es ++ fs
  before : InOrder 0 mid es
  behind : InOrder mid (encode cs).length fs
  content_eq : content = front ++ back
  front_eq : encode front = edited (encode cs) 0 mid es

/-- Of two cuts, the one that is made earlier in the source has no more before it. -/
theorem Cut.front_prefix {cs content front back front' back' : List Char} {edits : List Edit}
    {P : Edit → Prop} (h : Cut cs content edits mid es fs front back)
    (h' : Cut cs content edits mid' es' fs' front' back') (hle : mid ≤ mid')
    (hes : ∀ e ∈ es, P e) (hfs : ∀ e ∈ fs', ¬ P e) : front <+: front' := by
  have hedits := h.edits_eq.symm.trans h'.edits_eq
  obtain ⟨between, rfl⟩ := prefix_of_forall hedits hes hfs
  obtain rfl : fs = between ++ fs' := by simpa using hedits
  have hbetween : InOrder mid mid' between :=
    h.behind.take hle fun e he => (h'.before.span_of_mem (List.mem_append_right _ he)).2.2
  refine prefix_of_encode_length_le (h.content_eq.symm.trans h'.content_eq) ?_
  rw [h.front_eq, h'.front_eq, edited_append _ h.before hbetween, List.length_append]
  omega

/-- Behind edits that end before it does, a part of the source ends as it did. -/
theorem exists_tail_of_edited {cs : List Char} (hes : InOrder start stop es)
    (hends : ∀ e ∈ es, e.span.stop < stop) (hlt : start < stop) (hstart : IsBoundary cs start)
    (hboundaries : ∀ e ∈ es, IsBoundary cs e.span.start ∧ IsBoundary cs e.span.stop) :
    ∃ text last, start ≤ last ∧ last < stop ∧ IsBoundary cs last ∧
      edited (encode cs) start stop es = encode text ++ stretch (encode cs) last stop := by
  induction es generalizing start with
  | nil => exact ⟨[], start, Nat.le_refl _, hlt, hstart, rfl⟩
  | cons e es ih =>
    obtain ⟨hbegins, hspan, hrest⟩ := hes
    obtain ⟨hfrom, hto⟩ := hboundaries e List.mem_cons_self
    obtain ⟨before, -, hbefore⟩ := decode_stretch hstart hfrom
    obtain ⟨text, last, hle, hlast, hboundary, htail⟩ :=
      ih hrest (fun f hf => hends f (List.mem_cons_of_mem e hf)) (hends e List.mem_cons_self) hto
        fun f hf => hboundaries f (List.mem_cons_of_mem e hf)
    refine ⟨before ++ e.text.toList ++ text, last, by omega, hlast, hboundary, ?_⟩
    simp only [edited, htail, encode_append, hbefore, List.append_assoc]

end DeclBundle.Rewrite

namespace DeclBundle.Format

/-! ## Where a part comes to stand -/

variable {indent front back front' back' : List Char}

/-- How many characters stand before a part of an indented text. -/
def offset (indent front back : List Char) : Nat :=
  (indentFeeds indent (lineFollows false back) front).length

/-- Indenting keeps the order of places in a text. -/
theorem offset_le (h : front ++ back = front' ++ back') (hfront : front <+: front') :
    offset indent front back ≤ offset indent front' back' := by
  obtain ⟨between, rfl⟩ := hfront
  obtain rfl : back = between ++ back' := by simpa using h
  rw [offset, offset, indentFeeds_append, lineFollows_append, List.length_append]
  omega

/-- What ends in no line feed takes up as much place wherever it stands. -/
theorem offset_append {text : List Char} (h : text.getLast? ≠ some '\n') :
    offset indent (front ++ text) back =
      offset indent front (text ++ back) + (indentFeeds indent false text).length := by
  rw [offset, offset, indentFeeds_append, lineFollows_append, List.length_append,
    indentFeeds_of_getLast h _ false]

/-- What ends in no line feed stands in an indented text as if it were indented by itself. -/
theorem indentFeeds_parts {text : List Char} (h : text.getLast? ≠ some '\n') :
    ∃ before after, indentFeeds indent false (front ++ text ++ back) =
      before ++ indentFeeds indent false text ++ after ∧
      before.length = offset indent front (text ++ back) := by
  refine ⟨indentFeeds indent (lineFollows false (text ++ back)) front,
    indentFeeds indent false back, ?_, rfl⟩
  rw [List.append_assoc, indentFeeds_append, indentFeeds_append false text back,
    indentFeeds_of_getLast h (lineFollows false back) false, List.append_assoc]

end DeclBundle.Format

namespace DeclBundle.Declaration

open Utf8 Rewrite

variable {id : String} {cs : List Char} {tree : Node} {p q : Located}

/-! ## Literals that stay -/

/-- Whether a node is a string literal or a template. -/
def isLiteral (n : Node) : Bool :=
  n.label.type == "string" || n.label.type == "template_string" ||
    n.label.type == "template_literal_type"

/-- Whether a node of a tree is a literal that stays: no change replaces it or what it stands in. -/
structure IsKept (id : String) (source : List UInt8) (tree : Node) (p : Located) : Prop where
  mem : p ∈ placed .root tree
  isLiteral : isLiteral p.1 = true
  not_hidden : ¬ Hidden id source p.2
  not_changed : ¬ IsChanged id source p

/-- Whether a literal stands between marks of its own: it does not end in a line feed, and what is
written anew in it lies between its ends. -/
structure IsMarked (id : String) (source : List UInt8) (p : Located) : Prop where
  last : ∃ text mark, textOf source p.1 = .ok text ∧ text.toList.getLast? = some mark ∧ mark ≠ '\n'
  inside : ∀ q ∈ placed p.2 p.1, IsChanged id source q →
    p.1.start < q.1.start ∧ q.1.stop < p.1.stop

/-- What a node that stays becomes: its text with what is written anew in it. -/
def Becomes (id : String) (source : List UInt8) (p : Located) (text : String) : Prop :=
  ∃ edits, List.Forall₂ (fun q e => Change id source q.1 q.2 e)
      ((placed p.2 p.1).filter fun q => IsChanged id source q) edits ∧
    encode text.toList = edited source p.1.start p.1.stop edits

/-- A node in which nothing is written anew stays as it is. -/
theorem Becomes.textOf_eq {source : List UInt8} {text : String} (h : Becomes id source p text)
    (hsame : ∀ q ∈ placed p.2 p.1, ¬ IsChanged id source q) : textOf source p.1 = .ok text := by
  obtain ⟨edits, hedits, htext⟩ := h
  have hnone : ((placed p.2 p.1).filter fun q => IsChanged id source q) = [] := by
    rw [List.filter_eq_nil_iff]
    exact fun q hq => by simpa using hsame q hq
  rw [hnone] at hedits
  obtain rfl := List.forall₂_nil_left_iff.1 hedits
  rw [edited, stretch] at htext
  rw [textOf, slice, ← htext, decode_encode]
  exact congrArg Except.ok String.ofList_toList

/-! ## Where literals come to stand -/

/-- What stands before, in and behind a literal that stays: the edits there, and the parts of the
content that they make. -/
structure Parts (id : String) (cs : List Char) (tree : Node) (content : List Char) (p : Located)
    (before after : List Edit) (front text back : List Char) : Prop where
  begins : Cut cs content (editsIn id (encode cs) .root tree) p.1.start before
    (editsIn id (encode cs) p.2 p.1 ++ after) front (text ++ back)
  ends : Cut cs content (editsIn id (encode cs) .root tree) p.1.stop
    (before ++ editsIn id (encode cs) p.2 p.1) after (front ++ text) back
  text_eq : encode text = edited (encode cs) p.1.start p.1.stop (editsIn id (encode cs) p.2 p.1)
  inside : ∀ e ∈ editsIn id (encode cs) p.2 p.1,
    p.1.start < e.span.start ∧ e.span.start ≤ e.span.stop ∧ e.span.stop < p.1.stop
  start_lt_stop : p.1.start < p.1.stop
  last_ne : text.getLast? ≠ some '\n'

/-- The text of a node that fits a source has the bytes of the node. -/
theorem encode_of_textOf {n : Node} {text : String} (hfits : n.Fits cs)
    (h : textOf (encode cs) n = .ok text) :
    encode text.toList = stretch (encode cs) n.start n.stop := by
  obtain ⟨chars, hdecode, hbytes⟩ := decode_stretch hfits.isBoundary_start hfits.isBoundary_stop
  have hslice : slice (encode cs) n.start n.stop = .ok chars := hdecode
  rw [textOf, hslice] at h
  obtain rfl : String.ofList chars = text := Except.ok.inj h
  rw [String.toList_ofList, hbytes]

/-- The edits in a literal lie between its marks. -/
theorem IsMarked.span_of_mem {e : Edit} (h : IsMarked id (encode cs) p) (hfits : p.1.Fits cs)
    (hshown : isHidden id (encode cs) p.2 = false) (he : e ∈ editsIn id (encode cs) p.2 p.1) :
    p.1.start < e.span.start ∧ e.span.stop < p.1.stop := by
  obtain ⟨i, hi, rfl⟩ := List.mem_iff_getElem.1 he
  have hedits := forall₂_editsIn (n := p.1) (encode cs) hshown
  have hchange := hedits.get (hedits.length_eq ▸ hi) hi
  obtain ⟨hmem, hchanged⟩ := List.mem_filter.1 (List.get_mem _ ⟨i, hedits.length_eq ▸ hi⟩)
  obtain ⟨hstart, hstop⟩ := h.inside _ hmem (of_decide_eq_true hchanged)
  obtain ⟨hfrom, hto, -⟩ := hchange.span_fits (fits_of_mem_placed hfits hmem)
  exact ⟨Nat.lt_of_lt_of_le hstart hfrom, Nat.lt_of_le_of_lt hto hstop⟩

/-- What becomes of a literal ends as the literal does. -/
theorem IsMarked.getLast_ne {text : List Char} (h : IsMarked id (encode cs) p) (hfits : p.1.Fits cs)
    (hshown : isHidden id (encode cs) p.2 = false)
    (hinOrder : InOrder p.1.start p.1.stop (editsIn id (encode cs) p.2 p.1))
    (htext : encode text = edited (encode cs) p.1.start p.1.stop (editsIn id (encode cs) p.2 p.1)) :
    p.1.start < p.1.stop ∧ text.getLast? ≠ some '\n' := by
  obtain ⟨source, mark, hsource, hmark, hne⟩ := h.last
  have hbytes := encode_of_textOf hfits hsource
  have hlt : p.1.start < p.1.stop := by
    rcases Nat.lt_or_ge p.1.start p.1.stop with hlt | hle
    · exact hlt
    · rw [stretch, Nat.sub_eq_zero_of_le hle, List.take_zero] at hbytes
      rw [encode_injective (hbytes.trans encode_nil.symm)] at hmark
      cases hmark
  refine ⟨hlt, ?_⟩
  obtain ⟨rest, last, hle, hlast, hboundary, htail⟩ := exists_tail_of_edited hinOrder
    (fun e he => (h.span_of_mem hfits hshown he).2) hlt hfits.isBoundary_start
    (fun e he => isBoundary_of_mem_editsIn hfits hshown he)
  obtain ⟨tail, -, htailBytes⟩ := decode_stretch hboundary hfits.isBoundary_stop
  obtain ⟨first, -, hfirstBytes⟩ := decode_stretch hfits.isBoundary_start hboundary
  -- the literal and what becomes of it have the same tail
  have htextEq : text = rest ++ tail := by
    apply encode_injective
    rw [htext, htail, encode_append, htailBytes]
  have hsourceEq : source.toList = first ++ tail := by
    apply encode_injective
    rw [hbytes, encode_append, hfirstBytes, htailBytes,
      stretch_append _ hle (Nat.le_of_lt hlast)]
  have hne' : tail ≠ [] := by
    rintro rfl
    have hlength := congrArg List.length htailBytes
    have hstop := hfits.isBoundary_stop.le_length
    simp only [encode_nil, List.length_nil, stretch, List.length_take, List.length_drop] at hlength
    omega
  rw [hsourceEq, List.getLast?_append_of_ne_nil _ hne'] at hmark
  rw [htextEq, List.getLast?_append_of_ne_nil _ hne', hmark]
  exact fun heq => hne (Option.some.inj heq)

theorem exists_parts_of_isKept {content : List Char} (hfits : tree.Fits cs)
    (hends : ∀ p ∈ placed .root tree, p.1.label.type = "ambient_declaration" → EndsWithLast p.1)
    (hcontent : encode content =
      edited (encode cs) 0 (encode cs).length (editsIn id (encode cs) .root tree))
    (hkept : IsKept id (encode cs) tree p) (hmarked : IsMarked id (encode cs) p) :
    ∃ before after front text back, Parts id cs tree content p before after front text back := by
  have hshown : isHidden id (encode cs) p.2 = false := by
    simpa [← isHidden_iff] using hkept.not_hidden
  have hself : p.1.Fits cs := fits_of_mem_placed hfits hkept.mem
  obtain ⟨before, after, hedits, hbefore, hinside, hafter⟩ :=
    partAround_of_mem_placed hfits hends hkept.mem hshown
  have hbehind : InOrder p.1.stop (encode cs).length after := by
    have hrest : InOrder tree.stop (encode cs).length [] := hfits.isBoundary_stop.le_length
    simpa using hafter.append hrest
  rw [hedits] at hcontent
  obtain ⟨front, text, back, hparts, hfront, htext, -⟩ :=
    exists_parts hcontent (hbefore.of_le (Nat.zero_le _)) hinside hbehind (isBoundary_zero cs)
      hself.isBoundary_start hself.isBoundary_stop (isBoundary_length cs) fun e he =>
        isBoundary_of_mem_editsIn hfits rfl (hedits ▸ he)
  obtain ⟨hlt, hlast⟩ := hmarked.getLast_ne hself hshown hinside htext
  refine ⟨before, after, front, text, back, ⟨?_, hbefore.of_le (Nat.zero_le _),
    hinside.append hbehind, ?_, hfront⟩, ⟨hedits, (hbefore.of_le (Nat.zero_le _)).append hinside,
    hbehind, hparts, ?_⟩, htext, ?_, hlt, hlast⟩
  · rw [hedits, List.append_assoc]
  · rw [hparts, List.append_assoc]
  · rw [encode_append, hfront, htext, edited_append _ (hbefore.of_le (Nat.zero_le _)) hinside]
  · intro e he
    obtain ⟨hfrom, hto⟩ := hmarked.span_of_mem hself hshown he
    exact ⟨hfrom, (hinside.span_of_mem he).2.1, hto⟩

variable {content front text back front' text' back' : List Char}
  {before after before' after' : List Edit}

/-- What comes before a literal or ends with it ends no later than its end, and what comes behind its
end does not. -/
theorem Parts.start_lt_of_mem (h : Parts id cs tree content p before after front text back)
    {e : Edit} (he : e ∈ before ++ editsIn id (encode cs) p.2 p.1) :
    e.span.start < p.1.stop := by
  rcases List.mem_append.1 he with he | he
  · have hspan := h.begins.before.span_of_mem he
    have hlt := h.start_lt_stop
    omega
  · have hspan := h.inside e he
    omega

theorem Parts.stop_gt_of_mem (h : Parts id cs tree content p before after front text back)
    {e : Edit} (he : e ∈ editsIn id (encode cs) p.2 p.1 ++ after) : p.1.start < e.span.stop := by
  rcases List.mem_append.1 he with he | he
  · have hspan := h.inside e he
    omega
  · have hspan := h.ends.behind.span_of_mem he
    have hlt := h.start_lt_stop
    omega

/-- Literals come to stand in the order that they have: their beginnings do, their ends do, and one
that follows another does. -/
theorem Parts.prefixes (hp : Parts id cs tree content p before after front text back)
    (hq : Parts id cs tree content q before' after' front' text' back') :
    (p.1.start ≤ q.1.start → front <+: front') ∧
      (p.1.stop ≤ q.1.stop → front ++ text <+: front' ++ text') ∧
      (p.1.stop ≤ q.1.start → front ++ text <+: front') := by
  refine ⟨fun hle => ?_, fun hle => ?_, fun hle => ?_⟩
  · refine hp.begins.front_prefix hq.begins hle (P := fun e => e.span.stop ≤ q.1.start) ?_ ?_
    · exact fun e he => Nat.le_trans (hp.begins.before.span_of_mem he).2.2 hle
    · exact fun e he => Nat.not_le.2 (hq.stop_gt_of_mem he)
  · refine hp.ends.front_prefix hq.ends hle (P := fun e => e.span.start < p.1.stop) ?_ ?_
    · exact fun e he => hp.start_lt_of_mem he
    · exact fun e he => Nat.not_lt.2 (Nat.le_trans hle (hq.ends.behind.span_of_mem he).1)
  · refine hp.ends.front_prefix hq.begins hle (P := fun e => e.span.start < p.1.stop) ?_ ?_
    · exact fun e he => hp.start_lt_of_mem he
    · intro e he
      have hspan := hq.begins.behind.span_of_mem he
      omega

/-- Whether a text stands in a block in place of a literal: at an offset, as indenting leaves it. -/
def StandsAt (f : Format) (block text : String) (offset : Nat) : Prop :=
  (f.reindent text).toList <+: block.toList.drop offset

/-- A part of a content that ends in no line feed stands in the block behind what becomes of the text
before it. -/
theorem standsAt_offset {f : Format} {content : String} {front text back : List Char}
    (heol : f.eol = "\n") (hcontent : content.toList = front ++ text ++ back)
    (hlast : text.getLast? ≠ some '\n') :
    StandsAt f (f.moduleBlock id content) (.ofList text)
      ((f.opening id).length + Format.offset f.indent.toList front (text ++ back)) := by
  obtain ⟨ahead, rest, hsplit, hlength⟩ : ∃ ahead rest,
      Format.indentFeeds f.indent.toList false (front ++ text ++ back) =
        ahead ++ Format.indentFeeds f.indent.toList false text ++ rest ∧
      ahead.length = Format.offset f.indent.toList front (text ++ back) :=
    Format.indentFeeds_parts hlast
  rw [StandsAt, Format.toList_moduleBlock, Format.toList_reindent heol content, hcontent, hsplit,
    Format.toList_reindent heol, String.toList_ofList, ← hlength, ← List.length_append]
  refine ⟨rest ++ (f.eol ++ "\x7d" ++ f.eol).toList, ?_⟩
  simp only [List.append_assoc]
  rw [← List.append_assoc (f.opening id) ahead, List.drop_left]

/-- Literals that stay come to stand in the block of their module as they are but for what is written
anew in them and for the indent behind their line feeds, none of them lost and in the order that they
have.  They are unchanged just if there is no indent or they have no line feed. -/
theorem literals_survive (f : Format) (id : String) {cs : List Char} {tree : Node}
    (heol : f.eol = "\n") (hfits : tree.Fits cs)
    (hends : ∀ p ∈ placed .root tree, p.1.label.type = "ambient_declaration" → EndsWithLast p.1)
    (hmarked : ∀ p, IsKept id (encode cs) tree p → IsMarked id (encode cs) p) :
    ∃ content, moduleContent id (encode cs) tree = .ok content ∧
      ∃ (literal : Located → String) (begins : Located → Nat),
        (∀ p, IsKept id (encode cs) tree p →
          Becomes id (encode cs) p (literal p) ∧
          ((∀ q ∈ placed p.2 p.1, ¬ IsChanged id (encode cs) q) →
            textOf (encode cs) p.1 = .ok (literal p)) ∧
          StandsAt f (f.moduleBlock id content) (literal p) (begins p) ∧
          (f.reindent (literal p) = literal p ↔ f.indent = "" ∨ '\n' ∉ (literal p).toList)) ∧
        ∀ p q, IsKept id (encode cs) tree p → IsKept id (encode cs) tree q →
          (p.1.start ≤ q.1.start → begins p ≤ begins q) ∧
          (p.1.stop ≤ q.1.stop →
            begins p + (f.reindent (literal p)).length ≤
              begins q + (f.reindent (literal q)).length) ∧
          (p.1.stop ≤ q.1.start →
            begins p + (f.reindent (literal p)).length ≤ begins q) := by
  obtain ⟨content, hmodule, hcontent, -⟩ := exists_content id hfits hends
  have hparts : ∀ p, IsKept id (encode cs) tree p → ∃ before after front text back,
      Parts id cs tree content.toList p before after front text back :=
    fun p hp => exists_parts_of_isKept hfits hends hcontent hp (hmarked p hp)
  choose! before after front text back hparts using hparts
  refine ⟨content, hmodule, fun p => .ofList (text p), fun p => (f.opening id).length +
    Format.offset f.indent.toList (front p) (text p ++ back p), ?_, ?_⟩
  · intro p hp
    have hpart := hparts p hp
    have hshown : isHidden id (encode cs) p.2 = false := by
      simpa [← isHidden_iff] using hp.not_hidden
    have hbecomes : Becomes id (encode cs) p (.ofList (text p)) :=
      ⟨_, forall₂_editsIn (encode cs) hshown, by rw [String.toList_ofList, hpart.text_eq]⟩
    refine ⟨hbecomes, hbecomes.textOf_eq, ?_, ?_⟩
    · exact standsAt_offset heol hpart.ends.content_eq hpart.last_ne
    · rw [← String.toList_inj, Format.toList_reindent heol, String.toList_ofList,
        Format.indentFeeds_eq_self_iff hpart.last_ne, String.toList_eq_nil_iff]
  · intro p q hp hq
    obtain ⟨hstarts, hstops, hapart⟩ := (hparts p hp).prefixes (hparts q hq)
    have hlength : ∀ r, IsKept id (encode cs) tree r →
        Format.offset f.indent.toList (front r) (text r ++ back r) +
          (f.reindent (.ofList (text r))).length =
        Format.offset f.indent.toList (front r ++ text r) (back r) := by
      intro r hr
      rw [Format.offset_append (hparts r hr).last_ne, ← String.length_toList,
        Format.toList_reindent heol, String.toList_ofList]
    have hbegin := (hparts p hp).begins.content_eq
    have hend := (hparts p hp).ends.content_eq
    have hbegin' := (hparts q hq).begins.content_eq
    have hend' := (hparts q hq).ends.content_eq
    simp only [Nat.add_assoc, hlength p hp, hlength q hq, Nat.add_le_add_iff_left]
    exact ⟨fun hle => Format.offset_le (hbegin.symm.trans hbegin') (hstarts hle),
      fun hle => Format.offset_le (hend.symm.trans hend') (hstops hle),
      fun hle => Format.offset_le (hend.symm.trans hbegin') (hapart hle)⟩

/-! ## A template on two lines -/

/-- The text of a file that exports a template type with a line feed in it. -/
def twoLineText : String :=
  "export type T = `a\nb`;"

/-- The template type. -/
def twoLineTemplate : Node :=
  .node { type := "template_literal_type" } ⟨16, 21⟩ []

/-- The statement that it stands in. -/
def twoLineStatement : Node :=
  .node { type := "export_statement" } ⟨0, 22⟩ [twoLineTemplate]

/-- The tree of the file. -/
def twoLineTree : Node :=
  .node { type := "program" } ⟨0, 22⟩ [twoLineStatement]

/-- The template type at its place. -/
def twoLineLiteral : Located :=
  (twoLineTemplate, .inside twoLineStatement (.inside twoLineTree .root []) [])

theorem fits_twoLineTree : twoLineTree.Fits twoLineText.toList := by
  simp only [twoLineTree, twoLineStatement, twoLineTemplate, Tree.Fits, Tree.FitAll,
    Tree.start_node, Tree.stop_node]
  decide

/-- The template type stays, and nothing else does. -/
theorem isKept_twoLineTree_iff :
    IsKept "lib/a" (encode twoLineText.toList) twoLineTree p ↔ p = twoLineLiteral := by
  constructor
  · rintro ⟨hmem, hliteral, -, -⟩
    have hplaced : placed .root twoLineTree = [(twoLineTree, .root),
        (twoLineStatement, .inside twoLineTree .root []), twoLineLiteral] := rfl
    rw [hplaced] at hmem
    simp only [List.mem_cons, List.not_mem_nil, or_false] at hmem
    rcases hmem with rfl | rfl | rfl
    · cases hliteral
    · cases hliteral
    · rfl
  · rintro rfl
    refine ⟨?_, rfl, ?_, by decide +kernel⟩
    · exact List.mem_cons_of_mem _ (List.mem_cons_of_mem _ List.mem_cons_self)
    · rw [← isHidden_iff]
      decide +kernel

/-- In the block, the second line of the template type begins with the indent. -/
theorem literals_survive_template :
    ∃ content, moduleContent "lib/a" (encode twoLineText.toList) twoLineTree = .ok content ∧
      ∃ begins, StandsAt {} (({} : Format).moduleBlock "lib/a" content) "`a\nb`" begins := by
  obtain ⟨content, hcontent, literal, begins, hkept, -⟩ :=
    literals_survive {} "lib/a" rfl fits_twoLineTree (by decide +kernel) fun p hp => by
      obtain rfl := isKept_twoLineTree_iff.1 hp
      refine ⟨⟨"`a\nb`", '`', by decide +kernel, by decide, by decide⟩, ?_⟩
      intro q hq hq'
      obtain rfl := List.mem_singleton.1 hq
      exact absurd hq' hp.not_changed
  obtain ⟨-, htext, hstands, -⟩ := hkept _ (isKept_twoLineTree_iff.2 rfl)
  have hsame := htext fun q hq hq' => by
    obtain rfl := List.mem_singleton.1 hq
    exact (isKept_twoLineTree_iff.2 rfl).not_changed hq'
  have hliteral : literal twoLineLiteral = "`a\nb`" :=
    Except.ok.inj (hsame.symm.trans (by decide +kernel))
  exact ⟨content, hcontent, begins twoLineLiteral, hliteral ▸ hstands⟩

/-- The template type does not stand in the block as it is in the source. -/
theorem literals_altered :
    IsKept "lib/a" (encode twoLineText.toList) twoLineTree twoLineLiteral ∧
      textOf (encode twoLineText.toList) twoLineTemplate = .ok "`a\nb`" ∧
      moduleContent "lib/a" (encode twoLineText.toList) twoLineTree = .ok twoLineText ∧
      ({ grammar := fun _ => twoLineTree, base := "/p", package := "lib" } : Assembly).assemble
          ⟨"/p/a.d.ts", twoLineText, false⟩ =
        .ok (({} : Format).moduleBlock "lib/a" twoLineText) ∧
      ¬ "`a\nb`".toList <:+: (({} : Format).moduleBlock "lib/a" twoLineText).toList :=
  ⟨isKept_twoLineTree_iff.2 rfl, by decide +kernel, by decide +kernel, by decide +kernel,
    by decide +kernel⟩

end DeclBundle.Declaration
