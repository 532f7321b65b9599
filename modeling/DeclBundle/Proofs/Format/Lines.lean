import DeclBundle.Proofs.Format.Indent
import Mathlib.Data.List.Infix
set_option autoImplicit false

/-!
# Indenting line by line

Indenting looks for terminators one after the other and asks behind each whether a line follows that
is not empty.  For a terminator that cannot overlap itself this is the same as cutting the text at
its terminators, indenting every line but the first that is not empty, and joining the lines again
(`indentLines_eq_intercalate`).  An indent that shares no character with the terminator brings no
new terminator in, so that the lines can be found again and the indent be taken away
(`cutAt_indentLines`).
-/

namespace DeclBundle.Text

variable {mark : List Char}

/-! ## Cutting at a mark -/

/-- The pieces between the occurrences of a mark, which are found from left to right and do not
overlap. -/
def cutAt (mark : List Char) : List Char → List (List Char)
  | [] => [[]]
  | c :: cs =>
    if mark.isPrefixOf (c :: cs) then [] :: cutAt mark (cs.drop (mark.length - 1))
    else
      match cutAt mark cs with
      | [] => [[c]]
      | piece :: pieces => (c :: piece) :: pieces
termination_by cs => cs.length

theorem cutAt_nil : cutAt mark [] = [[]] := by
  rw [cutAt]

theorem cutAt_ne_nil (mark cs : List Char) : cutAt mark cs ≠ [] := by
  cases cs with
  | nil => simp [cutAt_nil]
  | cons c cs =>
    rw [cutAt]
    split
    · simp
    · split <;> simp

/-- At a mark an empty piece ends. -/
theorem cutAt_mark_append (hne : mark ≠ []) (cs : List Char) :
    cutAt mark (mark ++ cs) = [] :: cutAt mark cs := by
  obtain ⟨c, rest, rfl⟩ := List.exists_cons_of_ne_nil hne
  have hstarts : (c :: rest).isPrefixOf (c :: (rest ++ cs)) = true := by
    rw [List.isPrefixOf_iff_prefix]
    exact List.prefix_append (c :: rest) cs
  rw [List.cons_append, cutAt, if_pos hstarts]
  simp

/-- Where no mark stands, a character belongs to the first piece. -/
theorem exists_cutAt_cons {c : Char} {cs : List Char} (h : ¬ mark <+: c :: cs) :
    ∃ piece pieces, cutAt mark cs = piece :: pieces ∧
      cutAt mark (c :: cs) = (c :: piece) :: pieces := by
  obtain ⟨piece, pieces, hcut⟩ := List.exists_cons_of_ne_nil (cutAt_ne_nil mark cs)
  refine ⟨piece, pieces, hcut, ?_⟩
  rw [cutAt, if_neg (by rwa [List.isPrefixOf_iff_prefix]), hcut]

/-- A text is cut in two ways: it begins with the mark, or with a character that belongs to its
first piece. -/
theorem cutAt_cases {motive : List Char → Prop} (hne : mark ≠ []) (nil : motive [])
    (mark_append : ∀ cs, motive cs → motive (mark ++ cs))
    (cons : ∀ c cs, ¬ mark <+: c :: cs → motive cs → motive (c :: cs)) (cs : List Char) :
    motive cs := by
  induction hn : cs.length using Nat.strongRecOn generalizing cs with
  | ind n ih =>
    cases cs with
    | nil => exact nil
    | cons c cs =>
      by_cases hstarts : mark <+: c :: cs
      · obtain ⟨rest, hrest⟩ := hstarts
        have hpos := List.length_pos_iff.2 hne
        have hlength := congrArg List.length hrest
        rw [List.length_append, hn] at hlength
        exact hrest ▸ mark_append rest (ih rest.length (by omega) rest rfl)
      · rw [List.length_cons] at hn
        exact cons c cs hstarts (ih cs.length (by omega) cs rfl)

theorem intercalate_cons_append (mark line more : List Char) (lines : List (List Char)) :
    mark.intercalate ((line ++ more) :: lines) = line ++ mark.intercalate (more :: lines) := by
  cases lines <;> simp

theorem intercalate_cons_of_ne_nil {lines : List (List Char)} (h : lines ≠ [])
    (line : List Char) :
    mark.intercalate (line :: lines) = line ++ mark ++ mark.intercalate lines := by
  obtain ⟨next, others, rfl⟩ := List.exists_cons_of_ne_nil h
  exact List.intercalate_cons_cons

/-- Joining the pieces with the mark gives the text back. -/
theorem intercalate_cutAt (hne : mark ≠ []) (cs : List Char) :
    mark.intercalate (cutAt mark cs) = cs := by
  induction cs using cutAt_cases hne with
  | nil => simp [cutAt_nil]
  | mark_append cs ih =>
    rw [cutAt_mark_append hne, intercalate_cons_of_ne_nil (cutAt_ne_nil mark cs), ih,
      List.nil_append]
  | cons c cs hstarts ih =>
    obtain ⟨piece, pieces, hcut, hcons⟩ := exists_cutAt_cons hstarts
    rw [hcut] at ih
    have hjoin := intercalate_cons_append mark [c] piece pieces
    rw [hcons, ← ih]
    exact hjoin

/-- The first piece is empty just if the text is, or begins with the mark. -/
theorem head_cutAt_eq_nil_iff (hne : mark ≠ []) {cs piece : List Char} {pieces : List (List Char)}
    (h : cutAt mark cs = piece :: pieces) : piece = [] ↔ cs = [] ∨ mark <+: cs := by
  cases cs with
  | nil =>
    rw [cutAt_nil] at h
    simp [(List.cons.inj h).1.symm]
  | cons c cs =>
    by_cases hstarts : mark <+: c :: cs
    · obtain ⟨rest, hrest⟩ := hstarts
      rw [← hrest, cutAt_mark_append hne] at h
      simp [(List.cons.inj h).1.symm, ← hrest]
    · obtain ⟨first, others, -, hcons⟩ := exists_cutAt_cons hstarts
      rw [hcons] at h
      simp [(List.cons.inj h).1.symm, hstarts]

/-- The mark stands in no piece. -/
theorem not_infix_of_mem_cutAt (hne : mark ≠ []) {cs piece : List Char}
    (h : piece ∈ cutAt mark cs) : ¬ mark <:+: piece := by
  induction cs using cutAt_cases hne generalizing piece with
  | nil =>
    rw [cutAt_nil, List.mem_singleton] at h
    simpa [h] using hne
  | mark_append cs ih =>
    rw [cutAt_mark_append hne, List.mem_cons] at h
    rcases h with rfl | h
    · simpa using hne
    · exact ih h
  | cons c cs hstarts ih =>
    obtain ⟨first, others, hcut, hcons⟩ := exists_cutAt_cons hstarts
    rw [hcons, List.mem_cons] at h
    rcases h with rfl | h
    · -- a mark in the longer piece would begin it, and with it the text
      intro hinside
      rcases List.infix_cons_iff.1 hinside with hbegins | hinside
      · have hpiece : c :: first <+: c :: cs := by
          rw [← intercalate_cutAt hne cs, hcut]
          have hjoin := intercalate_cons_append mark first [] others
          rw [List.append_nil] at hjoin
          exact hjoin ▸ List.prefix_append (c :: first) _
        exact hstarts (hbegins.trans hpiece)
      · exact ih (hcut ▸ List.mem_cons_self) hinside
    · exact ih (hcut ▸ List.mem_cons_of_mem first h)

/-! ## Marks that do not overlap -/

/-- Whether a mark ends with no beginning of itself but the empty one and the whole.  Then two
occurrences of it in a text never overlap. -/
def IsUnbordered (mark : List Char) : Prop :=
  ∀ start, start <+: mark → start <:+ mark → start = [] ∨ start = mark

instance (mark : List Char) : Decidable (IsUnbordered mark) :=
  decidable_of_iff (∀ start ∈ mark.inits, start <:+ mark → start = [] ∨ start = mark) (by
    simp only [IsUnbordered, List.mem_inits])

/-- The rest of a mark behind its first characters does not begin with what the mark begins with. -/
theorem IsUnbordered.not_prefix_append (h : IsUnbordered mark) {front rest cs : List Char}
    (hmark : mark = front ++ rest) (hfront : front ≠ []) (hrest : rest ≠ []) :
    ¬ mark <+: rest ++ cs := by
  intro hstarts
  have hlength := congrArg List.length hmark
  have hpos := List.length_pos_iff.2 hfront
  rw [List.length_append] at hlength
  have hborder : rest <+: mark :=
    List.prefix_of_prefix_length_le (List.prefix_append rest cs) hstarts (by omega)
  rcases h rest hborder ⟨front, hmark.symm⟩ with rfl | rfl
  · exact hrest rfl
  · omega

/-- A mark that stands at the beginning of a text with a mark behind it stands in that text. -/
theorem IsUnbordered.prefix_of_prefix_append (h : IsUnbordered mark) {piece cs : List Char}
    (hpiece : piece ≠ []) (hstarts : mark <+: piece ++ (mark ++ cs)) : mark <+: piece := by
  rcases Nat.le_total mark.length piece.length with hle | hle
  · exact (List.isPrefix_append_of_length hle).1 hstarts
  · obtain ⟨rest, hrest⟩ : piece <+: mark :=
      List.prefix_of_prefix_length_le (List.prefix_append _ _) hstarts hle
    have hborder : rest <+: mark ++ cs := by
      rw [← List.prefix_append_right_inj piece, hrest]
      exact hstarts
    have hlength := congrArg List.length hrest
    have hpos := List.length_pos_iff.2 hpiece
    rw [List.length_append] at hlength
    have hstart : rest <+: mark := (List.isPrefix_append_of_length (by omega)).1 hborder
    rcases h rest hstart ⟨piece, hrest⟩ with rfl | rfl
    · rw [List.append_nil] at hrest
      exact hrest ▸ List.prefix_rfl
    · omega

/-- A text in which the mark does not stand is a piece, before the mark and at the end. -/
theorem cutAt_append_mark (h : IsUnbordered mark) (hne : mark ≠ []) {piece : List Char}
    (hpiece : ¬ mark <:+: piece) (cs : List Char) :
    cutAt mark (piece ++ (mark ++ cs)) = piece :: cutAt mark cs := by
  induction piece with
  | nil => exact cutAt_mark_append hne cs
  | cons c piece ih =>
    obtain ⟨hbegins, hrest⟩ := not_or.1 (mt List.infix_cons_iff.2 hpiece)
    have hstarts : ¬ mark <+: c :: (piece ++ (mark ++ cs)) :=
      fun hmark => hbegins (h.prefix_of_prefix_append (by simp) hmark)
    obtain ⟨first, others, hcut, hcons⟩ := exists_cutAt_cons hstarts
    rw [ih hrest] at hcut
    obtain ⟨rfl, rfl⟩ := List.cons.inj hcut
    exact hcons

theorem cutAt_of_not_infix {piece : List Char} (hpiece : ¬ mark <:+: piece) :
    cutAt mark piece = [piece] := by
  induction piece with
  | nil => exact cutAt_nil
  | cons c piece ih =>
    obtain ⟨hbegins, hrest⟩ := not_or.1 (mt List.infix_cons_iff.2 hpiece)
    obtain ⟨first, others, hcut, hcons⟩ := exists_cutAt_cons hbegins
    rw [ih hrest] at hcut
    obtain ⟨rfl, rfl⟩ := List.cons.inj hcut
    exact hcons

/-- Cutting joined pieces gives the pieces back. -/
theorem cutAt_intercalate (h : IsUnbordered mark) (hne : mark ≠ []) {pieces : List (List Char)}
    (hpieces : pieces ≠ []) (hfree : ∀ piece ∈ pieces, ¬ mark <:+: piece) :
    cutAt mark (mark.intercalate pieces) = pieces := by
  induction pieces with
  | nil => exact absurd rfl hpieces
  | cons piece pieces ih =>
    have hpiece := hfree piece List.mem_cons_self
    cases pieces with
    | nil => rw [List.intercalate_singleton, cutAt_of_not_infix hpiece]
    | cons next others =>
      rw [List.intercalate_cons_cons, List.append_assoc, cutAt_append_mark h hne hpiece,
        ih (by simp) fun p hp => hfree p (List.mem_cons_of_mem piece hp)]

/-- The lines of a text with something done to all but the first. -/
def mapFurther (f : List Char → List Char) : List (List Char) → List (List Char)
  | [] => []
  | first :: further => first :: further.map f

end DeclBundle.Text

namespace DeclBundle.Format

open Text

variable {eol indent : List Char}

/-! ## Indenting lines -/

/-- A line with the indent before it, unless it is empty. -/
def indented (indent line : List Char) : List Char :=
  if line = [] then [] else indent ++ line

/-- A line without the indent, if it begins with it. -/
def outdented (indent line : List Char) : List Char :=
  (afterStart? indent line).getD line

theorem outdented_indented (indent line : List Char) :
    outdented indent (indented indent line) = line := by
  unfold indented
  split
  · rename_i hline
    cases indent <;> simp [outdented, afterStart?, hline]
  · have hstarts : indent.isPrefixOf (indent ++ line) = true :=
      List.isPrefixOf_iff_prefix.2 (List.prefix_append indent line)
    simp [outdented, afterStart?, hstarts]

theorem map_outdented_mapFurther (indent : List Char) (lines : List (List Char)) :
    mapFurther (outdented indent) (mapFurther (indented indent) lines) = lines := by
  cases lines with
  | nil => rfl
  | cons first further => simp [mapFurther, Function.comp_def, outdented_indented]

/-- A terminator is told to end before a line by what follows it. -/
theorem endsBeforeLine_append (eol rest : List Char) :
    endsBeforeLine eol (eol ++ rest) = (!rest.isEmpty && !eol.isPrefixOf rest) := by
  have hstarts : eol.isPrefixOf (eol ++ rest) = true :=
    List.isPrefixOf_iff_prefix.2 (List.prefix_append eol rest)
  simp [endsBeforeLine, afterStart?, hstarts]

theorem indentLines_cons_of_not_starts {c : Char} {cs : List Char} (h : ¬ eol <+: c :: cs) :
    indentLines eol indent 0 (c :: cs) = c :: indentLines eol indent 0 cs := by
  rw [indentLines, if_neg]
  intro hends
  obtain ⟨tail, rest, rfl, rfl⟩ := exists_of_endsBeforeLine hends
  exact h (List.prefix_append (c :: tail) rest)

/-- Behind the first characters of a terminator, its rest is copied. -/
theorem indentLines_rest (h : IsUnbordered eol) (indent front : List Char) {rest : List Char}
    (heol : eol = front ++ rest) (hfront : front ≠ []) (cs : List Char) :
    indentLines eol indent 0 (rest ++ cs) = rest ++ indentLines eol indent 0 cs := by
  induction rest generalizing front with
  | nil => rfl
  | cons c rest ih =>
    have hstarts : ¬ eol <+: c :: (rest ++ cs) := h.not_prefix_append heol hfront (by simp)
    have hrest := ih (front ++ [c]) (by simp [heol]) (by simp)
    rw [List.cons_append, indentLines_cons_of_not_starts hstarts, hrest, List.cons_append]

/-- A terminator gets the indent behind it if a line follows that is not empty. -/
theorem indentLines_terminator (h : IsUnbordered eol) (hne : eol ≠ []) (cs : List Char) :
    indentLines eol indent 0 (eol ++ cs) =
      eol ++ ((if cs = [] ∨ eol <+: cs then [] else indent) ++ indentLines eol indent 0 cs) := by
  have hends := endsBeforeLine_append eol cs
  obtain ⟨c, rest, rfl⟩ := List.exists_cons_of_ne_nil hne
  rw [List.cons_append, indentLines, ← List.cons_append, hends]
  by_cases hempty : cs = [] ∨ c :: rest <+: cs
  · have hfollows : (!cs.isEmpty && !(c :: rest).isPrefixOf cs) = false := by
      rw [← List.isPrefixOf_iff_prefix] at hempty
      rcases hempty with rfl | hstarts
      · rfl
      · simp [hstarts]
    have hrest := indentLines_rest h indent [c] rfl (by simp) cs
    simp [hfollows, hempty, hrest]
  · obtain ⟨hcs, hstarts⟩ := not_or.1 hempty
    have hfollows : (!cs.isEmpty && !(c :: rest).isPrefixOf cs) = true := by
      rw [← List.isPrefixOf_iff_prefix, Bool.not_eq_true] at hstarts
      simp [hcs, hstarts]
    rw [if_pos hfollows, if_neg hempty, List.length_cons, Nat.add_sub_cancel,
      indentLines_passed, List.append_assoc]

/-- Indenting a text is indenting its lines. -/
theorem indentLines_eq_intercalate (h : IsUnbordered eol) (hne : eol ≠ []) (cs : List Char) :
    indentLines eol indent 0 cs =
      eol.intercalate (mapFurther (indented indent) (cutAt eol cs)) := by
  induction cs using cutAt_cases hne with
  | nil => simp [indentLines, cutAt_nil, mapFurther]
  | mark_append cs ih =>
    obtain ⟨line, lines, hcut⟩ := List.exists_cons_of_ne_nil (cutAt_ne_nil eol cs)
    have hline := head_cutAt_eq_nil_iff hne hcut
    have hindented : indented indent line =
        (if cs = [] ∨ eol <+: cs then [] else indent) ++ line := by
      unfold indented
      by_cases hempty : line = []
      · simp [hempty, hline.1 hempty]
      · simp [hempty, mt hline.2 hempty]
    rw [indentLines_terminator h hne, ih, cutAt_mark_append hne, hcut, mapFurther, mapFurther,
      List.map_cons, List.intercalate_cons_cons, hindented, intercalate_cons_append,
      List.nil_append]
  | cons c cs hstarts ih =>
    obtain ⟨line, lines, hcut, hcons⟩ := exists_cutAt_cons hstarts
    have hjoin := intercalate_cons_append eol [c] line (lines.map (indented indent))
    rw [hcut, mapFurther] at ih
    rw [indentLines_cons_of_not_starts hstarts, ih, hcons, mapFurther]
    exact hjoin.symm

/-- An indent without a character of the terminator puts no terminator into a line. -/
theorem not_infix_indented (hne : eol ≠ []) (hindent : ∀ c ∈ indent, c ∉ eol) {line : List Char}
    (hline : ¬ eol <:+: line) : ¬ eol <:+: indented indent line := by
  unfold indented
  split
  · simpa using hne
  · rintro ⟨front, back, hsplit⟩
    rw [List.append_assoc] at hsplit
    rcases List.append_eq_append_iff.1 hsplit.symm with ⟨more, rfl, hmore⟩ | ⟨more, rfl, hmore⟩
    · exact hline ⟨more, back, by rw [hmore, List.append_assoc]⟩
    · -- the terminator would begin in the indent
      cases more with
      | nil => exact hline ⟨[], back, by simpa using hmore⟩
      | cons c more =>
        obtain ⟨d, rest, rfl⟩ := List.exists_cons_of_ne_nil hne
        obtain rfl : d = c := (List.cons.inj hmore).1
        exact hindent d (by simp) List.mem_cons_self

/-- The lines of an indented text are the indented lines. -/
theorem cutAt_indentLines (h : IsUnbordered eol) (hne : eol ≠ [])
    (hindent : ∀ c ∈ indent, c ∉ eol) (cs : List Char) :
    cutAt eol (indentLines eol indent 0 cs) =
      mapFurther (indented indent) (cutAt eol cs) := by
  rw [indentLines_eq_intercalate h hne]
  have hfree : ∀ line ∈ cutAt eol cs, ¬ eol <:+: line := fun line => not_infix_of_mem_cutAt hne
  obtain ⟨first, further, hcut⟩ := List.exists_cons_of_ne_nil (cutAt_ne_nil eol cs)
  rw [hcut] at hfree ⊢
  refine cutAt_intercalate h hne (by simp [mapFurther]) fun line hline => ?_
  rw [mapFurther, List.mem_cons, List.mem_map] at hline
  rcases hline with rfl | ⟨line, hmem, rfl⟩
  · exact hfree _ List.mem_cons_self
  · exact not_infix_indented hne hindent (hfree line (List.mem_cons_of_mem first hmem))

/-- For every format whose terminator is not empty and cannot overlap itself, and every content:
indenting cuts the content at the terminator, puts the indent before every line but the first that
is not empty, and joins the lines again.  If indent and terminator have no character in common,
taking one indent away from every line but the first of what comes out gives the content back. -/
theorem reindent_lineWise (f : Format) (content : String) (hne : f.eol ≠ "")
    (h : IsUnbordered f.eol.toList) :
    (f.reindent content).toList = f.eol.toList.intercalate
        (mapFurther (indented f.indent.toList) (cutAt f.eol.toList content.toList)) ∧
      ((∀ c ∈ f.indent.toList, c ∉ f.eol.toList) →
        f.eol.toList.intercalate (mapFurther (outdented f.indent.toList)
          (cutAt f.eol.toList (f.reindent content).toList)) = content.toList) := by
  have heol : f.eol.toList ≠ [] := by simpa using hne
  have hindent : (f.reindent content).toList =
      indentLines f.eol.toList f.indent.toList 0 content.toList := by
    rw [reindent, String.toList_ofList]
  refine ⟨by rw [hindent, indentLines_eq_intercalate h heol], fun hshared => ?_⟩
  rw [hindent, cutAt_indentLines h heol hshared, map_outdented_mapFurther, intercalate_cutAt heol]

/-- With line ends of two characters, the empty line stays empty and the end of the text begins no
line. -/
theorem reindent_lineWise_carriage :
    IsUnbordered "\r\n".toList ∧
      ({ eol := "\r\n", indent := "  " } : Format).reindent "a\r\n\r\nb\r\n" =
        "a\r\n\r\n  b\r\n" ∧
      "\r\n".toList.intercalate (mapFurther (outdented "  ".toList)
        (cutAt "\r\n".toList "a\r\n\r\n  b\r\n".toList)) = "a\r\n\r\nb\r\n".toList := by
  have hmark : IsUnbordered "\r\n".toList := by decide
  have hcut : cutAt "\r\n".toList "a\r\n\r\nb\r\n".toList = [['a'], [], ['b'], []] := by
    simp [cutAt]
  obtain ⟨hindented, houtdented⟩ := reindent_lineWise { eol := "\r\n", indent := "  " }
    "a\r\n\r\nb\r\n" (by decide) hmark
  have hresult : ({ eol := "\r\n", indent := "  " } : Format).reindent "a\r\n\r\nb\r\n" =
      "a\r\n\r\n  b\r\n" := by
    rw [← String.toList_inj, hindented, hcut]
    decide
  refine ⟨hmark, hresult, ?_⟩
  rw [← hresult]
  exact houtdented (by simp)

end DeclBundle.Format
