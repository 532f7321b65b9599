import DeclBundle.Proofs.Format.Lines
import DeclBundle.Proofs.Path.Segments
set_option autoImplicit false

/-!
# The body of a module block

The body of a block is what stands between the line that opens it and the line that closes it: an
indent and the content.  With a line feed as the terminator every line of the body that is not empty
begins with the indent (`isIndented_body_feed`).  A terminator that begins with a carriage return is
not found in a content without carriage returns: such a content stays as it is, and its lines are
indented as far as they have been before (`isIndented_body_carriage`).
-/

namespace DeclBundle.Text

/-! ## Lines -/

/-- Whether a line has more on it than blanks. -/
def HasText (line : List Char) : Prop :=
  ∃ c ∈ line, isBlank c = false

instance (line : List Char) : Decidable (HasText line) :=
  List.decidableBEx _ line

/-- Whether every line of a text that has more on it than blanks begins with an indent. -/
def IsIndented (indent text : List Char) : Prop :=
  ∀ line ∈ splitAtChar '\n' text, HasText line → indent <+: line

instance (indent text : List Char) : Decidable (IsIndented indent text) :=
  inferInstanceAs (Decidable (∀ line ∈ splitAtChar '\n' text, HasText line → indent <+: line))

theorem HasText.ne_nil {line : List Char} (h : HasText line) : line ≠ [] := by
  rintro rfl
  obtain ⟨c, hc, -⟩ := h
  cases hc

/-- Cutting at a mark of one character is cutting at the character. -/
theorem cutAt_singleton (sep : Char) (cs : List Char) : cutAt [sep] cs = splitAtChar sep cs := by
  induction cs with
  | nil => exact cutAt_nil
  | cons c cs ih =>
    rw [cutAt, splitAtChar]
    by_cases hc : c = sep
    · subst hc
      simp [ih]
    · have hstarts : [sep].isPrefixOf (c :: cs) = false := by
        simp [List.isPrefixOf, Ne.symm hc]
      cases hs : splitAtChar sep cs with
      | nil => exact absurd hs (splitAtChar_ne_nil sep cs)
      | cons piece pieces => simp [hstarts, hc, ih, hs]

/-- What comes before a text and holds no separator stands in its first piece. -/
theorem splitAtChar_append {sep : Char} {front : List Char} (hfront : sep ∉ front)
    {cs first : List Char} {further : List (List Char)} (h : splitAtChar sep cs = first :: further) :
    splitAtChar sep (front ++ cs) = (front ++ first) :: further := by
  induction front with
  | nil => exact h
  | cons c front ih =>
    have hc : c ≠ sep := fun heq => hfront (heq ▸ List.mem_cons_self)
    have hrest := ih fun hmem => hfront (List.mem_cons_of_mem c hmem)
    simp [splitAtChar, hc, hrest]

end DeclBundle.Text

namespace DeclBundle.Format

open Text

/-! ## Bodies -/

/-- The body of a module block: the indent, and the content with its further lines indented. -/
def body (f : Format) (content : String) : List Char :=
  f.indent.toList ++ (f.reindent content).toList

/-- A block consists of the line that opens it, its body and the line that closes it. -/
theorem toList_moduleBlock_body (f : Format) (id content : String) :
    (f.moduleBlock id content).toList =
      ("declare module '" ++ id ++ "' \x7b" ++ f.eol).toList ++ f.body content ++
        (f.eol ++ "\x7d" ++ f.eol).toList := by
  rw [toList_moduleBlock, body, opening]
  simp only [String.toList_append, List.append_assoc]

/-- A content is indented line by line. -/
theorem toList_reindent_eq_intercalate {f : Format} (h : IsUnbordered f.eol.toList)
    (hne : f.eol.toList ≠ []) (content : String) :
    (f.reindent content).toList = f.eol.toList.intercalate
      (mapFurther (indented f.indent.toList) (cutAt f.eol.toList content.toList)) := by
  rw [reindent, String.toList_ofList, indentLines_eq_intercalate h hne]

/-- With a line feed as the terminator, every line of a body that has text on it is indented. -/
theorem isIndented_body_feed {f : Format} (heol : f.eol = "\n") (hindent : '\n' ∉ f.indent.toList)
    (content : String) : IsIndented f.indent.toList (f.body content) := by
  have hmark : IsUnbordered ['\n'] := by decide
  obtain ⟨first, further, hcut⟩ := List.exists_cons_of_ne_nil (cutAt_ne_nil ['\n'] content.toList)
  have hreindent : (f.reindent content).toList =
      ['\n'].intercalate (first :: further.map (indented f.indent.toList)) := by
    have heol' : f.eol.toList = ['\n'] := by rw [heol]; rfl
    rw [toList_reindent_eq_intercalate (heol' ▸ hmark) (by simp [heol']), heol', hcut, mapFurther]
  have hfree {line : List Char} (hline : line ∈ first :: further) : '\n' ∉ line := by
    rw [← hcut, cutAt_singleton] at hline
    exact not_mem_of_mem_splitAtChar hline
  have hindented : ∀ line ∈ first :: further.map (indented f.indent.toList), '\n' ∉ line := by
    refine List.forall_mem_cons.2 ⟨hfree List.mem_cons_self, fun line hline => ?_⟩
    obtain ⟨bare, hbare, rfl⟩ := List.mem_map.1 hline
    unfold indented
    split
    · simp
    · simp [hindent, hfree (List.mem_cons_of_mem first hbare)]
  have hlines : splitAtChar '\n' (f.body content) =
      (f.indent.toList ++ first) :: further.map (indented f.indent.toList) := by
    refine splitAtChar_append hindent ?_
    rw [hreindent, ← cutAt_singleton]
    refine cutAt_intercalate hmark (by simp) (by simp) fun line hline hwithin => ?_
    exact hindented line hline ((List.singleton_infix_iff _ _).1 hwithin)
  intro line hline htext
  rw [hlines] at hline
  rcases List.mem_cons.1 hline with rfl | hline
  · exact List.prefix_append _ _
  · obtain ⟨bare, hbare, rfl⟩ := List.mem_map.1 hline
    have hne : bare ≠ [] := by
      rintro rfl
      exact htext.ne_nil (by simp [indented])
    rw [indented, if_neg hne]
    exact List.prefix_append _ _

/-- With a terminator that begins with a carriage return, a content without carriage returns stays
as it is, and a body is indented just if all lines of the content but the first have been. -/
theorem isIndented_body_carriage {f : Format} (heol : f.eol = "\r\n")
    (hindent : '\n' ∉ f.indent.toList) {content : String} (hcontent : '\r' ∉ content.toList) :
    f.body content = f.indent.toList ++ content.toList ∧
      (IsIndented f.indent.toList (f.body content) ↔
        ∀ line ∈ (splitAtChar '\n' content.toList).tail, HasText line →
          f.indent.toList <+: line) := by
  have hmark : ¬ "\r\n".toList <:+: content.toList := fun hwithin =>
    hcontent (hwithin.subset (by simp))
  have hreindent : (f.reindent content).toList = content.toList := by
    rw [toList_reindent_eq_intercalate (by rw [heol]; decide) (by simp [heol]), heol,
      cutAt_of_not_infix hmark, mapFurther, List.map_nil, List.intercalate_singleton]
  have hbody : f.body content = f.indent.toList ++ content.toList := by rw [body, hreindent]
  obtain ⟨first, further, hcut⟩ :=
    List.exists_cons_of_ne_nil (splitAtChar_ne_nil '\n' content.toList)
  refine ⟨hbody, ?_⟩
  rw [IsIndented, hbody, splitAtChar_append hindent hcut, hcut, List.tail_cons,
    List.forall_mem_cons]
  exact ⟨fun h => h.2, fun h => ⟨fun _ => List.prefix_append _ _, h⟩⟩

end DeclBundle.Format
