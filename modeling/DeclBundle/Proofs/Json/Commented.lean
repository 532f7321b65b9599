import DeclBundle.Proofs.Json.Reading
import DeclBundle.Proofs.Json.Stripping
set_option autoImplicit false

/-!
# Reading JSON with comments

Taking comments out and reading what is left finds the value of a spelling if its blanks are those
of JSON and no comment stands between a comma behind a last part and the bracket, and only then
(`parse_withoutComments`).  Any other comments, and commas behind last parts, do no harm.
-/

namespace DeclBundle.Json

open Data (Value)

/-- A text with nothing but a spelling is read if it is one of JSON itself, and only then. -/
theorem parse_spelling {t : Spelling} (h : t.IsProper) :
    (t.IsJson → parse t.text = .ok t.value) ∧
      (¬ t.IsJson → ∃ fault, parse t.text = .error fault) := by
  obtain ⟨c, cs, htext, hc⟩ := Spelling.text_cons h
  have hmark : t.text.head? ≠ some '\ufeff' := by
    rw [htext]
    rintro ⟨⟩
    exact hc.ne.2.2.2 rfl
  have hskip : Cursor.skipBlank ⟨0, t.text⟩ = ⟨0, t.text⟩ := by
    apply skipBlank_of_not_isBlank
    rw [htext]
    rintro _ ⟨⟩
    exact hc.not_isBlank
  have hread := value_spelling t h (2 * t.text.length + 2) 0 [] (by omega)
    fun c hc => by cases hc
  rw [List.append_nil] at hread
  have hparse : parse t.text = (do
      let r ← value (2 * t.text.length + 2) ⟨0, t.text⟩
      if r.2.skipBlank.rest.isEmpty then .ok r.1 else r.2.skipBlank.fail .extraData) := by
    rw [parse, if_neg hmark, hskip]
    rfl
  rw [hparse]
  refine ⟨fun hjson => ?_, fun hjson => ?_⟩
  · rw [hread.ok hjson]
    rfl
  · obtain ⟨fault, hfault⟩ := hread.error hjson
    exact ⟨fault, by rw [hfault]; rfl⟩

/-- A tidy text is read, and what is found is its value. -/
theorem parse_of_isTidy {t : Commented} (h : t.IsProper) (htidy : t.spelling.IsTidy) :
    parse (withoutComments t.text) = .ok t.spelling.value := by
  rw [withoutComments_text h,
    (parse_spelling (t.spelling.isProper_kept h.spelling)).1 (t.spelling.isJson_kept.2 htidy),
    t.spelling.value_kept]

/-- A text with one value, comments and commas behind last parts is read if it is tidy, and what is
found is its value; if it is not tidy, nothing is found. -/
theorem parse_withoutComments {t : Commented} (h : t.IsProper) :
    (t.spelling.IsTidy → parse (withoutComments t.text) = .ok t.spelling.value) ∧
      (¬ t.spelling.IsTidy → ∃ fault, parse (withoutComments t.text) = .error fault) := by
  refine ⟨parse_of_isTidy h, fun htidy => ?_⟩
  have hfails := (parse_spelling (t.spelling.isProper_kept h.spelling)).2
  rw [t.spelling.isJson_kept] at hfails
  rw [withoutComments_text h]
  exact hfails htidy

/-- A list of one name, with a comma behind it. -/
def listOfName (behindName behindComma : Gap) : Commented where
  spelling := .filled .array [] (.last .element
    (.scalar ['"', 'a', '.', 't', 's', '"'] (.text (.ofList ['a', '.', 't', 's'])))
    behindName (some behindComma))

theorem isProper_listOfName {behindName behindComma : Gap} (h : behindName.IsProper)
    (h' : behindComma.IsProper) : (listOfName behindName behindComma).IsProper := by
  have hname : Literal ['a', '.', 't', 's'] ['a', '.', 't', 's'] := literal_of_plain (by simp)
  have hnone : Gap.IsProper [] := fun t ht => by cases ht
  exact
    { before := hnone
      spelling := ⟨hnone, rfl, .string hname, h, fun g hg => by cases hg; exact h'⟩
      after := hnone
      ending := fun comment hcomment => by cases hcomment }

/-- A comment in front of a comma behind a last part does no harm. -/
theorem parse_withoutComments_list :
    parse (withoutComments ['[', '"', 'a', '.', 't', 's', '"', '/', '*', '*', '/', ',', ' ', ']']) =
      .ok (.list [.text "a.ts"]) := by
  have hproper : (listOfName [.block []] [.blank ' ']).IsProper :=
    isProper_listOfName (by simp [Gap.IsProper, Trivium.IsProper])
      (by simp [Gap.IsProper, Trivium.IsProper, Text.isBlank])
  have htidy : (listOfName [.block []] [.blank ' ']).spelling.IsTidy := by
    refine ⟨?_, trivial, trivial, ?_, fun g hg => ?_⟩
    · exact fun c hc => by cases hc
    · exact fun c hc => by simp at hc
    · cases hg
      refine ⟨fun c hc => ?_, by decide⟩
      obtain rfl : c = ' ' := by simpa using hc
      rfl
  exact (parse_withoutComments hproper).1 htidy

/-- Behind the comma a comment keeps the reader from the bracket. -/
theorem parse_withoutComments_fails :
    (listOfName [] [.blank ' ', .block []]).IsProper ∧
      parse (withoutComments (listOfName [] [.blank ' ', .block []]).text) =
        .error ⟨.expectingValue, 9⟩ := by
  refine ⟨isProper_listOfName ?_ ?_, rfl⟩
  · simp [Gap.IsProper]
  · simp [Gap.IsProper, Trivium.IsProper, Text.isBlank]

end DeclBundle.Json
