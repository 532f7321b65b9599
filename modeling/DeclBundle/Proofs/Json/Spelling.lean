import DeclBundle.Proofs.Json.Scalar
import DeclBundle.Text.Blank
set_option autoImplicit false

/-!
# Values as they are written with comments

A spelling is a value with everything that its text shows: the tokens, the blanks and comments
around them, and commas behind last parts.  It knows its text and its value, and neither refers to
taking out comments or to reading.  What bundling can make of it depends on two things only: whether
its blanks are those of JSON, and whether nothing but blanks stands between a comma behind a last
part and the bracket (`Spelling.IsTidy`).
-/

namespace DeclBundle.Json

open Data (Value)

/-! ## What stands between tokens -/

/-- A blank or a comment. -/
inductive Trivium where
  | blank (c : Char)
  /-- a comment up to the end of its line -/
  | line (comment : List Char)
  /-- a comment up to the mark that closes it -/
  | block (comment : List Char)
  deriving DecidableEq, Repr

/-- The text of a blank or a comment. -/
def Trivium.text : Trivium → List Char
  | .blank c => [c]
  | .line comment => '/' :: '/' :: (comment ++ ['\n'])
  | .block comment => '/' :: '*' :: (comment ++ ['*', '/'])

/-- Whether there is a comment. -/
def Trivium.isComment : Trivium → Bool
  | .blank _ => false
  | .line _ => true
  | .block _ => true

/-- Whether a blank is one and a comment ends where it should. -/
def Trivium.IsProper : Trivium → Prop
  | .blank c => Text.isBlank c = true
  | .line comment => '\n' ∉ comment
  | .block comment => ¬ ['*', '/'] <:+: comment

/-- Blanks and comments between two tokens. -/
abbrev Gap := List Trivium

namespace Gap

/-- The text between two tokens. -/
def text (g : Gap) : List Char :=
  g.flatMap Trivium.text

def IsProper (g : Gap) : Prop :=
  ∀ t ∈ g, t.IsProper

/-- Whether all blanks are those of JSON. -/
def HasJsonBlanks (g : Gap) : Prop :=
  ∀ c, .blank c ∈ g → isBlank c = true

/-- Whether there is no comment. -/
def HasNoComment (g : Gap) : Prop :=
  ∀ t ∈ g, t.isComment = false

instance (g : Gap) : Decidable g.HasNoComment :=
  inferInstanceAs (Decidable (∀ t ∈ g, t.isComment = false))

/-- Whether a gap may stand in a text of JSON itself. -/
structure IsJson (g : Gap) : Prop where
  blanks : g.HasJsonBlanks
  noComment : g.HasNoComment

end Gap

/-! ## Spellings -/

/-- The two kinds of values with parts. -/
inductive Kind where
  | array
  | object
  deriving DecidableEq, Repr

/-- The bracket before the parts. -/
def Kind.opening : Kind → Char
  | .array => '['
  | .object => '{'

/-- The bracket behind the parts. -/
def Kind.closing : Kind → Char
  | .array => ']'
  | .object => '}'

/-- What stands before a value that is a part: nothing in an array, and in an object a literal with
a colon behind it. -/
inductive Label where
  | element
  | key (inner name : List Char) (before after : Gap)

namespace Label

def text : Label → List Char
  | element => []
  | key inner _ before after => '"' :: (inner ++ '"' :: (before.text ++ ':' :: after.text))

/-- The name of a member; an element has none. -/
def name : Label → Value
  | element => .null
  | key _ name _ _ => .text (.ofList name)

/-- Whether a label may stand in a value of a kind. -/
def IsProper (kind : Kind) : Label → Prop
  | element => kind = .array
  | key inner name before after =>
    kind = .object ∧ Literal inner name ∧ before.IsProper ∧ after.IsProper

def IsTidy : Label → Prop
  | element => True
  | key _ _ before after => before.HasJsonBlanks ∧ after.HasJsonBlanks

def IsJson : Label → Prop
  | element => True
  | key _ _ before after => before.IsJson ∧ after.IsJson

end Label

mutual

/-- A value as it is written. -/
inductive Spelling where
  | scalar (text : List Char) (v : Value)
  /-- brackets with nothing but a gap between them -/
  | empty (kind : Kind) (lead : Gap)
  | filled (kind : Kind) (lead : Gap) (parts : Parts)

/-- The parts of a value as they are written, up to the closing bracket. -/
inductive Parts where
  /-- the last part, perhaps with a comma and a gap behind it -/
  | last (label : Label) (part : Spelling) (after : Gap) (comma : Option Gap)
  /-- a part, a comma and others -/
  | more (label : Label) (part : Spelling) (after before : Gap) (others : Parts)

end

/-- The text of a comma behind the last part. -/
def commaText : Option Gap → List Char
  | none => []
  | some g => ',' :: g.text

mutual

/-- The text of a spelling. -/
def Spelling.text : Spelling → List Char
  | .scalar text _ => text
  | .empty kind lead => kind.opening :: (lead.text ++ [kind.closing])
  | .filled kind lead parts => kind.opening :: (lead.text ++ (parts.text ++ [kind.closing]))

/-- The text of parts. -/
def Parts.text : Parts → List Char
  | .last label part after comma =>
    label.text ++ (part.text ++ (after.text ++ commaText comma))
  | .more label part after before others =>
    label.text ++ (part.text ++ (after.text ++ ',' :: (before.text ++ others.text)))

end

/-- The value of a kind that has the given parts. -/
def Kind.value (kind : Kind) (parts : List (Value × Value)) : Value :=
  match kind with
  | .array => .list (parts.map (·.2))
  | .object => .mapping parts

mutual

/-- The value of a spelling. -/
def Spelling.value : Spelling → Value
  | .scalar _ v => v
  | .empty kind _ => kind.value []
  | .filled kind _ parts => kind.value parts.values

/-- The values of parts, with their names. -/
def Parts.values : Parts → List (Value × Value)
  | .last label part _ _ => [(label.name, part.value)]
  | .more label part _ _ others => (label.name, part.value) :: others.values

end

mutual

/-- Whether a spelling is one of JSON, but for comments and commas behind last parts. -/
def Spelling.IsProper : Spelling → Prop
  | .scalar text v => Scalar text v
  | .empty _ lead => lead.IsProper
  | .filled kind lead parts => lead.IsProper ∧ parts.IsProper kind

/-- Whether parts may stand in a value of a kind. -/
def Parts.IsProper (kind : Kind) : Parts → Prop
  | .last label part after comma =>
    label.IsProper kind ∧ part.IsProper ∧ after.IsProper ∧ ∀ g, comma = some g → g.IsProper
  | .more label part after before others =>
    label.IsProper kind ∧ part.IsProper ∧ after.IsProper ∧ before.IsProper ∧ others.IsProper kind

end

mutual

/-- Whether all blanks in a spelling are those of JSON, and no comment stands between a comma behind
a last part and the bracket. -/
def Spelling.IsTidy : Spelling → Prop
  | .scalar _ _ => True
  | .empty _ lead => lead.HasJsonBlanks
  | .filled _ lead parts => lead.HasJsonBlanks ∧ parts.IsTidy

/-- The same for the parts of a value. -/
def Parts.IsTidy : Parts → Prop
  | .last label part after comma =>
    label.IsTidy ∧ part.IsTidy ∧ after.HasJsonBlanks ∧ ∀ g, comma = some g → g.IsJson
  | .more label part after before others =>
    label.IsTidy ∧ part.IsTidy ∧ after.HasJsonBlanks ∧ before.HasJsonBlanks ∧ others.IsTidy

end

mutual

/-- Whether a spelling is one of JSON itself: without comments, without commas behind last parts,
and with no other blanks. -/
def Spelling.IsJson : Spelling → Prop
  | .scalar _ _ => True
  | .empty _ lead => lead.IsJson
  | .filled _ lead parts => lead.IsJson ∧ parts.IsJson

/-- The same for the parts of a value. -/
def Parts.IsJson : Parts → Prop
  | .last label part after comma => label.IsJson ∧ part.IsJson ∧ after.IsJson ∧ comma = none
  | .more label part after before others =>
    label.IsJson ∧ part.IsJson ∧ after.IsJson ∧ before.IsJson ∧ others.IsJson

end

/-! ## The ends of a text -/

/-- Whether a value or a label may begin with a character. -/
def BeginsPart (c : Char) : Prop :=
  c.isDigit = true ∨ c ∈ ['"', '-', 'n', 't', 'f', '[', '{']

theorem not_isBlank_of_isDigit {c : Char} (h : c.isDigit = true) : Text.isBlank c = false := by
  simp only [Char.isDigit, Bool.and_eq_true, decide_eq_true_eq, UInt32.le_iff_toNat_le] at h
  have hlow : 48 ≤ c.toNat := h.1
  have hhigh : c.toNat ≤ 57 := h.2
  simp only [Text.isBlank, Bool.or_eq_false_iff, Bool.and_eq_false_iff, decide_eq_false_iff_not,
    beq_eq_false_iff_ne]
  omega

/-- What a part begins with is no blank, no closing bracket and no mark of the byte order. -/
theorem BeginsPart.ne {c : Char} (h : BeginsPart c) :
    Text.isBlank c = false ∧ c ≠ ']' ∧ c ≠ '}' ∧ c ≠ '\ufeff' := by
  rcases h with h | h
  · refine ⟨not_isBlank_of_isDigit h, ?_, ?_, ?_⟩ <;> rintro rfl <;> exact absurd h (by decide)
  · simp only [List.mem_cons, List.not_mem_nil, or_false] at h
    rcases h with rfl | rfl | rfl | rfl | rfl | rfl | rfl <;> decide

theorem Scalar.text_cons {text : List Char} {v : Value} (h : Scalar text v) :
    ∃ c cs, text = c :: cs ∧ BeginsPart c := by
  cases h with
  | number h =>
    obtain ⟨c, cs, hc, rfl | rfl⟩ := h.head_cases
    · exact ⟨c, cs, rfl, .inl hc⟩
    · exact ⟨'-', c :: cs, rfl, .inr (by simp)⟩
  | _ => exact ⟨_, _, rfl, .inr (by simp)⟩

/-- The character that a spelling begins with. -/
theorem Spelling.text_cons {t : Spelling} (h : t.IsProper) :
    ∃ c cs, t.text = c :: cs ∧ BeginsPart c := by
  cases t with
  | scalar text v => exact Scalar.text_cons h
  | empty kind lead =>
    exact ⟨kind.opening, _, rfl, .inr (by cases kind <;> simp [Kind.opening])⟩
  | filled kind lead parts =>
    exact ⟨kind.opening, _, rfl, .inr (by cases kind <;> simp [Kind.opening])⟩

theorem Label.text_cons (l : Label) {cs : List Char} (h : ∃ c ds, cs = c :: ds ∧ BeginsPart c) :
    ∃ c ds, l.text ++ cs = c :: ds ∧ BeginsPart c := by
  cases l with
  | element => exact h
  | key => exact ⟨'"', _, rfl, .inr (by simp)⟩

/-- The character that parts begin with. -/
theorem Parts.text_cons {kind : Kind} {ps : Parts} (h : ps.IsProper kind) :
    ∃ c cs, ps.text = c :: cs ∧ BeginsPart c := by
  cases ps with
  | last label part after comma =>
    obtain ⟨c, cs, htext, hc⟩ := Spelling.text_cons h.2.1
    exact label.text_cons ⟨c, _, by rw [htext]; rfl, hc⟩
  | more label part after before others =>
    obtain ⟨c, cs, htext, hc⟩ := Spelling.text_cons h.2.1
    exact label.text_cons ⟨c, _, by rw [htext]; rfl, hc⟩

theorem Scalar.text_concat {text : List Char} {v : Value} (h : Scalar text v) :
    ∃ cs c, text = cs ++ [c] ∧ Text.isBlank c = Bool.false := by
  cases h with
  | null => exact ⟨['n', 'u', 'l'], 'l', rfl, rfl⟩
  | true => exact ⟨['t', 'r', 'u'], 'e', rfl, rfl⟩
  | false => exact ⟨['f', 'a', 'l', 's'], 'e', rfl, rfl⟩
  | number h =>
    obtain ⟨d, ds, -, htext⟩ := h.head_cases
    have hne : text ≠ [] := by rcases htext with rfl | rfl <;> simp
    have hlast := h.isNumberChar _ (List.getLast_mem hne)
    refine ⟨text.dropLast, text.getLast hne, (List.dropLast_concat_getLast hne).symm, ?_⟩
    generalize text.getLast hne = c at hlast
    rcases hlast with hdigit | hsign
    · exact not_isBlank_of_isDigit hdigit
    · simp only [List.mem_cons, List.not_mem_nil, or_false] at hsign
      rcases hsign with rfl | rfl | rfl | rfl | rfl <;> decide
  | @string inner _ h => exact ⟨'"' :: inner, '"', rfl, rfl⟩

/-- The character that a spelling ends with. -/
theorem Spelling.text_concat {t : Spelling} (h : t.IsProper) :
    ∃ cs c, t.text = cs ++ [c] ∧ Text.isBlank c = false := by
  cases t with
  | scalar text v => exact Scalar.text_concat h
  | empty kind lead =>
    exact ⟨kind.opening :: lead.text, kind.closing, rfl, by cases kind <;> rfl⟩
  | filled kind lead parts =>
    exact ⟨kind.opening :: (lead.text ++ parts.text), kind.closing, by simp [Spelling.text],
      by cases kind <;> rfl⟩

/-! ## Whole texts -/

/-- A text with one value: gaps around its spelling, and perhaps a comment up to the end of the
text. -/
structure Commented where
  before : Gap := []
  spelling : Spelling
  after : Gap := []
  ending : Option (List Char) := none

namespace Commented

/-- The comment that ends with the text. -/
def endingText : Option (List Char) → List Char
  | none => []
  | some comment => '/' :: '/' :: comment

def text (t : Commented) : List Char :=
  t.before.text ++ (t.spelling.text ++ (t.after.text ++ endingText t.ending))

structure IsProper (t : Commented) : Prop where
  before : t.before.IsProper
  spelling : t.spelling.IsProper
  after : t.after.IsProper
  ending : ∀ comment, t.ending = some comment → '\n' ∉ comment

end Commented

end DeclBundle.Json
