import DeclBundle.Proofs.Json.Reading
import DeclBundle.Proofs.Json.Stripping
set_option autoImplicit false

/-!
# Plain JSON stays as it is

Taking comments out of a text that the reader accepts changes nothing but the blanks at its ends
(`withoutComments_of_parse`).  The reader says only what it has found and where it stops, so the text
is recovered from its steps: each of them passes over a piece that stays as it is, whatever comes
behind it (`Passes`, `Stays`).  A comma goes only where a bracket comes next; the reader wants a part
behind it, and no part begins with a closing bracket (`IsPart`).  The one place where both have to
agree on more than single characters is the end of a string (`passes_stringFrom`).
-/

namespace DeclBundle.Json

open Data (Value)

/-! ## Pieces that stay -/

/-- Whether a piece of a text stays as it is, whatever comes behind it. -/
def Stays (piece : List Char) : Prop :=
  ∀ rest, withoutCommentsFrom 0 0 (piece ++ rest) = piece ++ withoutCommentsFrom 0 0 rest

/-- Whether a piece of a text stays as it is, and a comma in front of it too. -/
structure IsPart (piece : List Char) : Prop where
  stays : Stays piece
  opens : ∀ rest, closesNext (piece ++ rest) = false

/-- Whether a piece of a text is a literal behind its opening quote: its last character is the
first quote without a backslash. -/
def IsLiteral (piece : List Char) : Prop :=
  ∀ rest, literalLength (piece ++ rest) = piece.length

section Pieces

variable {piece piece' : List Char}

theorem Stays.append (h : Stays piece) (h' : Stays piece') : Stays (piece ++ piece') := by
  intro rest
  rw [List.append_assoc, h, h', List.append_assoc]

theorem stays_of_isPlain (h : ∀ c ∈ piece, IsPlain c) : Stays piece :=
  withoutCommentsFrom_plain h

theorem IsPart.append (h : IsPart piece) (h' : Stays piece') : IsPart (piece ++ piece') := by
  refine ⟨h.stays.append h', fun rest => ?_⟩
  rw [List.append_assoc]
  exact h.opens _

/-- The blanks of JSON are among those that a closing bracket is seen through. -/
theorem isBlank_of_json {c : Char} (h : isBlank c = true) : Text.isBlank c = true := by
  simp only [isBlank, Bool.or_eq_true, beq_iff_eq] at h
  rcases h with ((rfl | rfl) | rfl) | rfl <;> rfl

theorem stays_blanks (h : ∀ c ∈ piece, isBlank c = true) : Stays piece :=
  stays_of_isPlain fun c hc => isPlain_of_isBlank (isBlank_of_json (h c hc))

theorem IsPart.blanks (hblank : ∀ c ∈ piece, isBlank c = true) (h : IsPart piece') :
    IsPart (piece ++ piece') := by
  refine ⟨(stays_blanks hblank).append h.stays, fun rest => ?_⟩
  induction piece with
  | nil => exact h.opens rest
  | cons c piece ih =>
    have hfirst := isBlank_of_json (hblank c (by simp))
    simp only [List.cons_append]
    rw [closesNext_cons_blank hfirst]
    exact ih fun d hd => hblank d (by simp [hd])

/-- A comma stays in front of a part. -/
theorem IsPart.stays_comma (h : IsPart piece) : Stays (',' :: piece) := by
  intro rest
  rw [List.cons_append, withoutCommentsFrom_comma, h.opens, h.stays]
  rfl

/-- What begins with a plain character other than a bracket that closes is a part. -/
theorem isPart_cons {c : Char} (hplain : IsPlain c) (hblank : Text.isBlank c = false)
    (hbracket : c ≠ ']') (hbrace : c ≠ '}') (h : Stays piece) : IsPart (c :: piece) := by
  have hfirst : Stays [c] := stays_of_isPlain (by simpa using hplain)
  exact ⟨hfirst.append h, fun rest => closesNext_cons_of_ne hblank hbracket hbrace _⟩

/-- A literal in its quotes is a part. -/
theorem IsLiteral.isPart (h : IsLiteral piece) : IsPart ('"' :: piece) := by
  refine ⟨fun rest => ?_, fun rest => closesNext_cons_of_ne rfl (by decide) (by decide) _⟩
  have hverdict : verdict '"' (piece ++ rest) = .keep piece.length := by
    simp [verdict, h rest]
  exact withoutCommentsFrom_of_keep hverdict

theorem IsLiteral.cons {c : Char} (hquote : c ≠ '"') (hbackslash : c ≠ '\\') (h : IsLiteral piece) :
    IsLiteral (c :: piece) := by
  intro rest
  rw [List.cons_append, literalLength_cons _ hquote hbackslash, h rest, List.length_cons]

/-- A backslash takes the next character with it, whichever it is. -/
theorem IsLiteral.escape (c : Char) (h : IsLiteral piece) : IsLiteral ('\\' :: c :: piece) := by
  intro rest
  simp only [List.cons_append, literalLength, h rest, List.length_cons]

theorem ne_of_hexDigit? {c : Char} {k : Nat} (h : hexDigit? c = some k) : c ≠ '"' ∧ c ≠ '\\' := by
  constructor <;> rintro rfl <;> cases h

/-- The code of a character has neither quotes nor backslashes behind its first. -/
theorem IsLiteral.code {a b c d : Char} {n : Nat} (hcode : fourHex? a b c d = some n)
    (h : IsLiteral piece) : IsLiteral ('\\' :: 'u' :: a :: b :: c :: d :: piece) := by
  simp only [fourHex?, Option.bind_eq_bind, Option.bind_eq_some_iff] at hcode
  obtain ⟨i, ha, j, hb, k, hc, l, hd, -⟩ := hcode
  obtain ⟨ha, ha'⟩ := ne_of_hexDigit? ha
  obtain ⟨hb, hb'⟩ := ne_of_hexDigit? hb
  obtain ⟨hc, hc'⟩ := ne_of_hexDigit? hc
  obtain ⟨hd, hd'⟩ := ne_of_hexDigit? hd
  exact .escape 'u' (.cons ha ha' (.cons hb hb' (.cons hc hc' (.cons hd hd' h))))

end Pieces

/-! ## Steps of the reader -/

/-- Whether a reader that finds something in a text has passed over a piece of a kind. -/
def Passes {α : Type} (P : List Char → Prop) (cs : List Char)
    (outcome : Except Fault (α × Cursor)) : Prop :=
  ∀ a c, outcome = .ok (a, c) → ∃ piece, cs = piece ++ c.rest ∧ P piece

/-- Only blanks are passed over. -/
theorem Cursor.exists_skipBlank (c : Cursor) :
    ∃ blanks, (∀ d ∈ blanks, isBlank d = true) ∧ c.rest = blanks ++ c.skipBlank.rest :=
  ⟨c.rest.takeWhile isBlank, fun d hd => List.all_eq_true.1 List.all_takeWhile d hd,
    (List.prefix_iff_eq_append.1 (List.takeWhile_prefix isBlank)).symm⟩

namespace Passes

variable {α β : Type} {P Q : List Char → Prop} {cs : List Char}
  {outcome : Except Fault (α × Cursor)}

theorem error (fault : Fault) : Passes P cs (.error fault : Except Fault (α × Cursor)) :=
  fun _ _ h => by cases h

theorem ok {piece : List Char} {a : α} {c : Cursor} (hcs : cs = piece ++ c.rest) (h : P piece) :
    Passes P cs (.ok (a, c)) := by
  rintro _ _ ⟨⟩
  exact ⟨piece, hcs, h⟩

/-- Something in front of what the reader gets. -/
theorem behind (front : List Char) (hfront : ∀ piece, P piece → Q (front ++ piece))
    (h : Passes P cs outcome) : Passes Q (front ++ cs) outcome := by
  intro a c hok
  obtain ⟨piece, rfl, hpiece⟩ := h a c hok
  exact ⟨front ++ piece, (List.append_assoc ..).symm, hfront piece hpiece⟩

theorem mono (hPQ : ∀ piece, P piece → Q piece) (h : Passes P cs outcome) : Passes Q cs outcome :=
  h.behind [] hPQ

/-- One reader after the other. -/
theorem bind {R : List Char → Prop} (h : Passes P cs outcome)
    {f : α × Cursor → Except Fault (β × Cursor)} (hf : ∀ a c, Passes Q c.rest (f (a, c)))
    (happend : ∀ piece more, P piece → Q more → R (piece ++ more)) :
    Passes R cs (outcome >>= f) := by
  cases outcome with
  | error fault => exact .error fault
  | ok found =>
    obtain ⟨a, c⟩ := found
    obtain ⟨piece, rfl, hpiece⟩ := h a c rfl
    exact (hf a c).behind piece fun more hmore => happend piece more hpiece hmore

/-- What is found may be taken for something else. -/
theorem map (h : Passes P cs outcome) (f : α → β) :
    Passes P cs (outcome.map (Prod.map f id)) := by
  cases outcome with
  | error fault => exact .error fault
  | ok found =>
    obtain ⟨a, c⟩ := found
    obtain ⟨piece, hcs, hpiece⟩ := h a c rfl
    exact .ok hcs hpiece

variable {c : Cursor}

/-- A reader behind blanks. -/
theorem skipBlank (hblanks : ∀ blanks piece, (∀ d ∈ blanks, isBlank d = true) → P piece →
    Q (blanks ++ piece)) (h : Passes P c.skipBlank.rest outcome) : Passes Q c.rest outcome := by
  obtain ⟨blanks, hall, hsplit⟩ := c.exists_skipBlank
  rw [hsplit]
  exact h.behind blanks fun piece hpiece => hblanks blanks piece hall hpiece

theorem stays_skipBlank (h : Passes Stays c.skipBlank.rest outcome) : Passes Stays c.rest outcome :=
  h.skipBlank fun _ _ hblanks hpiece => (stays_blanks hblanks).append hpiece

/-- A reader behind a token. -/
theorem token {token : Char} (hcons : ∀ piece, P piece → Q (token :: piece))
    (htoken : c.rest.head? = some token) (h : Passes P (c.advance 1).rest outcome) :
    Passes Q c.rest outcome := by
  obtain ⟨rest, hrest⟩ := List.head?_eq_some_iff.1 htoken
  have hadvance : (c.advance 1).rest = rest := by simp [Cursor.advance, hrest]
  rw [hadvance] at h
  rw [hrest]
  exact h.behind [token] hcons

end Passes

/-! ## Strings -/

/-- Where the reader finds the end of a string, the literal ends. -/
theorem passes_stringFrom (opened position : Nat) (cs : List Char) :
    Passes IsLiteral cs (stringFrom opened position cs) := by
  fun_induction stringFrom opened position cs with
  | case1 | case3 | case4 | case5 | case9 | case11 | case12 | case14 => exact .error _
  | case2 cs =>
    have hend : IsLiteral ['"'] := fun rest => rfl
    exact .ok rfl hend
  | case6 position a b c d a' b' c' d' e cs n hn hhigh m hm hlow ih =>
    have hfront : ∀ piece, IsLiteral piece → IsLiteral
        (['\\', 'u', a, b, c, d, '\\', 'u', a', b', c', d'] ++ piece) :=
      fun piece hpiece => (hpiece.code hm).code hn
    exact .behind _ hfront (ih.map _)
  | case7 position a b c d a' b' c' d' e cs n hn second hhigh m hm hlow ih =>
    exact .behind ['\\', 'u', a, b, c, d] (fun piece hpiece => hpiece.code hn) (ih.map _)
  | case8 position a b c d a' b' c' d' e cs n hn second hhigh ih =>
    exact .behind ['\\', 'u', a, b, c, d] (fun piece hpiece => hpiece.code hn) (ih.map _)
  | case10 position a b c d e cs hnext n hn ih =>
    exact .behind ['\\', 'u', a, b, c, d] (fun piece hpiece => hpiece.code hn) (ih.map _)
  | case13 position letter cs _ _ _ c hletter ih =>
    exact .behind ['\\', letter] (fun piece hpiece => hpiece.escape letter) (ih.map _)
  | case15 position c cs hquote hend _ _ _ hbackslash hcontrol ih =>
    have hne : c ≠ '\\' := by
      rintro rfl
      cases cs with
      | nil => exact hend rfl rfl
      | cons d ds => exact hbackslash d ds rfl rfl
    exact .behind [c] (fun piece hpiece => hpiece.cons hquote hne) (ih.map _)

/-- A string that the reader finds is a part. -/
theorem passes_string (position : Nat) (cs : List Char) :
    Passes IsPart ('"' :: cs) (string ⟨position, '"' :: cs⟩) :=
  .behind ['"'] (fun _ hpiece => hpiece.isPart) ((passes_stringFrom _ _ cs).map String.ofList)

/-! ## Words and numbers -/

/-- The characters of words and numbers. -/
def IsAtomChar (c : Char) : Prop :=
  c.isAlphanum = true ∨ c ∈ ['-', '+', '.']

theorem isAtomChar_of_isDigit {c : Char} (h : c.isDigit = true) : IsAtomChar c :=
  .inl (by simp [Char.isAlphanum, h])

theorem IsAtomChar.ne {c : Char} (h : IsAtomChar c) {d : Char} (hd : ¬ IsAtomChar d) : c ≠ d :=
  fun heq => hd (heq ▸ h)

theorem IsAtomChar.not_isBlank {c : Char} (h : IsAtomChar c) : Text.isBlank c = false := by
  rcases h with halphanum | hsign
  · rcases Bool.or_eq_true_iff.1 halphanum with halpha | hdigit
    · have hrange : 65 ≤ c.toNat ∧ c.toNat ≤ 122 := by
        rcases Bool.or_eq_true_iff.1 halpha with hupper | hlower
        · have hletter : 65 ≤ c.toNat ∧ c.toNat ≤ 90 := of_decide_eq_true hupper
          omega
        · obtain ⟨hlow, hhigh⟩ := Bool.and_eq_true_iff.1 hlower
          have hlow : 97 ≤ c.toNat := of_decide_eq_true hlow
          exact ⟨by omega, of_decide_eq_true hhigh⟩
      simp only [Text.isBlank, Bool.or_eq_false_iff, Bool.and_eq_false_iff,
        decide_eq_false_iff_not, beq_eq_false_iff_ne]
      omega
    · exact not_isBlank_of_isDigit hdigit
  · simp only [List.mem_cons, List.not_mem_nil, or_false] at hsign
    rcases hsign with rfl | rfl | rfl <;> rfl

/-- Characters of words and numbers are a part, if there are any. -/
theorem isPart_of_isAtomChar {piece : List Char} (hne : piece ≠ [])
    (h : ∀ c ∈ piece, IsAtomChar c) : IsPart piece := by
  have hplain : ∀ c ∈ piece, IsPlain c := fun c hc =>
    ⟨(h c hc).ne (by simp [IsAtomChar]), (h c hc).ne (by simp [IsAtomChar]),
      (h c hc).ne (by simp [IsAtomChar])⟩
  obtain ⟨c, cs, rfl⟩ := List.exists_cons_of_ne_nil hne
  have hc := h c (by simp)
  exact isPart_cons (hplain c (by simp)) hc.not_isBlank (hc.ne (by simp [IsAtomChar]))
    (hc.ne (by simp [IsAtomChar])) (stays_of_isPlain fun d hd => hplain d (by simp [hd]))

/-- Whether a text begins with characters of words and numbers and goes on with another. -/
def AtomTo (cs rest : List Char) : Prop :=
  ∃ piece, cs = piece ++ rest ∧ ∀ c ∈ piece, IsAtomChar c

namespace AtomTo

variable {cs rest : List Char}

theorem refl (cs : List Char) : AtomTo cs cs :=
  ⟨[], rfl, by simp⟩

theorem cons {c : Char} (h : IsAtomChar c) (cs : List Char) : AtomTo (c :: cs) cs :=
  ⟨[c], rfl, by simpa using h⟩

theorem trans {cs' : List Char} (h : AtomTo cs cs') (h' : AtomTo cs' rest) : AtomTo cs rest := by
  obtain ⟨piece, rfl, hpiece⟩ := h
  obtain ⟨more, rfl, hmore⟩ := h'
  exact ⟨piece ++ more, by simp, List.forall_mem_append.2 ⟨hpiece, hmore⟩⟩

theorem length_le (h : AtomTo cs rest) : rest.length ≤ cs.length := by
  obtain ⟨piece, rfl, -⟩ := h
  simp

end AtomTo

theorem atomTo_spanDigits (cs : List Char) : AtomTo cs (spanDigits cs).2 := by
  refine ⟨cs.takeWhile Char.isDigit, List.takeWhile_append_dropWhile.symm, fun c hc => ?_⟩
  exact isAtomChar_of_isDigit (List.all_eq_true.1 List.all_takeWhile c hc)

theorem atomTo_fraction (cs : List Char) : AtomTo cs (fraction cs).2 := by
  unfold fraction
  split
  · rename_i ds
    split
    · exact .refl _
    · exact AtomTo.trans (.cons (.inr (by simp)) ds) (atomTo_spanDigits ds)
  · exact .refl _

theorem atomTo_of_exponent? {cs rest : List Char} {n : Int}
    (h : exponent? cs = some (n, rest)) : AtomTo cs rest := by
  unfold exponent? at h
  split at h
  · rename_i e ds
    split at h
    · rename_i hletter
      have he : IsAtomChar e := by
        simp only [Bool.or_eq_true, decide_eq_true_eq] at hletter
        rcases hletter with rfl | rfl <;> exact .inl rfl
      split at h
      rename_i negative body hsign
      have hds : AtomTo ds body := by
        split at hsign <;> obtain ⟨-, rfl⟩ := Prod.mk.inj hsign
        · exact .cons (.inr (by simp)) _
        · exact .cons (.inr (by simp)) _
        · exact .refl _
      have hdigits := atomTo_spanDigits body
      split at h
      · cases h
      · rename_i digits after hspan
        obtain ⟨-, rfl⟩ := Prod.mk.inj (Option.some.inj h)
        rw [hspan] at hdigits
        exact (AtomTo.cons he ds).trans (hds.trans hdigits)
    · cases h
  · cases h

theorem atomTo_of_wholeDigits? {cs whole rest : List Char}
    (h : wholeDigits? cs = some (whole, rest)) : AtomTo cs rest ∧ rest.length < cs.length := by
  unfold wholeDigits? at h
  split at h
  · rename_i c ds
    split at h
    · rename_i hzero
      obtain ⟨-, rfl⟩ := Prod.mk.inj (Option.some.inj h)
      exact ⟨.cons (.inl (by rw [hzero]; rfl)) ds, by simp⟩
    · split at h
      · rename_i hdigit
        have hspan : (spanDigits (c :: ds)).2 = (spanDigits ds).2 := by simp [spanDigits, hdigit]
        obtain rfl : (spanDigits (c :: ds)).2 = rest := congrArg Prod.snd (Option.some.inj h)
        have hlength := (atomTo_spanDigits ds).length_le
        refine ⟨atomTo_spanDigits (c :: ds), ?_⟩
        rw [hspan, List.length_cons]
        omega
      · cases h
  · cases h

theorem atomTo_of_number? {cs rest : List Char} {v : Value} (h : number? cs = some (v, rest)) :
    AtomTo cs rest ∧ rest.length < cs.length := by
  unfold number? at h
  split at h
  rename_i negative body hsign
  have hcs : AtomTo cs body := by
    split at hsign <;> obtain ⟨-, rfl⟩ := Prod.mk.inj hsign
    · exact .cons (.inr (by simp)) _
    · exact .refl _
  split at h
  · cases h
  rename_i whole after hwhole
  split at h
  rename_i decimals behind hfraction
  have hbehind : AtomTo after behind := by
    simpa [hfraction] using atomTo_fraction after
  have hrest : AtomTo behind rest := by
    dsimp only at h
    split at h
    · obtain ⟨-, rfl⟩ := Prod.mk.inj (Option.some.inj h)
      exact .refl _
    · obtain ⟨-, rfl⟩ := Prod.mk.inj (Option.some.inj h)
      cases hexponent : exponent? behind with
      | none => exact .refl _
      | some found => exact atomTo_of_exponent? hexponent
  obtain ⟨hafter, hlt⟩ := atomTo_of_wholeDigits? hwhole
  have hle := hcs.length_le
  have hle' := (hbehind.trans hrest).length_le
  exact ⟨hcs.trans (hafter.trans (hbehind.trans hrest)), by omega⟩

theorem isPart_of_spelledWords : ∀ word ∈ spelledWords, IsPart word.1 := by
  have hchars : ∀ word ∈ spelledWords, word.1 ≠ [] ∧
      ∀ c ∈ word.1, c.isAlphanum = true ∨ c ∈ ['-', '+', '.'] := by
    simp [spelledWords]
  intro word hword
  obtain ⟨hne, hatom⟩ := hchars word hword
  exact isPart_of_isAtomChar hne hatom

/-- A word or a number that the reader finds is a part. -/
theorem passes_atom (c : Cursor) : Passes IsPart c.rest (atom c) := by
  obtain ⟨position, cs⟩ := c
  rw [atom_eq]
  cases hfound : (word? cs).or (number? cs) with
  | none => exact .error _
  | some found =>
    obtain ⟨v, rest⟩ := found
    rcases Option.or_eq_some_iff.1 hfound with hword | ⟨-, hnumber⟩
    · obtain ⟨word, hmem, hword⟩ := List.exists_of_findSome?_eq_some hword
      obtain ⟨rest', hrest, hsame⟩ := Option.map_eq_some_iff.1 hword
      obtain ⟨-, rfl⟩ := Prod.mk.inj hsame
      exact .ok (Text.afterStart?_eq_some_iff.1 hrest) (isPart_of_spelledWords word hmem)
    · obtain ⟨⟨piece, rfl, hpiece⟩, hlt⟩ := atomTo_of_number? hnumber
      have hne : piece ≠ [] := by
        rintro rfl
        exact absurd hlt (by simp)
      exact .ok rfl (isPart_of_isAtomChar hne hpiece)

/-! ## Values -/

theorem Kind.isPart_opening (kind : Kind) {piece : List Char} (h : Stays piece) :
    IsPart (kind.opening :: piece) := by
  refine isPart_cons kind.isPlain_opening ?_ ?_ ?_ h <;> cases kind <;> decide

/-- What the reader stops behind, or has found nothing. -/
theorem passes_closing {α : Type} {c : Cursor} {kind : Kind}
    (h : c.rest.head? = some kind.closing) (a : α) :
    Passes Stays c.rest (.ok (a, c.advance 1)) := by
  have hclosing : Stays [kind.closing] :=
    stays_of_isPlain (by simpa using kind.isPlain_closing)
  have hend : Passes (· = []) (c.advance 1).rest (.ok (a, c.advance 1)) :=
    .ok (List.nil_append _).symm rfl
  exact hend.token (fun piece hpiece => hpiece ▸ hclosing) h

section Steps

variable {fuel : Nat}

/-- Behind the name of a member. -/
theorem passes_behindName (hvalue : ∀ c, Passes IsPart c.rest (value fuel c)) (name : String)
    (c : Cursor) : Passes Stays c.rest (behindName fuel name c) := by
  unfold behindName
  split
  · exact .error _
  · rename_i hcolon
    have hcolon : c.rest.head? = some ':' := by simpa using hcolon
    have hplain : IsPlain ':' := ⟨by decide, by decide, by decide⟩
    have hstays : Stays [':'] := stays_of_isPlain (by simpa using hplain)
    have hbehind := ((hvalue (c.advance 1).skipBlank).map (Value.text name, ·)).mono
      fun _ hpiece => hpiece.stays
    exact hbehind.stays_skipBlank.token (fun _ hpiece => hstays.append hpiece) hcolon

theorem passes_partAt (hvalue : ∀ c, Passes IsPart c.rest (value fuel c)) (kind : Kind)
    (c : Cursor) : Passes IsPart c.rest (partAt kind fuel c) := by
  cases kind with
  | array => exact (hvalue c).map (Value.null, ·)
  | object =>
    obtain ⟨position, cs⟩ := c
    unfold partAt
    dsimp only
    split
    · exact .error _
    · rename_i hquote
      obtain ⟨rest, rfl⟩ := List.head?_eq_some_iff.1 (show cs.head? = some '"' by simpa using hquote)
      exact (passes_string position rest).bind
        (fun name c => (passes_behindName hvalue name c.skipBlank).stays_skipBlank)
        fun _ _ hpiece hmore => hpiece.append hmore

/-- Behind a part. -/
theorem passes_behindPart {kind : Kind}
    (hparts : ∀ c, Passes IsPart c.rest (partsAt kind fuel c)) (found : Value × Value)
    (c : Cursor) : Passes Stays c.rest (behindPart kind fuel found c) := by
  unfold behindPart
  split
  · rename_i hclosing
    exact passes_closing hclosing [found]
  split
  · rename_i hcomma
    have hbehind := (hparts (c.advance 1).skipBlank).map (found :: ·)
    exact (hbehind.skipBlank fun _ _ hblanks hpiece => hpiece.blanks hblanks).token
      (fun _ hpiece => hpiece.stays_comma) hcomma
  · exact .error _

theorem passes_inBrackets {kind : Kind}
    (hparts : ∀ c, Passes IsPart c.rest (partsAt kind fuel c)) (c : Cursor) :
    Passes Stays c.rest (inBrackets kind fuel c) := by
  unfold inBrackets
  split
  · rename_i hclosing
    exact passes_closing hclosing _
  · exact ((hparts c).map kind.value).mono fun _ hpiece => hpiece.stays

end Steps

/-- Values and parts that the reader finds are parts. -/
theorem passes_value_partsAt (fuel : Nat) :
    (∀ c, Passes IsPart c.rest (value fuel c)) ∧
      ∀ kind c, Passes IsPart c.rest (partsAt kind fuel c) := by
  induction fuel with
  | zero =>
    refine ⟨fun c => .error _, fun kind c => ?_⟩
    cases kind <;> exact .error _
  | succ fuel ih =>
    obtain ⟨hvalue, hparts⟩ := ih
    refine ⟨?_, fun kind c => ?_⟩
    · rintro ⟨position, cs⟩
      have hbrackets : ∀ (kind : Kind) (rest : List Char), cs = kind.opening :: rest →
          Passes IsPart cs (value (fuel + 1) ⟨position, cs⟩) := by
        rintro kind rest rfl
        rw [value_opening]
        have hinner := passes_inBrackets (hparts kind) (Cursor.skipBlank ⟨position + 1, rest⟩)
        exact hinner.stays_skipBlank.behind [kind.opening] fun _ hpiece => kind.isPart_opening hpiece
      cases cs with
      | nil => exact passes_atom ⟨position, []⟩
      | cons d rest =>
        by_cases hopening : d ∈ ['"', '{', '[']
        · simp only [List.mem_cons, List.not_mem_nil, or_false] at hopening
          obtain rfl | rfl | rfl := hopening
          · exact (passes_string position rest).map Value.text
          · exact hbrackets .object rest rfl
          · exact hbrackets .array rest rfl
        · rw [value_eq_atom hopening]
          exact passes_atom ⟨position, d :: rest⟩
    · rw [partsAt_succ]
      exact (passes_partAt hvalue kind c).bind
        (fun found c => (passes_behindPart (hparts kind) found c.skipBlank).stays_skipBlank)
        fun _ _ hpiece hmore => hpiece.append hmore

/-! ## Whole texts -/

/-- A text that the reader accepts stays as it is. -/
theorem stays_of_parse {cs : List Char} {v : Value} (h : parse cs = .ok v) : Stays cs := by
  unfold parse at h
  split at h
  · cases h
  have hvalue : Passes Stays cs (value (2 * cs.length + 2) (Cursor.mk 0 cs).skipBlank) :=
    Passes.stays_skipBlank (((passes_value_partsAt _).1 _).mono fun _ hpiece => hpiece.stays)
  cases hfound : value (2 * cs.length + 2) (Cursor.mk 0 cs).skipBlank with
  | error fault =>
    rw [hfound] at h
    cases h
  | ok found =>
    obtain ⟨found, c⟩ := found
    obtain ⟨piece, hcs, hpiece⟩ := hvalue found c hfound
    obtain ⟨blanks, hblanks, hrest⟩ := c.exists_skipBlank
    have hend : c.skipBlank.rest = [] := by
      rw [hfound] at h
      cases hend : c.skipBlank.rest with
      | nil => rfl
      | cons d ds => simp [bind, Except.bind, Cursor.fail, hend] at h
    rw [hcs, hrest, hend, List.append_nil]
    exact hpiece.append (stays_blanks hblanks)

/-- Taking comments out of a text that the reader accepts changes nothing but the blanks at its
ends. -/
theorem withoutComments_of_parse {cs : List Char} {v : Value} (h : parse cs = .ok v) :
    withoutComments cs = Text.strip Text.isBlank cs := by
  have hstays : withoutCommentsFrom 0 0 cs = cs := by
    simpa [withoutCommentsFrom] using stays_of_parse h []
  rw [withoutComments, hstays]

/-- Strings that look like comments, like a last comma, and like their own ends, with blanks around
the list of them. -/
theorem withoutComments_of_parse_list :
    (∃ v, parse ['\t', '[', '"', '/', '/', '"', ' ', ',', '"', ',', ']', '"', ',', '"', '\\', '"',
      '/', '*', '\\', '\\', '"', ' ', ']', '\n'] = .ok v) ∧
    withoutComments ['\t', '[', '"', '/', '/', '"', ' ', ',', '"', ',', ']', '"', ',', '"', '\\',
      '"', '/', '*', '\\', '\\', '"', ' ', ']', '\n'] =
    ['[', '"', '/', '/', '"', ' ', ',', '"', ',', ']', '"', ',', '"', '\\', '"', '/', '*', '\\',
      '\\', '"', ' ', ']'] := by
  have hparse : parse ['\t', '[', '"', '/', '/', '"', ' ', ',', '"', ',', ']', '"', ',', '"', '\\',
      '"', '/', '*', '\\', '\\', '"', ' ', ']', '\n'] =
      .ok (.list [.text (.ofList ['/', '/']), .text (.ofList [',', ']']),
        .text (.ofList ['"', '/', '*', '\\'])]) := rfl
  exact ⟨⟨_, hparse⟩, (withoutComments_of_parse hparse).trans rfl⟩

end DeclBundle.Json
