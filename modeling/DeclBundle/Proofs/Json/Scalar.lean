import DeclBundle.Json.Parser
set_option autoImplicit false

/-!
# Values without parts

How JSON writes words, numbers and strings, said without the reader: a string literal may hold every
character but quotes, backslashes and controls, and escapes for all of them; a number has digits,
perhaps a fraction, and perhaps an exponent.  The reader gives the value of each of them and stops
behind it, if what comes next does not go on with a number (`stringFrom_of_literal`,
`number?_of_numeral`, `atom_of_scalar`).
-/

namespace DeclBundle.Json

open Data (Value)

/-! ## Literals -/

/-- Which letter stands behind a backslash for which character. -/
inductive Escape : Char → Char → Prop where
  | quote : Escape '"' '"'
  | backslash : Escape '\\' '\\'
  | slash : Escape '/' '/'
  | backspace : Escape 'b' '\x08'
  | formFeed : Escape 'f' '\x0c'
  | lineFeed : Escape 'n' '\n'
  | carriageReturn : Escape 'r' '\r'
  | tab : Escape 't' '\t'

/-- Whether a character is the hexadecimal digit of a number, in either case. -/
structure IsHexOf (c : Char) (k : Nat) : Prop where
  lt : k < 16
  eq : c = k.digitChar ∨ c = k.digitChar.toUpper

/-- Which number four hexadecimal digits stand for. -/
inductive Code : Char → Char → Char → Char → Nat → Prop where
  | intro {a b c d : Char} {i j k l : Nat} (ha : IsHexOf a i) (hb : IsHexOf b j)
      (hc : IsHexOf c k) (hd : IsHexOf d l) :
      Code a b c d (16 * (16 * (16 * i + j) + k) + l)

/-- What may stand between the quotes of a literal, and the characters that it stands for.  A
character beyond the first 65536 is written in two halves; half of a pair alone is no character, and
the replacement character stands for it. -/
inductive Literal : List Char → List Char → Prop where
  | nil : Literal [] []
  | plain {c : Char} {cs xs : List Char} (hquote : c ≠ '"') (hbackslash : c ≠ '\\')
      (hcontrol : 0x20 ≤ c.toNat) (h : Literal cs xs) : Literal (c :: cs) (c :: xs)
  | escape {letter c : Char} {cs xs : List Char} (hletter : Escape letter c) (h : Literal cs xs) :
      Literal ('\\' :: letter :: cs) (c :: xs)
  | code {a b c d : Char} {n : Nat} {cs xs : List Char} (hcode : Code a b c d n)
      (hhalf : n < 0xD800 ∨ 0xE000 ≤ n) (h : Literal cs xs) :
      Literal ('\\' :: 'u' :: a :: b :: c :: d :: cs) (.ofNat n :: xs)
  | pair {a b c d a' b' c' d' : Char} {high low : Nat} {cs xs : List Char}
      (hhigh : Code a b c d (0xD800 + high)) (hlow : Code a' b' c' d' (0xDC00 + low))
      (hhigh_lt : high < 0x400) (hlow_lt : low < 0x400) (h : Literal cs xs) :
      Literal ('\\' :: 'u' :: a :: b :: c :: d :: '\\' :: 'u' :: a' :: b' :: c' :: d' :: cs)
        (.ofNat (0x10000 + 0x400 * high + low) :: xs)
  | half {a b c d : Char} {n : Nat} {cs xs : List Char} (hcode : Code a b c d n)
      (hhalf : 0xD800 ≤ n ∧ n < 0xE000)
      (halone : n < 0xDC00 → ∀ a' b' c' d' m ds, cs = '\\' :: 'u' :: a' :: b' :: c' :: d' :: ds →
        Code a' b' c' d' m → m < 0xDC00 ∨ 0xE000 ≤ m) (h : Literal cs xs) :
      Literal ('\\' :: 'u' :: a :: b :: c :: d :: cs) ('\ufffd' :: xs)

/-- Characters that need no escape stand for themselves. -/
theorem literal_of_plain {cs : List Char}
    (h : ∀ c ∈ cs, c ≠ '"' ∧ c ≠ '\\' ∧ 0x20 ≤ c.toNat) : Literal cs cs := by
  induction cs with
  | nil => exact .nil
  | cons c cs ih =>
    obtain ⟨hquote, hbackslash, hcontrol⟩ := h c List.mem_cons_self
    exact .plain hquote hbackslash hcontrol (ih fun d hd => h d (List.mem_cons_of_mem c hd))

theorem Escape.escaped?_eq {letter c : Char} (h : Escape letter c) :
    letter ≠ 'u' ∧ escaped? letter = some c := by
  cases h <;> decide

theorem IsHexOf.hexDigit?_eq {c : Char} {k : Nat} (h : IsHexOf c k) : hexDigit? c = some k := by
  have hall : ∀ k : Fin 16, hexDigit? (Nat.digitChar k) = some k.val ∧
      hexDigit? (Nat.digitChar k).toUpper = some k.val := by
    decide
  obtain ⟨hlt, rfl | rfl⟩ := h
  · exact (hall ⟨k, hlt⟩).1
  · exact (hall ⟨k, hlt⟩).2

theorem Code.fourHex?_eq {a b c d : Char} {n : Nat} (h : Code a b c d n) :
    fourHex? a b c d = some n := by
  obtain ⟨ha, hb, hc, hd⟩ := h
  simp only [fourHex?, ha.hexDigit?_eq, hb.hexDigit?_eq, hc.hexDigit?_eq, hd.hexDigit?_eq]
  simp [Nat.mul_comm]

variable {opened position : Nat}

/-- A character that stands for itself is read. -/
theorem stringFrom_plain {c : Char} (cs : List Char) (hquote : c ≠ '"') (hbackslash : c ≠ '\\')
    (hcontrol : 0x20 ≤ c.toNat) :
    stringFrom opened position (c :: cs) = (do
      let (rest, k) ← stringFrom opened (position + 1) cs
      .ok (c :: rest, k)) := by
  rw [stringFrom]
  · rw [if_neg (by omega)]
  all_goals simp_all

/-- A letter behind a backslash is read. -/
theorem stringFrom_escape {letter c : Char} (cs : List Char) (h : Escape letter c) :
    stringFrom opened position ('\\' :: letter :: cs) = (do
      let (rest, k) ← stringFrom opened (position + 2) cs
      .ok (c :: rest, k)) := by
  obtain ⟨hne, hescaped⟩ := h.escaped?_eq
  rw [stringFrom]
  · simp only [hescaped]
  all_goals simp_all

theorem charOfCode_eq {n : Nat} (h : n < 0xD800 ∨ 0xE000 ≤ n) :
    isHighHalf n = false ∧ charOfCode n = .ofNat n := by
  have hhigh : isHighHalf n = false := by simp [isHighHalf]; omega
  have hlow : isLowHalf n = false := by simp [isLowHalf]; omega
  exact ⟨hhigh, by simp [charOfCode, hhigh, hlow]⟩

/-- A character that is written by its code is read, whether or not another code comes next. -/
theorem stringFrom_code {a b c d : Char} {n : Nat} {cs : List Char} (hcs : cs ≠ [])
    (hcode : Code a b c d n) (hhalf : n < 0xD800 ∨ 0xE000 ≤ n) :
    stringFrom opened position ('\\' :: 'u' :: a :: b :: c :: d :: cs) = (do
      let (rest, k) ← stringFrom opened (position + 6) cs
      .ok (.ofNat n :: rest, k)) := by
  obtain ⟨hhigh, hchar⟩ := charOfCode_eq hhalf
  by_cases hnext : ∃ a' b' c' d' e es, cs = '\\' :: 'u' :: a' :: b' :: c' :: d' :: e :: es
  · obtain ⟨a', b', c', d', e, es, rfl⟩ := hnext
    rw [stringFrom]
    simp only [hcode.fourHex?_eq, hhigh, hchar, Bool.false_eq_true, if_false]
  · obtain ⟨e, es, rfl⟩ := List.exists_cons_of_ne_nil hcs
    rw [stringFrom]
    · simp only [hcode.fourHex?_eq, hchar]
    · rintro a' b' c' d' e' es' rfl rfl
      exact hnext ⟨a', b', c', d', e', es', rfl⟩

/-- A character that is written in two halves is read. -/
theorem stringFrom_pair {a b c d a' b' c' d' : Char} {high low : Nat} {cs : List Char}
    (hcs : cs ≠ []) (hhigh : Code a b c d (0xD800 + high)) (hlow : Code a' b' c' d' (0xDC00 + low))
    (hhigh_lt : high < 0x400) (hlow_lt : low < 0x400) :
    stringFrom opened position
        ('\\' :: 'u' :: a :: b :: c :: d :: '\\' :: 'u' :: a' :: b' :: c' :: d' :: cs) = (do
      let (rest, k) ← stringFrom opened (position + 12) cs
      .ok (.ofNat (0x10000 + 0x400 * high + low) :: rest, k)) := by
  obtain ⟨e, es, rfl⟩ := List.exists_cons_of_ne_nil hcs
  have hisHigh : isHighHalf (0xD800 + high) = true := by simp [isHighHalf]; omega
  have hisLow : isLowHalf (0xDC00 + low) = true := by simp [isLowHalf]; omega
  rw [stringFrom]
  simp only [hhigh.fourHex?_eq, hlow.fourHex?_eq, hisHigh, hisLow, if_true]
  simp [Nat.mul_comm]

/-- Half of a pair is read, if no other half comes next. -/
theorem stringFrom_half {a b c d : Char} {n : Nat} {cs : List Char} (hcs : cs ≠ [])
    (hcode : Code a b c d n) (hhalf : 0xD800 ≤ n ∧ n < 0xE000)
    (halone : n < 0xDC00 → ∀ a' b' c' d' ds, cs = '\\' :: 'u' :: a' :: b' :: c' :: d' :: ds →
      ∃ m, Code a' b' c' d' m ∧ (m < 0xDC00 ∨ 0xE000 ≤ m)) :
    stringFrom opened position ('\\' :: 'u' :: a :: b :: c :: d :: cs) = (do
      let (rest, k) ← stringFrom opened (position + 6) cs
      .ok ('\ufffd' :: rest, k)) := by
  have hchar : charOfCode n = '\ufffd' := by
    simp only [charOfCode, isHighHalf, isLowHalf, Bool.or_eq_true, Bool.and_eq_true,
      decide_eq_true_eq]
    rw [if_pos (by omega)]
  -- the reader looks for another half only where a code comes next, with a character behind it
  by_cases hnext : ∃ a' b' c' d' e es, cs = '\\' :: 'u' :: a' :: b' :: c' :: d' :: e :: es
  · obtain ⟨a', b', c', d', e, es, rfl⟩ := hnext
    rw [stringFrom]
    by_cases hn : n < 0xDC00
    · obtain ⟨m, hm, hm_not⟩ := halone hn a' b' c' d' (e :: es) rfl
      have hhigh : isHighHalf n = true := by simp [isHighHalf]; omega
      have hlow : isLowHalf m = false := by simp [isLowHalf]; omega
      simp only [hcode.fourHex?_eq, hm.fourHex?_eq, hhigh, hlow, hchar, Bool.false_eq_true,
        if_false, if_true]
    · have hhigh : isHighHalf n = false := by simp [isHighHalf]; omega
      simp only [hcode.fourHex?_eq, hhigh, hchar, Bool.false_eq_true, if_false]
  · obtain ⟨e, es, rfl⟩ := List.exists_cons_of_ne_nil hcs
    rw [stringFrom]
    · simp only [hcode.fourHex?_eq, hchar]
    · rintro a' b' c' d' e' es' rfl rfl
      exact hnext ⟨a', b', c', d', e', es', rfl⟩

/-- A code that comes next in a literal is one of the literal, not of what follows it. -/
theorem Literal.code_of_append {inner xs rest : List Char} (h : Literal inner xs)
    {a b c d : Char} {cs : List Char}
    (heq : inner ++ '"' :: rest = '\\' :: 'u' :: a :: b :: c :: d :: cs) :
    ∃ n ds, inner = '\\' :: 'u' :: a :: b :: c :: d :: ds ∧ Code a b c d n := by
  cases h with
  | nil => cases heq
  | plain _ hbackslash => exact absurd (List.cons.inj heq).1 hbackslash
  | escape hletter =>
    simp only [List.cons_append, List.cons.injEq, true_and] at heq
    obtain ⟨rfl, -⟩ := heq
    cases hletter
  | code hcode =>
    simp only [List.cons_append, List.cons.injEq, true_and] at heq
    obtain ⟨rfl, rfl, rfl, rfl, -⟩ := heq
    exact ⟨_, _, rfl, hcode⟩
  | pair hhigh =>
    simp only [List.cons_append, List.cons.injEq, true_and] at heq
    obtain ⟨rfl, rfl, rfl, rfl, -⟩ := heq
    exact ⟨_, _, rfl, hhigh⟩
  | half hcode =>
    simp only [List.cons_append, List.cons.injEq, true_and] at heq
    obtain ⟨rfl, rfl, rfl, rfl, -⟩ := heq
    exact ⟨_, _, rfl, hcode⟩

/-- The characters of a literal are read, up to its closing quote. -/
theorem stringFrom_of_literal {inner xs : List Char} (h : Literal inner xs) (rest : List Char) :
    stringFrom opened position (inner ++ '"' :: rest) =
      .ok (xs, ⟨position + inner.length + 1, rest⟩) := by
  induction h generalizing position with
  | nil => rfl
  | @plain c cs xs hquote hbackslash hcontrol h ih =>
    rw [List.cons_append, stringFrom_plain _ hquote hbackslash hcontrol, ih]
    simp [bind, Except.bind]
    omega
  | @escape letter c cs xs hletter h ih =>
    rw [List.cons_append, List.cons_append, stringFrom_escape _ hletter, ih]
    simp [bind, Except.bind]
    omega
  | code hcode hhalf h ih =>
    simp only [List.cons_append]
    rw [stringFrom_code (by simp) hcode hhalf, ih]
    simp [bind, Except.bind]
    omega
  | pair hhigh hlow hhigh_lt hlow_lt h ih =>
    simp only [List.cons_append]
    rw [stringFrom_pair (by simp) hhigh hlow hhigh_lt hlow_lt, ih]
    simp [bind, Except.bind]
    omega
  | half hcode hhalf halone h ih =>
    simp only [List.cons_append]
    rw [stringFrom_half (by simp) hcode hhalf, ih]
    · simp [bind, Except.bind]
      omega
    · intro hn a' b' c' d' ds heq
      obtain ⟨m, es, hcs, hm⟩ := h.code_of_append heq
      exact ⟨m, hm, halone hn a' b' c' d' m es hcs hm⟩

/-- A literal in its quotes is read. -/
theorem string_of_literal {inner xs : List Char} (h : Literal inner xs) (rest : List Char) :
    string ⟨position, '"' :: (inner ++ '"' :: rest)⟩ =
      .ok (.ofList xs, ⟨position + (inner.length + 2), rest⟩) := by
  simp only [string, List.drop_one, List.tail_cons, stringFrom_of_literal h]
  simp [bind, Except.bind, pure, Except.pure]
  omega

/-! ## Numbers -/

/-- Whether a text consists of digits. -/
def IsDigits (cs : List Char) : Prop :=
  ∀ c ∈ cs, c.isDigit = true

/-- The digits before the point: a zero alone, or digits that begin with another. -/
inductive Whole : List Char → Prop where
  | zero : Whole ['0']
  | digits {c : Char} {cs : List Char} (hzero : c ≠ '0') (h : IsDigits (c :: cs)) : Whole (c :: cs)

/-- A fraction and its digits, of which there are none if there is no point. -/
inductive Fraction : List Char → List Char → Prop where
  | absent : Fraction [] []
  | present {cs : List Char} (hne : cs ≠ []) (h : IsDigits cs) : Fraction ('.' :: cs) cs

/-- A number with or without a sign in front. -/
def signed (negative : Bool) (n : Nat) : Int :=
  if negative then -(n : Int) else n

/-- A sign in front of digits, and whether they are negative. -/
inductive Sign : List Char → Bool → Prop where
  | absent : Sign [] false
  | plus : Sign ['+'] false
  | minus : Sign ['-'] true

/-- An exponent and its power of ten, if it is there. -/
inductive Exponent : List Char → Option Int → Prop where
  | absent : Exponent [] none
  | present {letter : Char} {sign cs : List Char} {negative : Bool}
      (hletter : letter = 'e' ∨ letter = 'E') (hsign : Sign sign negative) (hne : cs ≠ [])
      (h : IsDigits cs) :
      Exponent (letter :: (sign ++ cs)) (some (signed negative (natOfDigits cs)))

/-- The minus in front of a negative number. -/
def minus (negative : Bool) : List Char :=
  if negative then ['-'] else []

/-- How a number is written, and its value.  Without fraction and exponent it is an integer. -/
inductive Numeral : List Char → Value → Prop where
  | integer (negative : Bool) {whole : List Char} (h : Whole whole) :
      Numeral (minus negative ++ whole) (.integer (signed negative (natOfDigits whole)))
  | number (negative : Bool) {whole fraction decimals exponent : List Char} {power : Option Int}
      (hwhole : Whole whole) (hfraction : Fraction fraction decimals)
      (hexponent : Exponent exponent power) (hsome : decimals ≠ [] ∨ power ≠ none) :
      Numeral (minus negative ++ (whole ++ (fraction ++ exponent)))
        (.number (.ofDecimal negative (natOfDigits (whole ++ decimals))
          (power.getD 0 - decimals.length)))

/-- Whether a text does not go on with a number. -/
def EndsNumber (rest : List Char) : Prop :=
  ∀ c ∈ rest.head?, c.isDigit = false ∧ c ≠ '.' ∧ c ≠ 'e' ∧ c ≠ 'E'

/-- Whether a text does not begin with a digit. -/
def EndsDigits (rest : List Char) : Prop :=
  ∀ c ∈ rest.head?, c.isDigit = false

theorem EndsNumber.endsDigits {rest : List Char} (h : EndsNumber rest) : EndsDigits rest :=
  fun c hc => (h c hc).1

theorem spanDigits_append {cs rest : List Char} (h : IsDigits cs) (hrest : EndsDigits rest) :
    spanDigits (cs ++ rest) = (cs, rest) := by
  have hstop : rest.takeWhile Char.isDigit = [] ∧ rest.dropWhile Char.isDigit = rest := by
    cases rest with
    | nil => exact ⟨rfl, rfl⟩
    | cons c rest => simp [hrest c (by simp)]
  rw [spanDigits, List.takeWhile_append_of_pos h, List.dropWhile_append_of_pos h, hstop.1, hstop.2,
    List.append_nil]

theorem Whole.wholeDigits?_eq {whole rest : List Char} (h : Whole whole)
    (hrest : EndsDigits rest) : wholeDigits? (whole ++ rest) = some (whole, rest) := by
  cases h with
  | zero => rfl
  | digits hzero h =>
    have hspan := spanDigits_append h hrest
    have hdigit := h _ List.mem_cons_self
    rw [List.cons_append] at hspan ⊢
    simp [wholeDigits?, hzero, hdigit, hspan]

theorem Fraction.fraction_eq {text decimals rest : List Char} (h : Fraction text decimals)
    (hrest : EndsDigits rest) (hpoint : rest.head? ≠ some '.') :
    fraction (text ++ rest) = (decimals, rest) := by
  cases h with
  | absent =>
    cases rest with
    | nil => rfl
    | cons c rest =>
      have hc : c ≠ '.' := by simpa using hpoint
      simp [fraction, hc]
  | present hne h =>
    obtain ⟨c, cs, rfl⟩ := List.exists_cons_of_ne_nil hne
    simp only [List.cons_append, fraction]
    rw [← List.cons_append, spanDigits_append h hrest]

/-- A digit is none of the characters that stand around digits. -/
theorem ne_of_isDigit {c : Char} (h : c.isDigit = true) : c ≠ '-' ∧ c ≠ '+' ∧ c ≠ '.' := by
  refine ⟨?_, ?_, ?_⟩ <;> rintro rfl <;> exact absurd h (by decide)

theorem Exponent.exponent?_eq {text rest : List Char} {power : Option Int}
    (h : Exponent text power) (hrest : EndsNumber rest) :
    exponent? (text ++ rest) = power.map fun n => (n, rest) := by
  cases h with
  | absent =>
    cases rest with
    | nil => rfl
    | cons c rest =>
      obtain ⟨-, -, he, hE⟩ := hrest c (by simp)
      simp [exponent?, he, hE]
  | @present letter sign cs negative hletter hsign hne h =>
    have hspan := spanDigits_append h hrest.endsDigits
    obtain ⟨c, cs, rfl⟩ := List.exists_cons_of_ne_nil hne
    have hc := ne_of_isDigit (h c List.mem_cons_self)
    rw [List.cons_append] at hspan
    cases hsign <;> simp [exponent?, hletter, hspan, signed, hc]

/-- No digit and no point comes before an exponent, or where there is none. -/
theorem Exponent.ends {text rest : List Char} {power : Option Int} (h : Exponent text power)
    (hrest : EndsNumber rest) :
    EndsDigits (text ++ rest) ∧ (text ++ rest).head? ≠ some '.' := by
  cases h with
  | absent =>
    refine ⟨hrest.endsDigits, ?_⟩
    intro hpoint
    exact (hrest '.' hpoint).2.1 rfl
  | present hletter =>
    rcases hletter with rfl | rfl <;> exact ⟨by rintro c ⟨⟩; rfl, by simp⟩

/-- No digit comes before a fraction, or where there is none. -/
theorem Fraction.endsDigits {text decimals rest : List Char} (h : Fraction text decimals)
    (hrest : EndsDigits rest) : EndsDigits (text ++ rest) := by
  cases h with
  | absent => exact hrest
  | present =>
    rintro c ⟨⟩
    rfl

theorem Whole.head_isDigit {whole : List Char} (h : Whole whole) :
    ∃ c cs, whole = c :: cs ∧ c.isDigit = true := by
  cases h with
  | zero => exact ⟨'0', [], rfl, rfl⟩
  | digits hzero h => exact ⟨_, _, rfl, h _ List.mem_cons_self⟩

/-- What `number?` does, with the sign told apart already. -/
theorem number?_minus_append (negative : Bool) {whole : List Char} (hwhole : Whole whole)
    {decimals rest after : List Char} {power : Option Int} (hrest : EndsDigits rest)
    (hfraction : fraction rest = (decimals, after))
    {last : List Char} (hexponent : exponent? after = power.map fun n => (n, last))
    (habsent : power = none → after = last) :
    number? (minus negative ++ (whole ++ rest)) =
      some (if decimals = [] ∧ power = none
        then .integer (signed negative (natOfDigits whole))
        else .number (.ofDecimal negative (natOfDigits (whole ++ decimals))
          (power.getD 0 - decimals.length)), last) := by
  obtain ⟨c, cs, rfl, hc⟩ := hwhole.head_isDigit
  have hwholeDigits := hwhole.wholeDigits?_eq hrest
  have hminus := (ne_of_isDigit hc).1
  rw [List.cons_append] at hwholeDigits ⊢
  unfold number?
  generalize Binary64.ofDecimal = round
  cases power with
  | none =>
    obtain rfl := habsent rfl
    cases negative <;> cases decimals <;>
      simp [minus, signed, hminus, hwholeDigits, hfraction, hexponent]
  | some n =>
    cases negative <;> cases decimals <;>
      simp [minus, hminus, hwholeDigits, hfraction, hexponent]

/-- A number is read up to where nothing goes on with it. -/
theorem number?_of_numeral {text rest : List Char} {v : Value} (h : Numeral text v)
    (hrest : EndsNumber rest) : number? (text ++ rest) = some (v, rest) := by
  cases h with
  | integer negative hwhole =>
    have hfraction := Fraction.absent.fraction_eq hrest.endsDigits fun hpoint =>
      (hrest '.' hpoint).2.1 rfl
    have hexponent := Exponent.absent.exponent?_eq hrest
    have hnumber := number?_minus_append negative hwhole hrest.endsDigits hfraction hexponent
      fun _ => rfl
    simpa using hnumber
  | @number negative whole fractionText decimals exponentText power hwhole hfraction hexponent
      hsome =>
    obtain ⟨hends, hpoint⟩ := hexponent.ends hrest
    have hnumber := number?_minus_append negative hwhole (hfraction.endsDigits hends)
      (hfraction.fraction_eq hends hpoint) (hexponent.exponent?_eq hrest) ?_
    · rw [if_neg] at hnumber
      · simpa using hnumber
      · rintro ⟨hdecimals, hpower⟩
        exact hsome.elim (absurd hdecimals) (absurd hpower)
    · rintro rfl
      cases hexponent
      rfl

/-- The characters that numbers are written with. -/
def IsNumberChar (c : Char) : Prop :=
  c.isDigit = true ∨ c ∈ ['-', '+', '.', 'e', 'E']

theorem isNumberChar_digits {cs : List Char} (h : IsDigits cs) : ∀ c ∈ cs, IsNumberChar c :=
  fun c hc => .inl (h c hc)

theorem Whole.isNumberChar {whole : List Char} (h : Whole whole) : ∀ c ∈ whole, IsNumberChar c := by
  cases h with
  | zero => exact isNumberChar_digits (by simp [IsDigits, Char.isDigit])
  | digits _ h => exact isNumberChar_digits h

theorem isNumberChar_minus (negative : Bool) : ∀ c ∈ minus negative, IsNumberChar c := by
  cases negative <;> simp [minus, IsNumberChar]

theorem Fraction.isNumberChar {text decimals : List Char} (h : Fraction text decimals) :
    ∀ c ∈ text, IsNumberChar c := by
  cases h with
  | absent => simp
  | present _ h => exact List.forall_mem_cons.2 ⟨.inr (by simp), isNumberChar_digits h⟩

theorem Sign.isNumberChar {text : List Char} {negative : Bool} (h : Sign text negative) :
    ∀ c ∈ text, IsNumberChar c := by
  cases h <;> simp [IsNumberChar]

theorem Exponent.isNumberChar {text : List Char} {power : Option Int} (h : Exponent text power) :
    ∀ c ∈ text, IsNumberChar c := by
  cases h with
  | absent => simp
  | present hletter hsign _ h =>
    refine List.forall_mem_cons.2 ⟨.inr ?_, List.forall_mem_append.2
      ⟨hsign.isNumberChar, isNumberChar_digits h⟩⟩
    rcases hletter with rfl | rfl <;> simp

theorem Numeral.isNumberChar {text : List Char} {v : Value} (h : Numeral text v) :
    ∀ c ∈ text, IsNumberChar c := by
  cases h with
  | integer negative h =>
    exact List.forall_mem_append.2 ⟨isNumberChar_minus negative, h.isNumberChar⟩
  | number negative hwhole hfraction hexponent =>
    exact List.forall_mem_append.2 ⟨isNumberChar_minus negative, List.forall_mem_append.2
      ⟨hwhole.isNumberChar, List.forall_mem_append.2
        ⟨hfraction.isNumberChar, hexponent.isNumberChar⟩⟩⟩

/-! ## Values without parts -/

/-- How a value without parts is written. -/
inductive Scalar : List Char → Value → Prop where
  | null : Scalar ['n', 'u', 'l', 'l'] .null
  | true : Scalar ['t', 'r', 'u', 'e'] (.boolean true)
  | false : Scalar ['f', 'a', 'l', 's', 'e'] (.boolean false)
  | number {text : List Char} {v : Value} (h : Numeral text v) : Scalar text v
  | string {inner xs : List Char} (h : Literal inner xs) :
      Scalar ('"' :: (inner ++ ['"'])) (.text (.ofList xs))

theorem minus_append_cases (negative : Bool) {whole : List Char} (h : Whole whole) :
    ∃ c cs, whole = c :: cs ∧ c.isDigit = Bool.true ∧
      (minus negative ++ whole = c :: cs ∨ minus negative ++ whole = '-' :: c :: cs) := by
  obtain ⟨c, cs, rfl, hc⟩ := h.head_isDigit
  refine ⟨c, cs, rfl, hc, ?_⟩
  cases negative
  · exact .inl rfl
  · exact .inr rfl

/-- A number begins with a digit, or with a minus and a digit. -/
theorem Numeral.head_cases {text : List Char} {v : Value} (h : Numeral text v) :
    ∃ c cs, c.isDigit = true ∧ (text = c :: cs ∨ text = '-' :: c :: cs) := by
  cases h with
  | integer negative h =>
    obtain ⟨c, cs, rfl, hc, htext⟩ := minus_append_cases negative h
    exact ⟨c, cs, hc, htext⟩
  | @number negative whole fraction decimals exponent power h =>
    obtain ⟨c, cs, rfl, hc, htext⟩ := minus_append_cases negative h
    rw [← List.append_assoc]
    refine ⟨c, cs ++ (fraction ++ exponent), hc, htext.imp ?_ ?_⟩ <;>
      exact fun heq => by rw [heq]; rfl

/-- The letters that words begin with. -/
def IsWordStart (c : Char) : Prop :=
  c = 'n' ∨ c = 't' ∨ c = 'f' ∨ c = 'N' ∨ c = 'I'

theorem not_isWordStart_of_isDigit {c : Char} (h : c.isDigit = true) : ¬ IsWordStart c := by
  rintro (rfl | rfl | rfl | rfl | rfl) <;> exact absurd h (by decide)

/-- The letters of the words, and their values. -/
def spelledWords : List (List Char × Value) :=
  [(['n', 'u', 'l', 'l'], .null), (['t', 'r', 'u', 'e'], .boolean true),
    (['f', 'a', 'l', 's', 'e'], .boolean false), (['N', 'a', 'N'], .number .nan),
    (['I', 'n', 'f', 'i', 'n', 'i', 't', 'y'], .number (.infinity false)),
    (['-', 'I', 'n', 'f', 'i', 'n', 'i', 't', 'y'], .number (.infinity true))]

/-- The word at the beginning of a text, and what follows it. -/
def word? (cs : List Char) : Option (Value × List Char) :=
  spelledWords.findSome? fun (w, v) => (Text.afterStart? w cs).map fun r => (v, r)

theorem atom_eq (p : Nat) (cs : List Char) : atom ⟨p, cs⟩ =
    match (word? cs).or (number? cs) with
    | some (v, rest) => .ok (v, ⟨p + (cs.length - rest.length), rest⟩)
    | none => .error ⟨.expectingValue, p⟩ := by
  have hwords : words.findSome? (fun w => (Text.afterStart? w.1.toList cs).map fun r => (w.2, r)) =
      word? cs := by
    have hspelled : words.map (fun w => (w.1.toList, w.2)) = spelledWords := rfl
    rw [word?, ← hspelled, List.findSome?_map]
    rfl
  have hatom : atom ⟨p, cs⟩ =
      match words.findSome? fun w => (Text.afterStart? w.1.toList cs).map fun r => (w.2, r) with
      | some (v, rest) => .ok (v, ⟨p + (cs.length - rest.length), rest⟩)
      | none =>
        match number? cs with
        | some (v, rest) => .ok (v, ⟨p + (cs.length - rest.length), rest⟩)
        | none => .error ⟨.expectingValue, p⟩ := rfl
  rw [hatom, hwords]
  cases word? cs with
  | some found => rfl
  | none => cases number? cs <;> rfl

theorem afterStart?_cons_of_ne {c d : Char} (ds cs : List Char) (h : d ≠ c) :
    Text.afterStart? (d :: ds) (c :: cs) = none := by
  simp [Text.afterStart?, h]

theorem word?_eq_none {cs : List Char}
    (h : ∀ c ∈ cs.head?, ¬ IsWordStart c ∧ (c = '-' → cs.tail.head? ≠ some 'I')) :
    word? cs = none := by
  cases cs with
  | nil => rfl
  | cons c cs =>
    obtain ⟨hstart, hminus⟩ := h c rfl
    simp only [IsWordStart, not_or] at hstart
    obtain ⟨hn, ht, hf, hN, hI⟩ := hstart
    have hinfinity : Text.afterStart? ['-', 'I', 'n', 'f', 'i', 'n', 'i', 't', 'y'] (c :: cs) =
        none := by
      by_cases hc : c = '-'
      · subst hc
        cases cs with
        | nil => rfl
        | cons d cs =>
          have hd : d ≠ 'I' := by simpa using hminus rfl
          simp [Text.afterStart?, Ne.symm hd]
      · exact afterStart?_cons_of_ne _ _ (Ne.symm hc)
    simp only [word?, spelledWords, List.findSome?_cons, List.findSome?_nil, hinfinity,
      afterStart?_cons_of_ne _ _ (Ne.symm hn), afterStart?_cons_of_ne _ _ (Ne.symm ht),
      afterStart?_cons_of_ne _ _ (Ne.symm hf), afterStart?_cons_of_ne _ _ (Ne.symm hN),
      afterStart?_cons_of_ne _ _ (Ne.symm hI), Option.map_none]

/-- A value without parts that is no string is read up to where nothing goes on with a number. -/
theorem atom_of_scalar {text : List Char} {v : Value} (h : Scalar text v)
    (hstring : text.head? ≠ some '"') {rest : List Char} (hrest : EndsNumber rest) (p : Nat) :
    atom ⟨p, text ++ rest⟩ = .ok (v, ⟨p + text.length, rest⟩) := by
  suffices hfound : (word? (text ++ rest)).or (number? (text ++ rest)) = some (v, rest) by
    rw [atom_eq, hfound]
    simp
  cases h with
  | null => rfl
  | true => rfl
  | false => rfl
  | number h =>
    obtain ⟨c, cs, hc, htext⟩ := h.head_cases
    have hword : word? (text ++ rest) = none := by
      apply word?_eq_none
      have hminus := (ne_of_isDigit hc).1
      rcases htext with rfl | rfl
      · rintro _ ⟨⟩
        exact ⟨not_isWordStart_of_isDigit hc, fun h => absurd h hminus⟩
      · rintro _ ⟨⟩
        refine ⟨by simp [IsWordStart], fun _ => ?_⟩
        have hI : c ≠ 'I' := fun h => not_isWordStart_of_isDigit hc (by simp [IsWordStart, h])
        simpa using hI
    rw [hword, number?_of_numeral h hrest]
    rfl
  | string h => exact absurd rfl hstring

/-- Nothing is read where no word and no number begins. -/
theorem atom_error {cs : List Char}
    (h : ∀ c ∈ cs.head?, ¬ IsWordStart c ∧ c ≠ '-' ∧ c.isDigit = false) (p : Nat) :
    atom ⟨p, cs⟩ = .error ⟨.expectingValue, p⟩ := by
  have hword : word? cs = none :=
    word?_eq_none fun c hc => ⟨(h c hc).1, fun hminus => absurd hminus (h c hc).2.1⟩
  have hnumber : number? cs = none := by
    cases cs with
    | nil => rfl
    | cons c cs =>
      obtain ⟨-, hminus, hdigit⟩ := h c rfl
      have hzero : c ≠ '0' := by
        rintro rfl
        exact absurd hdigit (by decide)
      unfold number?
      generalize Binary64.ofDecimal = round
      simp [hminus, wholeDigits?, hdigit, hzero]
  rw [atom_eq, hword, hnumber]
  rfl

end DeclBundle.Json
