set_option autoImplicit false

/-!
# UTF-8

Characters as bytes and back.  Decoding refuses a byte sequence that is not the encoding of any
character, and says where: the fault covers the longest beginning of a character that stands at
the place, so that a byte that could start the next character is never part of it.  The main
statement is that decoding undoes encoding.
-/

namespace DeclBundle.Utf8

/-! ## Encoding -/

/-- The bytes of one character. -/
def encodeChar (c : Char) : List UInt8 :=
  let n := c.toNat
  if n < 0x80 then [UInt8.ofNat n]
  else if n < 0x800 then [UInt8.ofNat (0xC0 + n / 0x40), UInt8.ofNat (0x80 + n % 0x40)]
  else if n < 0x10000 then
    [UInt8.ofNat (0xE0 + n / 0x1000), UInt8.ofNat (0x80 + n / 0x40 % 0x40),
      UInt8.ofNat (0x80 + n % 0x40)]
  else
    [UInt8.ofNat (0xF0 + n / 0x40000), UInt8.ofNat (0x80 + n / 0x1000 % 0x40),
      UInt8.ofNat (0x80 + n / 0x40 % 0x40), UInt8.ofNat (0x80 + n % 0x40)]

/-- The bytes of a text. -/
def encode (cs : List Char) : List UInt8 :=
  cs.flatMap encodeChar

@[simp] theorem encode_nil : encode [] = [] := rfl

@[simp] theorem encode_cons (c : Char) (cs : List Char) :
    encode (c :: cs) = encodeChar c ++ encode cs := rfl

@[simp] theorem encode_append (cs ds : List Char) :
    encode (cs ++ ds) = encode cs ++ encode ds := by
  simp [encode]

/-- How many bytes a character takes. -/
def width (c : Char) : Nat :=
  (encodeChar c).length

theorem width_pos (c : Char) : 0 < width c := by
  simp only [width, encodeChar]
  repeat' split
  all_goals simp

/-! ## Decoding -/

/-- Why a byte sequence is not the encoding of a text. -/
inductive Reason where
  /-- a byte that starts no character -/
  | invalidStart
  /-- a byte that cannot stand where it does inside a character -/
  | invalidContinuation
  /-- the bytes end inside a character -/
  | unexpectedEnd
  deriving DecidableEq, Repr

/-- Where and why decoding stops.  The fault covers the bytes at `first` to `last`, of which the
first is `byte`. -/
structure Fault where
  first : Nat
  last : Nat
  byte : UInt8
  reason : Reason
  deriving DecidableEq, Repr

/-- The words for a reason. -/
def Reason.message : Reason → String
  | .invalidStart => "invalid start byte"
  | .invalidContinuation => "invalid continuation byte"
  | .unexpectedEnd => "unexpected end of data"

/-- Two hexadecimal digits of a byte. -/
def hexByte (b : UInt8) : String :=
  let digits := Nat.toDigits 16 b.toNat
  .ofList (List.replicate (2 - digits.length) '0' ++ digits)

/-- The words for a fault: one byte is named by its value, several by their place only. -/
def Fault.message (f : Fault) : String :=
  if f.first = f.last then
    "'utf-8' codec can't decode byte 0x" ++ hexByte f.byte ++ " in position " ++
      toString f.first ++ ": " ++ f.reason.message
  else
    "'utf-8' codec can't decode bytes in position " ++ toString f.first ++ "-" ++
      toString f.last ++ ": " ++ f.reason.message

/-- What the first byte of a character says: how many bytes follow, and which range the first
of them has to be in so that the encoding is the shortest and no surrogate. -/
structure Lead where
  following : Nat
  low : Nat
  high : Nat
  deriving DecidableEq, Repr

/-- Reads the first byte of a character. -/
def lead? (b : UInt8) : Option Lead :=
  let n := b.toNat
  if n < 0x80 then some ⟨0, 0, 0⟩
  else if n < 0xC2 then none
  else if n < 0xE0 then some ⟨1, 0x80, 0xBF⟩
  else if n = 0xE0 then some ⟨2, 0xA0, 0xBF⟩
  else if n = 0xED then some ⟨2, 0x80, 0x9F⟩
  else if n < 0xF0 then some ⟨2, 0x80, 0xBF⟩
  else if n = 0xF0 then some ⟨3, 0x90, 0xBF⟩
  else if n < 0xF4 then some ⟨3, 0x80, 0xBF⟩
  else if n = 0xF4 then some ⟨3, 0x80, 0x8F⟩
  else none

/-- Whether a byte is in a range. -/
def within (low high : Nat) (b : UInt8) : Bool :=
  low ≤ b.toNat && b.toNat ≤ high

/-- Whether a byte continues a character. -/
def continues (b : UInt8) : Bool :=
  within 0x80 0xBF b

/-- The six bits that a continuation byte carries. -/
def payload (b : UInt8) : Nat :=
  b.toNat % 0x40

/-- Decodes bytes of which the first stands at `pos`. -/
def decodeFrom (pos : Nat) : List UInt8 → Except Fault (List Char)
  | [] => .ok []
  | b :: bs =>
    match lead? b with
    | none => .error ⟨pos, pos, b, .invalidStart⟩
    | some ⟨0, _, _⟩ => (decodeFrom (pos + 1) bs).map (Char.ofNat b.toNat :: ·)
    | some ⟨1, low, high⟩ =>
      match bs with
      | [] => .error ⟨pos, pos, b, .unexpectedEnd⟩
      | b₁ :: bs =>
        if within low high b₁ then
          (decodeFrom (pos + 2) bs).map
            (Char.ofNat (b.toNat % 0x20 * 0x40 + payload b₁) :: ·)
        else .error ⟨pos, pos, b, .invalidContinuation⟩
    | some ⟨2, low, high⟩ =>
      match bs with
      | [] => .error ⟨pos, pos, b, .unexpectedEnd⟩
      | [b₁] =>
        if within low high b₁ then .error ⟨pos, pos + 1, b, .unexpectedEnd⟩
        else .error ⟨pos, pos, b, .invalidContinuation⟩
      | b₁ :: b₂ :: bs =>
        if !within low high b₁ then .error ⟨pos, pos, b, .invalidContinuation⟩
        else if !continues b₂ then .error ⟨pos, pos + 1, b, .invalidContinuation⟩
        else
          (decodeFrom (pos + 3) bs).map
            (Char.ofNat (b.toNat % 0x10 * 0x1000 + payload b₁ * 0x40 + payload b₂) :: ·)
    | some ⟨_, low, high⟩ =>
      match bs with
      | [] => .error ⟨pos, pos, b, .unexpectedEnd⟩
      | [b₁] =>
        if within low high b₁ then .error ⟨pos, pos + 1, b, .unexpectedEnd⟩
        else .error ⟨pos, pos, b, .invalidContinuation⟩
      | [b₁, b₂] =>
        if !within low high b₁ then .error ⟨pos, pos, b, .invalidContinuation⟩
        else if continues b₂ then .error ⟨pos, pos + 2, b, .unexpectedEnd⟩
        else .error ⟨pos, pos + 1, b, .invalidContinuation⟩
      | b₁ :: b₂ :: b₃ :: bs =>
        if !within low high b₁ then .error ⟨pos, pos, b, .invalidContinuation⟩
        else if !continues b₂ then .error ⟨pos, pos + 1, b, .invalidContinuation⟩
        else if !continues b₃ then .error ⟨pos, pos + 2, b, .invalidContinuation⟩
        else
          (decodeFrom (pos + 4) bs).map
            (Char.ofNat (b.toNat % 8 * 0x40000 + payload b₁ * 0x1000 + payload b₂ * 0x40 +
              payload b₃) :: ·)

/-- The text that a byte sequence encodes. -/
def decode (bs : List UInt8) : Except Fault (List Char) :=
  decodeFrom 0 bs

/-! ## Decoding undoes encoding -/

theorem char_ofNat_toNat (c : Char) : Char.ofNat c.toNat = c := by
  simp

theorem toNat_ofNat_lt {n : Nat} (h : n < 0x100) : (UInt8.ofNat n).toNat = n := by
  simp
  omega

/-- A byte made of six bits continues a character. -/
theorem continues_ofNat {k : Nat} (h : k < 0x40) : continues (UInt8.ofNat (0x80 + k)) = true := by
  have hb : (UInt8.ofNat (0x80 + k)).toNat = 0x80 + k := toNat_ofNat_lt (by omega)
  simp only [continues, within, hb, Bool.and_eq_true, decide_eq_true_eq]
  omega

theorem payload_ofNat {k : Nat} (h : k < 0x40) : payload (UInt8.ofNat (0x80 + k)) = k := by
  have hb : (UInt8.ofNat (0x80 + k)).toNat = 0x80 + k := toNat_ofNat_lt (by omega)
  simp only [payload, hb]
  omega

/-- The first of two bytes. -/
theorem lead?_two {n : Nat} (hlow : 0x80 ≤ n) (hhigh : n < 0x800) :
    lead? (UInt8.ofNat (0xC0 + n / 0x40)) = some ⟨1, 0x80, 0xBF⟩ := by
  have hb : (UInt8.ofNat (0xC0 + n / 0x40)).toNat = 0xC0 + n / 0x40 := toNat_ofNat_lt (by omega)
  simp only [lead?, hb, show ¬ (0xC0 + n / 0x40 < 0x80) by omega,
    show ¬ (0xC0 + n / 0x40 < 0xC2) by omega, show (0xC0 + n / 0x40 < 0xE0) by omega,
    if_true, if_false]

/-- The first of three bytes, of which the second is in its range: a shorter encoding and a
surrogate are what the ranges leave out. -/
theorem lead?_three {n : Nat} (hlow : 0x800 ≤ n) (hhigh : n < 0x10000)
    (hn : n < 0xD800 ∨ 0xDFFF < n) :
    ∃ low high, lead? (UInt8.ofNat (0xE0 + n / 0x1000)) = some ⟨2, low, high⟩ ∧
      within low high (UInt8.ofNat (0x80 + n / 0x40 % 0x40)) = true := by
  have hb : (UInt8.ofNat (0xE0 + n / 0x1000)).toNat = 0xE0 + n / 0x1000 :=
    toNat_ofNat_lt (by omega)
  have hb1 : (UInt8.ofNat (0x80 + n / 0x40 % 0x40)).toNat = 0x80 + n / 0x40 % 0x40 :=
    toNat_ofNat_lt (by omega)
  simp only [lead?, hb, within, hb1, Bool.and_eq_true, decide_eq_true_eq,
    show ¬ (0xE0 + n / 0x1000 < 0x80) by omega, show ¬ (0xE0 + n / 0x1000 < 0xC2) by omega,
    show ¬ (0xE0 + n / 0x1000 < 0xE0) by omega, if_false]
  by_cases hleast : 0xE0 + n / 0x1000 = 0xE0
  · exact ⟨0xA0, 0xBF, by simp only [hleast, if_true], by omega, by omega⟩
  · by_cases hsurrogate : 0xE0 + n / 0x1000 = 0xED
    · exact ⟨0x80, 0x9F, by simp [hsurrogate], by omega, by omega⟩
    · have hlast : 0xE0 + n / 0x1000 < 0xF0 := by omega
      exact ⟨0x80, 0xBF, by simp only [hleast, hsurrogate, hlast, if_true, if_false], by omega,
        by omega⟩

/-- The first of four bytes, of which the second is in its range. -/
theorem lead?_four {n : Nat} (hlow : 0x10000 ≤ n) (hhigh : n < 0x110000) :
    ∃ low high, lead? (UInt8.ofNat (0xF0 + n / 0x40000)) = some ⟨3, low, high⟩ ∧
      within low high (UInt8.ofNat (0x80 + n / 0x1000 % 0x40)) = true := by
  have hb : (UInt8.ofNat (0xF0 + n / 0x40000)).toNat = 0xF0 + n / 0x40000 :=
    toNat_ofNat_lt (by omega)
  have hb1 : (UInt8.ofNat (0x80 + n / 0x1000 % 0x40)).toNat = 0x80 + n / 0x1000 % 0x40 :=
    toNat_ofNat_lt (by omega)
  simp only [lead?, hb, within, hb1, Bool.and_eq_true, decide_eq_true_eq,
    show ¬ (0xF0 + n / 0x40000 < 0x80) by omega, show ¬ (0xF0 + n / 0x40000 < 0xC2) by omega,
    show ¬ (0xF0 + n / 0x40000 < 0xE0) by omega, show ¬ (0xF0 + n / 0x40000 = 0xE0) by omega,
    show ¬ (0xF0 + n / 0x40000 = 0xED) by omega, show ¬ (0xF0 + n / 0x40000 < 0xF0) by omega,
    if_false]
  by_cases hleast : 0xF0 + n / 0x40000 = 0xF0
  · exact ⟨0x90, 0xBF, by simp only [hleast, if_true], by omega, by omega⟩
  · by_cases hmiddle : 0xF0 + n / 0x40000 < 0xF4
    · exact ⟨0x80, 0xBF, by simp only [hleast, hmiddle, if_true, if_false], by omega, by omega⟩
    · have hgreatest : 0xF0 + n / 0x40000 = 0xF4 := by omega
      exact ⟨0x80, 0x8F, by simp [hgreatest], by omega, by omega⟩

theorem decodeFrom_one (pos : Nat) {n : Nat} (h : n < 0x80) (bs : List UInt8) :
    decodeFrom pos (UInt8.ofNat n :: bs) = (decodeFrom (pos + 1) bs).map (Char.ofNat n :: ·) := by
  have hb : (UInt8.ofNat n).toNat = n := toNat_ofNat_lt (by omega)
  simp [decodeFrom, lead?, hb, h]

theorem decodeFrom_two (pos : Nat) {n : Nat} (hlow : 0x80 ≤ n) (hhigh : n < 0x800)
    (bs : List UInt8) :
    decodeFrom pos (UInt8.ofNat (0xC0 + n / 0x40) :: UInt8.ofNat (0x80 + n % 0x40) :: bs) =
      (decodeFrom (pos + 2) bs).map (Char.ofNat n :: ·) := by
  have hb : (UInt8.ofNat (0xC0 + n / 0x40)).toNat = 0xC0 + n / 0x40 := toNat_ofNat_lt (by omega)
  have hsecond : within 0x80 0xBF (UInt8.ofNat (0x80 + n % 0x40)) = true :=
    continues_ofNat (by omega)
  have hvalue : (0xC0 + n / 0x40) % 0x20 * 0x40 + n % 0x40 = n := by omega
  simp only [decodeFrom, lead?_two hlow hhigh, hsecond, if_true, hb,
    payload_ofNat (show n % 0x40 < 0x40 by omega), hvalue]

theorem decodeFrom_three (pos : Nat) {n : Nat} (hlow : 0x800 ≤ n) (hhigh : n < 0x10000)
    (hn : n < 0xD800 ∨ 0xDFFF < n) (bs : List UInt8) :
    decodeFrom pos (UInt8.ofNat (0xE0 + n / 0x1000) :: UInt8.ofNat (0x80 + n / 0x40 % 0x40) ::
        UInt8.ofNat (0x80 + n % 0x40) :: bs) =
      (decodeFrom (pos + 3) bs).map (Char.ofNat n :: ·) := by
  obtain ⟨low, high, hlead, hsecond⟩ := lead?_three hlow hhigh hn
  have hb : (UInt8.ofNat (0xE0 + n / 0x1000)).toNat = 0xE0 + n / 0x1000 :=
    toNat_ofNat_lt (by omega)
  have hthird : continues (UInt8.ofNat (0x80 + n % 0x40)) = true := continues_ofNat (by omega)
  have hvalue : (0xE0 + n / 0x1000) % 0x10 * 0x1000 + n / 0x40 % 0x40 * 0x40 + n % 0x40 = n := by
    omega
  simp only [decodeFrom, hlead, hsecond, hthird, Bool.not_true, Bool.false_eq_true, if_false, hb,
    payload_ofNat (show n / 0x40 % 0x40 < 0x40 by omega),
    payload_ofNat (show n % 0x40 < 0x40 by omega), hvalue]

theorem decodeFrom_four (pos : Nat) {n : Nat} (hlow : 0x10000 ≤ n) (hhigh : n < 0x110000)
    (bs : List UInt8) :
    decodeFrom pos (UInt8.ofNat (0xF0 + n / 0x40000) :: UInt8.ofNat (0x80 + n / 0x1000 % 0x40) ::
        UInt8.ofNat (0x80 + n / 0x40 % 0x40) :: UInt8.ofNat (0x80 + n % 0x40) :: bs) =
      (decodeFrom (pos + 4) bs).map (Char.ofNat n :: ·) := by
  obtain ⟨low, high, hlead, hsecond⟩ := lead?_four hlow hhigh
  have hb : (UInt8.ofNat (0xF0 + n / 0x40000)).toNat = 0xF0 + n / 0x40000 :=
    toNat_ofNat_lt (by omega)
  have hthird : continues (UInt8.ofNat (0x80 + n / 0x40 % 0x40)) = true :=
    continues_ofNat (by omega)
  have hfourth : continues (UInt8.ofNat (0x80 + n % 0x40)) = true := continues_ofNat (by omega)
  have hvalue : (0xF0 + n / 0x40000) % 8 * 0x40000 + n / 0x1000 % 0x40 * 0x1000 +
      n / 0x40 % 0x40 * 0x40 + n % 0x40 = n := by omega
  simp only [decodeFrom, hlead, hsecond, hthird, hfourth, Bool.not_true, Bool.false_eq_true,
    if_false, hb, payload_ofNat (show n / 0x1000 % 0x40 < 0x40 by omega),
    payload_ofNat (show n / 0x40 % 0x40 < 0x40 by omega),
    payload_ofNat (show n % 0x40 < 0x40 by omega), hvalue]

/-- A character is decoded from its own bytes, whatever follows. -/
theorem decodeFrom_encodeChar (pos : Nat) (c : Char) (bs : List UInt8) :
    decodeFrom pos (encodeChar c ++ bs) =
      (decodeFrom (pos + width c) bs).map (c :: ·) := by
  have hvalid : c.toNat < 0xD800 ∨ (0xDFFF < c.toNat ∧ c.toNat < 0x110000) := by
    simpa [UInt32.isValidChar, Nat.isValidChar] using c.valid
  have hc := char_ofNat_toNat c
  simp only [width, encodeChar]
  split
  case isTrue h1 => simpa [hc] using decodeFrom_one pos h1 bs
  case isFalse h1 =>
    split
    case isTrue h2 => simpa [hc] using decodeFrom_two pos (Nat.le_of_not_lt h1) h2 bs
    case isFalse h2 =>
      split
      case isTrue h3 =>
        have hn : c.toNat < 0xD800 ∨ 0xDFFF < c.toNat := by omega
        simpa [hc] using decodeFrom_three pos (Nat.le_of_not_lt h2) h3 hn bs
      case isFalse h3 =>
        have hn : c.toNat < 0x110000 := by omega
        simpa [hc] using decodeFrom_four pos (Nat.le_of_not_lt h3) hn bs

/-- Decoding undoes encoding, whatever bytes follow. -/
theorem decodeFrom_encode_append (pos : Nat) (cs : List Char) (bs : List UInt8) :
    decodeFrom pos (encode cs ++ bs) =
      (decodeFrom (pos + (encode cs).length) bs).map (cs ++ ·) := by
  induction cs generalizing pos with
  | nil =>
    cases h : decodeFrom pos bs <;> simp [h, Except.map]
  | cons c cs ih =>
    rw [encode_cons, List.append_assoc, decodeFrom_encodeChar, ih, List.length_append]
    rw [← Nat.add_assoc]
    cases h : decodeFrom (pos + width c + (encode cs).length) bs <;>
      simp only [width] at h <;> simp [Except.map, h]

/-- Decoding undoes encoding. -/
theorem decode_encode (cs : List Char) : decode (encode cs) = .ok cs := by
  have h := decodeFrom_encode_append 0 cs []
  simpa [decode, decodeFrom, Except.map] using h

end DeclBundle.Utf8
