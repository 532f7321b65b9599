set_option autoImplicit false

/-!
# Binary floating point numbers

The numbers of the 64-bit binary format as exact values: a sign and a natural number times a power
of two.  Rounding takes a quotient of natural numbers to the nearest such value, and of two that
are equally near to the one with the even significand.
-/

namespace DeclBundle

/-- A number of the 64-bit binary format.  A finite number is `±significand · 2 ^ (exponent - 1074)`,
and its significand has 53 bits unless the exponent is zero. -/
inductive Binary64 where
  | nan
  | infinity (negative : Bool)
  | finite (negative : Bool) (significand exponent : Nat)
  deriving DecidableEq, Repr

namespace Binary64

/-- The number of bits of a significand. -/
def precision : Nat := 53

/-- The quotient rounded to the nearest natural number, a tie to the even one. -/
def roundQuotient (num den : Nat) : Nat :=
  let q := num / den
  let r := num % den
  if 2 * r < den then q
  else if den < 2 * r then q + 1
  else if q % 2 = 0 then q else q + 1

/-- The least exponent at which the quotient times `2 ^ 1074`, rounded, has at most 53 bits. -/
def exponentFor (num den : Nat) : Nat :=
  let scaled := num * Nat.pow 2 1074 / den
  Nat.log2 scaled + 1 - precision

/-- The number nearest to a quotient. -/
def ofQuotient (negative : Bool) (num den : Nat) : Binary64 :=
  if num = 0 then finite negative 0 0
  else
    let e := exponentFor num den
    let m := roundQuotient (num * Nat.pow 2 1074) (den * Nat.pow 2 e)
    let (m, e) := if m = Nat.pow 2 precision then (Nat.pow 2 (precision - 1), e + 1) else (m, e)
    if e + precision > 2098 then infinity negative else finite negative m e

/-- The number nearest to `digits · 10 ^ exponent`. -/
def ofDecimal (negative : Bool) (digits : Nat) (exponent : Int) : Binary64 :=
  if digits = 0 then finite negative 0 0
  else
    let places := (Nat.toDigits 10 digits).length
    if exponent + places > 310 then infinity negative
    else if exponent + places < -330 then finite negative 0 0
    else
      match exponent with
      | .ofNat n => ofQuotient negative (digits * Nat.pow 10 n) 1
      | .negSucc n => ofQuotient negative digits (Nat.pow 10 (n + 1))

/-- Whether a number is zero. -/
def isZero : Binary64 → Bool
  | finite _ m _ => m == 0
  | _ => false

/-- The number with a factor and a summand, each step rounded: `x · factor + summand`. -/
def mulAddNat (x : Binary64) (factor : Nat) (summand : Binary64) : Binary64 :=
  let scaled : Binary64 :=
    match x with
    | finite s m e => ofQuotient s (m * factor * Nat.pow 2 e) (Nat.pow 2 1074)
    | y => y
  match scaled, summand with
  | finite s m e, finite _ m' e' =>
    ofQuotient s (m * Nat.pow 2 e + m' * Nat.pow 2 e') (Nat.pow 2 1074)
  | infinity s, _ => infinity s
  | _, infinity s => infinity s
  | _, _ => nan

end Binary64

end DeclBundle
