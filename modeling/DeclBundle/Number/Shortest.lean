import DeclBundle.Number.Binary64
set_option autoImplicit false

/-!
# Shortest decimals

The text of a number has the fewest digits that are read back as the same number, and of the
texts with so few digits the one nearest to the number.  It is positional from `10 ^ -4` up to
`10 ^ 16`, with at least one digit behind the point, and has an exponent otherwise.
-/

namespace DeclBundle

namespace Binary64

/-- A decimal `digits · 10 ^ exponent`. -/
structure Decimal where
  digits : Nat
  exponent : Int
  deriving DecidableEq, Repr

/-- Whether a decimal is read as a given finite number. -/
def Decimal.readsAs (d : Decimal) (x : Binary64) : Bool :=
  match x with
  | finite _ m e => ofDecimal false d.digits d.exponent == finite false m e
  | _ => false

/-- The number of digits before the point of the positive quotient `num / den`, or, below one,
minus the number of zeros behind the point. -/
def magnitude (num den : Nat) : Int :=
  if den ≤ num then ((Nat.toDigits 10 (num / den)).length : Int)
  else
    let k := (Nat.toDigits 10 (den / num)).length
    if den ≤ num * Nat.pow 10 (k - 1) then 2 - (k : Int) else 1 - (k : Int)

/-- The decimal with a given number of digits nearest to the positive quotient `num / den`, if the
number reads back. -/
def nearest? (x : Binary64) (num den places : Nat) : Option Decimal :=
  let exponent := magnitude num den - places
  let (a, b) :=
    match exponent with
    | .ofNat n => (num, den * Nat.pow 10 n)
    | .negSucc n => (num * Nat.pow 10 (n + 1), den)
  let q := a / b
  let r := a % b
  let low : Decimal := ⟨q, exponent⟩
  let high : Decimal := ⟨q + 1, exponent⟩
  let lowFirst := 2 * r < b || (2 * r = b && q % 2 = 0)
  let (first, second) := if lowFirst then (low, high) else (high, low)
  if first.readsAs x then some first else if second.readsAs x then some second else none

/-- The shortest decimal of a positive finite number. -/
def shortest (m e : Nat) : Decimal :=
  let num := m * Nat.pow 2 e
  let den := Nat.pow 2 1074
  ((List.range 17).findSome? fun n => nearest? (finite false m e) num den (n + 1)).getD ⟨0, 0⟩

/-- The digits of a decimal without trailing zeros, and how many of them stand before the point. -/
def Decimal.significant (d : Decimal) : List Char × Int :=
  let digits := Nat.toDigits 10 d.digits
  let kept := (digits.reverse.dropWhile (· == '0')).reverse
  (kept, digits.length + d.exponent)

/-- The text of a positive decimal. -/
def Decimal.text (d : Decimal) : List Char :=
  let (digits, point) := d.significant
  if -4 < point && point ≤ 16 then
    if point ≤ 0 then '0' :: '.' :: (List.replicate (-point).toNat '0' ++ digits)
    else
      let n := point.toNat
      let whole := digits.take n ++ List.replicate (n - digits.length) '0'
      let rest := digits.drop n
      whole ++ '.' :: (if rest.isEmpty then ['0'] else rest)
  else
    let exponent := point - 1
    let places := Nat.toDigits 10 exponent.natAbs
    let fraction := digits.drop 1
    digits.take 1 ++ (if fraction.isEmpty then [] else '.' :: fraction) ++
      'e' :: (if exponent < 0 then '-' else '+') ::
      (List.replicate (2 - places.length) '0' ++ places)

/-- The text of a number. -/
def text : Binary64 → String
  | nan => "nan"
  | infinity negative => if negative then "-inf" else "inf"
  | finite negative m e =>
    let body := if m = 0 then ['0', '.', '0'] else (shortest m e).text
    .ofList (if negative then '-' :: body else body)

end Binary64

end DeclBundle
