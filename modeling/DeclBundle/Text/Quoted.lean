import DeclBundle.Text.Printable
set_option autoImplicit false

/-!
# Quoted texts

A text as it is shown in a message: between single quotes, or between double quotes if it holds a
single quote and no double quote, with a backslash before what would be misread and a code in
place of what has no visible form.
-/

namespace DeclBundle.Text

/-- A number in hexadecimal, filled up with zeros to a given number of digits. -/
def hexPadded (places n : Nat) : List Char :=
  let digits := Nat.toDigits 16 n
  List.replicate (places - digits.length) '0' ++ digits

/-- The quote that is put around a text. -/
def quoteMark (cs : List Char) : Char :=
  if cs.contains '\'' && !cs.contains '"' then '"' else '\''

/-- One character of a quoted text. -/
def quotedChar (mark c : Char) : List Char :=
  if c = mark || c = '\\' then ['\\', c]
  else if c = '\n' then ['\\', 'n']
  else if c = '\r' then ['\\', 'r']
  else if c = '\t' then ['\\', 't']
  else if isPrintable c then [c]
  else if c.toNat < 0x100 then '\\' :: 'x' :: hexPadded 2 c.toNat
  else if c.toNat < 0x10000 then '\\' :: 'u' :: hexPadded 4 c.toNat
  else '\\' :: 'U' :: hexPadded 8 c.toNat

/-- A text between quotes. -/
def quoted (s : String) : String :=
  let cs := s.toList
  let mark := quoteMark cs
  .ofList (mark :: cs.flatMap (quotedChar mark) ++ [mark])

end DeclBundle.Text
