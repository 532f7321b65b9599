import DeclBundle.Text.Blank
set_option autoImplicit false

/-!
# JSON with comments

Configuration files may hold comments and a comma behind the last element.  Taking them out leaves
plain JSON.  What stands between double quotes is never changed.
-/

namespace DeclBundle.Json

/-- The number of characters of a string literal behind its opening quote.  A backslash takes the
next character with it. -/
def literalLength : List Char → Nat
  | [] => 0
  | ['\\'] => 1
  | '\\' :: _ :: cs => literalLength cs + 2
  | c :: cs => if c = '"' then 1 else literalLength cs + 1

/-- The number of characters of a block comment behind its opening mark. -/
def blockLength : List Char → Nat
  | [] => 0
  | '*' :: '/' :: _ => 2
  | _ :: cs => blockLength cs + 1

/-- Whether a closing bracket comes next, blanks apart. -/
def closesNext (cs : List Char) : Bool :=
  match cs.dropWhile Text.isBlank with
  | c :: _ => c == ']' || c == '}'
  | [] => false

/-- What to do with the next characters. -/
inductive Verdict where
  /-- keep as many -/
  | keep (n : Nat)
  /-- leave out as many -/
  | drop (n : Nat)

/-- What to do with the character `c` before `cs` and some of those after it. -/
def verdict (c : Char) (cs : List Char) : Verdict :=
  if c = '"' then .keep (literalLength cs)
  else if c = '/' && cs.head? = some '/' then .drop (cs.takeWhile (· != '\n')).length
  else if c = '/' && cs.head? = some '*' then .drop (blockLength (cs.drop 1) + 1)
  else if c = ',' && closesNext cs then .drop 0
  else .keep 0

/-- Takes comments and last commas out.  Of a literal being copied `keep` characters are left, of
a comment being passed over `drop`. -/
def withoutCommentsFrom (keep drop : Nat) : List Char → List Char
  | [] => []
  | c :: cs =>
    match keep, drop with
    | keep + 1, drop => c :: withoutCommentsFrom keep drop cs
    | 0, drop + 1 => withoutCommentsFrom 0 drop cs
    | 0, 0 =>
      match verdict c cs with
      | .keep n => c :: withoutCommentsFrom n 0 cs
      | .drop n => withoutCommentsFrom 0 n cs

/-- A text without comments, without commas before closing brackets, and without blanks at its
ends. -/
def withoutComments (cs : List Char) : List Char :=
  Text.strip Text.isBlank (withoutCommentsFrom 0 0 cs)

end DeclBundle.Json
