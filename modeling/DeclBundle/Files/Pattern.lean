import DeclBundle.Text.Lines
set_option autoImplicit false

/-!
# Name patterns

A pattern over names: `*` stands for any characters, `?` for one, and a class in square brackets
for one of the characters that it lists, or with `!` for one that it does not list.  A bracket
that is not closed stands for itself.  Every character counts as any other, the slash included.
-/

namespace DeclBundle.Files

/-- What a class lists: one character, or all from one to another. -/
structure Range where
  low : Char
  high : Char
  deriving DecidableEq, Repr

/-- A part of a pattern. -/
inductive Piece where
  /-- any characters, or none -/
  | run
  /-- any character -/
  | any
  /-- one of the listed characters, or one that is not listed -/
  | oneOf (negated : Bool) (ranges : List Range)
  | literal (c : Char)
  deriving DecidableEq, Repr

/-! ## Reading a class -/

/-- The parts of a class between the hyphens that make ranges.  The hyphen at the end of a part
stands between two characters; the `skip` characters before it belong to the part. -/
def classParts (skip : Nat) (part : List Char) : List Char → List (List Char)
  | [] => [part.reverse]
  | c :: cs =>
    match skip with
    | skip + 1 => classParts skip (c :: part) cs
    | 0 => if c = '-' then part.reverse :: classParts 2 [] cs else classParts 0 (c :: part) cs

/-- The parts of a class, of which an empty last one gives its hyphen to the part before. -/
def hyphenParts (cs : List Char) : List (List Char) :=
  let parts := classParts (if cs.head? = some '!' then 2 else 1) [] cs
  if parts.getLast? = some [] then
    match parts.dropLast.reverse with
    | last :: before => (before.reverse) ++ [last ++ ['-']]
    | [] => parts
  else parts

/-- Whether a range from the last character of one part to the first of the next holds nothing. -/
def isEmptyRange (left right : List Char) : Bool :=
  match left.getLast?, right.head? with
  | some a, some b => b < a
  | _, _ => false

/-- The parts with every empty range taken out. -/
def withoutEmptyRanges : List (List Char) → List (List Char)
  | [] => []
  | part :: parts =>
    match withoutEmptyRanges parts with
    | [] => [part]
    | next :: rest =>
      if isEmptyRange part next then (part.dropLast ++ next.drop 1) :: rest
      else part :: next :: rest

/-- The ranges that parts list: every character, and what lies between neighbouring parts. -/
def partRanges : List (List Char) → List Range
  | [] => []
  | part :: parts =>
    part.map (fun c => ⟨c, c⟩) ++
      (match part.getLast?, (parts.head?.bind List.head?) with
        | some a, some b => [⟨a, b⟩]
        | _, _ => []) ++ partRanges parts

/-- The class that stands between brackets. -/
def classPiece (cs : List Char) : Piece :=
  match withoutEmptyRanges (hyphenParts cs) with
  | ('!' :: part) :: parts => .oneOf true (partRanges (part :: parts))
  | parts => .oneOf false (partRanges parts)

/-- What stands between an opening bracket and the one that closes it.  A closing bracket that comes
first is listed itself. -/
def bracketed? (cs : List Char) : Option (List Char) :=
  let first := if cs.head? = some '!' then 1 else 0
  let first := if (cs.drop first).head? = some ']' then first + 1 else first
  let length := first + ((cs.drop first).takeWhile (· != ']')).length
  if length < cs.length then some (cs.take length) else none

/-! ## Reading a pattern -/

/-- The parts of a pattern, of which the first `passed` characters have been read as a class. -/
def piecesFrom : Nat → List Char → List Piece
  | _, [] => []
  | passed + 1, _ :: cs => piecesFrom passed cs
  | 0, c :: cs =>
    if c = '*' then .run :: piecesFrom 0 cs
    else if c = '?' then .any :: piecesFrom 0 cs
    else if c = '[' then
      match bracketed? cs with
      | some inner => classPiece inner :: piecesFrom (inner.length + 1) cs
      | none => .literal c :: piecesFrom 0 cs
    else .literal c :: piecesFrom 0 cs

/-- The parts of a pattern. -/
def pieces (cs : List Char) : List Piece :=
  piecesFrom 0 cs

/-! ## Matching -/

/-- Whether a character is in a range. -/
def Range.holds (r : Range) (c : Char) : Bool :=
  r.low ≤ c && c ≤ r.high

/-- Whether a character fits a part that stands for one character. -/
def Piece.holds : Piece → Char → Bool
  | .run, _ => false
  | .any, _ => true
  | .oneOf negated ranges, c => ranges.any (·.holds c) != negated
  | .literal d, c => c == d

/-- Whether a text satisfies `p` from some place on. -/
def fromSomewhere (p : List Char → Bool) : List Char → Bool
  | [] => p []
  | c :: cs => p (c :: cs) || fromSomewhere p cs

/-- Whether a whole text fits the parts of a pattern. -/
def fits : List Piece → List Char → Bool
  | [], cs => cs.isEmpty
  | .run :: ps, cs => fromSomewhere (fits ps) cs
  | _ :: _, [] => false
  | p :: ps, c :: cs => p.holds c && fits ps cs

/-! ## Matching in bounded time

Whether a text fits is worked out for all its endings at once, from the last part of the pattern to
the first, so that no ending is looked at twice for the same part. -/

/-- The endings of a text, the longest first. -/
def endings : List Char → List (List Char)
  | [] => [[]]
  | c :: cs => (c :: cs) :: endings cs

/-- For every place in a list, whether something from there on holds. -/
def holdsFrom : List Bool → List Bool
  | [] => []
  | b :: bs => let rest := holdsFrom bs; (b || rest.headD false) :: rest

/-- For every ending of a text, the longest first, whether it fits the parts of a pattern. -/
def fitTable : List Piece → List Char → List Bool
  | [], cs => cs.map (fun _ => false) ++ [true]
  | .run :: ps, cs => holdsFrom (fitTable ps cs)
  | p :: ps, cs => List.zipWith (fun c ok => p.holds c && ok) cs (fitTable ps cs).tail ++ [false]

theorem endings_eq_cons (cs : List Char) : endings cs = cs :: (endings cs).tail := by
  cases cs <;> rfl

theorem endings_map_isEmpty (cs : List Char) :
    (endings cs).map List.isEmpty = cs.map (fun _ => false) ++ [true] := by
  induction cs with
  | nil => rfl
  | cons c cs ih => simp [endings, ih]

theorem holdsFrom_endings (p : List Char → Bool) (cs : List Char) :
    holdsFrom ((endings cs).map p) = (endings cs).map (fromSomewhere p) := by
  induction cs with
  | nil => simp [endings, holdsFrom, fromSomewhere]
  | cons c cs ih =>
    simp only [endings, List.map_cons, holdsFrom, ih]
    rw [endings_eq_cons cs]
    simp [fromSomewhere]

theorem zipWith_endings (p : Piece) (q : List Char → Bool) (cs : List Char) :
    List.zipWith (fun c ok => p.holds c && ok) cs ((endings cs).map q).tail ++ [false] =
      (endings cs).map fun
        | [] => false
        | c :: cs => p.holds c && q cs := by
  induction cs with
  | nil => rfl
  | cons c cs ih =>
    simp only [endings, List.map_cons, List.tail_cons]
    rw [← ih]
    generalize h : endings cs = es
    rw [endings_eq_cons cs] at h
    subst h
    simp

/-- The table says of every ending whether it fits. -/
theorem fitTable_eq (ps : List Piece) (cs : List Char) :
    fitTable ps cs = (endings cs).map (fits ps) := by
  induction ps with
  | nil =>
    have h : fits [] = List.isEmpty := by funext cs; simp [fits]
    rw [fitTable, h, endings_map_isEmpty]
  | cons p ps ih =>
    have single (hp : p ≠ .run) : fits (p :: ps) = fun
        | [] => false
        | c :: cs => p.holds c && fits ps cs := by
      funext cs
      cases p <;> cases cs <;> simp_all [fits]
    cases p with
    | run =>
      rw [fitTable, ih, holdsFrom_endings]
      congr 1
    | any => rw [single (by simp), fitTable, ih, zipWith_endings]; simp
    | oneOf n rs => rw [single (by simp), fitTable, ih, zipWith_endings]; simp
    | literal d => rw [single (by simp), fitTable, ih, zipWith_endings]; simp

/-- Whether a text fits a pattern. -/
def matchesPattern (pattern s : String) : Bool :=
  (fitTable (pieces pattern.toList) s.toList).headD false

/-- A text fits a pattern if it fits its parts. -/
theorem matchesPattern_eq (pattern s : String) :
    matchesPattern pattern s = fits (pieces pattern.toList) s.toList := by
  rw [matchesPattern, fitTable_eq, endings_eq_cons]
  simp

/-- Whether a text holds a character that has a meaning of its own in patterns. -/
def isPattern (s : String) : Bool :=
  s.toList.any fun c => c == '*' || c == '?' || c == '['

end DeclBundle.Files
