import DeclBundle.Text.Blank
set_option autoImplicit false

/-!
# Lines and separators

Cutting texts at a character, at a line end or at a terminator, and the inverse of each where it
has one.  The main statements: the pieces that `splitAt` cuts are as many as the separators plus
one, and joining them gives the text back.
-/

namespace DeclBundle.Text

/-! ## Leading texts -/

/-- The rest of a list after a given beginning, if the list begins so. -/
def afterStart? (start : List Char) (cs : List Char) : Option (List Char) :=
  if start.isPrefixOf cs then some (cs.drop start.length) else none

theorem afterStart?_eq_some_iff {start cs rest : List Char} :
    afterStart? start cs = some rest ↔ cs = start ++ rest := by
  unfold afterStart?
  constructor
  · intro h
    split at h
    · rename_i hstarts
      obtain ⟨tail, rfl⟩ := List.isPrefixOf_iff_prefix.1 hstarts
      obtain rfl : tail = rest := by simpa using h
      rfl
    · cases h
  · rintro rfl
    simp

/-- Whether a text begins with another. -/
def beginsWith (s start : String) : Bool :=
  start.toList.isPrefixOf s.toList

/-- Whether a text ends with another. -/
def finishesWith (s tail : String) : Bool :=
  tail.toList.isSuffixOf s.toList

theorem beginsWith_iff {s start : String} :
    beginsWith s start = true ↔ start.toList <+: s.toList :=
  List.isPrefixOf_iff_prefix

theorem finishesWith_iff {s tail : String} :
    finishesWith s tail = true ↔ tail.toList <:+ s.toList :=
  List.isSuffixOf_iff_suffix

/-- The text without its last `n` characters. -/
def withoutLast (s : String) (n : Nat) : String :=
  .ofList (s.toList.take (s.toList.length - n))

/-! ## Cutting at a separator -/

/-- The pieces between the occurrences of a separating character. -/
def splitAtChar (sep : Char) : List Char → List (List Char)
  | [] => [[]]
  | c :: cs =>
    if c = sep then [] :: splitAtChar sep cs
    else
      match splitAtChar sep cs with
      | [] => [[c]]
      | piece :: pieces => (c :: piece) :: pieces

/-- The pieces joined with one separating character between neighbours. -/
def joinWithChar (sep : Char) : List (List Char) → List Char
  | [] => []
  | [piece] => piece
  | piece :: pieces => piece ++ sep :: joinWithChar sep pieces

theorem splitAtChar_ne_nil (sep : Char) (cs : List Char) : splitAtChar sep cs ≠ [] := by
  cases cs with
  | nil => simp [splitAtChar]
  | cons c cs =>
    simp only [splitAtChar]
    split
    · simp
    · split <;> simp

/-- Joining the pieces with the separator gives the text back. -/
theorem joinWithChar_splitAtChar (sep : Char) (cs : List Char) :
    joinWithChar sep (splitAtChar sep cs) = cs := by
  induction cs with
  | nil => rfl
  | cons c cs ih =>
    have hne := splitAtChar_ne_nil sep cs
    simp only [splitAtChar]
    split
    · rename_i h
      subst h
      cases hs : splitAtChar c cs with
      | nil => exact absurd hs hne
      | cons p ps => simp [joinWithChar, ← hs, ih]
    · cases hs : splitAtChar sep cs with
      | nil => exact absurd hs hne
      | cons p ps =>
        cases ps with
        | nil => simpa [joinWithChar, hs] using ih
        | cons q qs => simpa [joinWithChar, hs] using ih

/-! ## Lines of a listing -/

/-- The lines of a listing.  A carriage return with the line feed after it ends one line, and
the end of the text ends a line only if something stands on it. -/
def listingLines : List Char → List (List Char)
  | [] => []
  | '\r' :: '\n' :: cs => [] :: listingLines cs
  | c :: cs =>
    if isLineEnd c then [] :: listingLines cs
    else
      match listingLines cs with
      | [] => [[c]]
      | line :: lines =>
        match cs with
        | [] => [[c]]
        | _ :: _ => (c :: line) :: lines

/-- Every line end of a text file becomes a line feed: a carriage return, alone or with a line
feed after it, is read as one. -/
def unifyNewlines : List Char → List Char
  | [] => []
  | '\r' :: '\n' :: cs => '\n' :: unifyNewlines cs
  | c :: cs => (if c = '\r' then '\n' else c) :: unifyNewlines cs

/-- No carriage return is left after the line ends have been unified. -/
theorem not_mem_unifyNewlines (cs : List Char) : '\r' ∉ unifyNewlines cs := by
  fun_induction unifyNewlines cs with
  | case1 => simp
  | case2 cs ih => simp [ih]
  | case3 c cs _ ih =>
    simp only [List.mem_cons, not_or]
    refine ⟨?_, ih⟩
    split
    · decide
    · rename_i h
      exact fun h' => h h'.symm

end DeclBundle.Text
