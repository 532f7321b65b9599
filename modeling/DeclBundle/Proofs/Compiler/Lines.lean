import DeclBundle.Compiler.Listing
import Mathlib.Logic.Basic
set_option autoImplicit false

/-!
# Lines that show a diagnostic

The line of a diagnostic begins with its code, or with a file and a mark: the position in the file
and the code.  The file is as short as it can be, so of the marks behind the first character the
first one counts.  A mark has a bracket at its beginning only; where a text with a bracket in front
follows, no mark begins before it and ends in it (`IsMark.prefix_of_append`), and a file without a
mark is found again (`diagnostic?_located`).
-/

namespace DeclBundle.Listing

open Text

variable {cs : List Char}

/-! ## Numbers -/

/-- Whether a text is a number, written with decimal digits of any script. -/
def IsNumber (cs : List Char) : Prop :=
  cs ≠ [] ∧ ∀ c ∈ cs, isDigit c = true

/-- What is found is the number in front of the mark. -/
theorem number?_eq_some_iff {mark : String} {c : Char} {tail rest : List Char} {n : Nat}
    (hmark : mark.toList = c :: tail) (hc : isDigit c = false) :
    number? mark cs = some (n, rest) ↔
      ∃ digits, IsNumber digits ∧ n = digitsValue digits ∧
        cs = digits ++ (mark.toList ++ rest) := by
  have hsplit : cs.takeWhile isDigit ++ cs.drop (cs.takeWhile isDigit).length = cs := by
    rw [List.prefix_iff_eq_append.1 (List.takeWhile_prefix isDigit)]
  constructor
  · intro h
    unfold number? at h
    dsimp only at h
    split at h
    · cases h
    · rename_i hdigits
      obtain ⟨rest', hrest, hsame⟩ := Option.map_eq_some_iff.1 h
      obtain ⟨rfl, rfl⟩ := Prod.mk.inj hsame
      refine ⟨cs.takeWhile isDigit, ⟨by simpa using hdigits, fun d hd => ?_⟩, rfl, ?_⟩
      · exact List.all_eq_true.1 List.all_takeWhile d hd
      · rw [← afterStart?_eq_some_iff.1 hrest, hsplit]
  · rintro ⟨digits, ⟨hne, hdigits⟩, rfl, rfl⟩
    have htake : (digits ++ (mark.toList ++ rest)).takeWhile isDigit = digits := by
      rw [List.takeWhile_append_of_pos hdigits, hmark]
      simp [hc]
    have hafter := afterStart?_eq_some_iff.2 (rfl : mark.toList ++ rest = mark.toList ++ rest)
    simp [number?, htake, hne, hafter]

/-! ## Problems and marks -/

/-- What stands in front of the code of a problem. -/
def problemStart : List Char :=
  "error TS".toList

theorem problemStart_eq : problemStart = ['e', 'r', 'r', 'o', 'r', ' ', 'T', 'S'] := rfl

/-- A problem as it is shown. -/
def problemText (code message : List Char) : List Char :=
  problemStart ++ (code ++ (": ".toList ++ message))

/-- What stands between a file and the message. -/
def mark (line column code : List Char) : List Char :=
  "(".toList ++ (line ++ (",".toList ++ (column ++ ("): ".toList ++ problemText code []))))

/-- Whether a text shows a problem without a file. -/
def IsProblem (cs : List Char) : Prop :=
  ∃ code message, IsNumber code ∧ cs = problemText code message

/-- Whether a text is a mark. -/
def IsMark (cs : List Char) : Prop :=
  ∃ line column code, IsNumber line ∧ IsNumber column ∧ IsNumber code ∧ cs = mark line column code

/-- Whether a mark stands in a text. -/
def Marked (cs : List Char) : Prop :=
  ∃ before text after, IsMark text ∧ cs = before ++ (text ++ after)

/-- Whether a line shows a diagnostic: of a file, whose name is at least one character long, or of
none. -/
def IsReport (line : List Char) : Prop :=
  Marked line.tail ∨ IsProblem line

theorem problem?_eq_some_iff {code : Nat} {message : String} :
    problem? cs = some (code, message) ↔
      ∃ digits, IsNumber digits ∧ code = digitsValue digits ∧
        cs = problemText digits message.toList := by
  unfold problem?
  constructor
  · intro h
    obtain ⟨rest, hrest, h⟩ := Option.bind_eq_some_iff.1 h
    obtain ⟨⟨n, text⟩, hnumber, hsame⟩ := Option.bind_eq_some_iff.1 h
    obtain ⟨digits, hdigits, hn, rfl⟩ := (number?_eq_some_iff rfl (by decide +kernel)).1 hnumber
    obtain ⟨rfl, rfl⟩ := Prod.mk.inj (Option.some.inj hsame)
    have hcs : cs = problemStart ++ (digits ++ (": ".toList ++ text)) :=
      afterStart?_eq_some_iff.1 hrest
    exact ⟨digits, hdigits, hn, by rw [hcs, @String.toList_ofList text, problemText]⟩
  · rintro ⟨digits, hdigits, rfl, rfl⟩
    have hafter : afterStart? problemStart (problemText digits message.toList) =
        some (digits ++ (": ".toList ++ message.toList)) :=
      afterStart?_eq_some_iff.2 (by rw [problemText])
    change afterStart? "error TS".toList _ = _ at hafter
    have hnumber : number? ": " (digits ++ (": ".toList ++ message.toList)) =
        some (digitsValue digits, message.toList) :=
      (number?_eq_some_iff rfl (by decide +kernel)).2 ⟨digits, hdigits, rfl, rfl⟩
    simp only [hafter, hnumber, Option.bind_eq_bind, Option.bind_some, String.ofList_toList]
    rfl

/-- A position is found where a mark begins. -/
theorem position?_mark_append {line column code : List Char} (hline : IsNumber line)
    (hcolumn : IsNumber column) (hcode : IsNumber code) (message : List Char) :
    position? (mark line column code ++ message) =
      some (digitsValue line, digitsValue column, digitsValue code, .ofList message) := by
  have htext : mark line column code ++ message = "(".toList ++ (line ++ (",".toList ++
      (column ++ ("): ".toList ++ problemText code message)))) := by
    simp only [mark, problemText, List.append_assoc, List.append_nil]
  have hafter := afterStart?_eq_some_iff.2 htext
  have hrow : number? "," (line ++ (",".toList ++ (column ++ ("): ".toList ++
      problemText code message)))) =
        some (digitsValue line, column ++ ("): ".toList ++ problemText code message)) :=
    (number?_eq_some_iff rfl (by decide +kernel)).2 ⟨line, hline, rfl, rfl⟩
  have hplace : number? "): " (column ++ ("): ".toList ++ problemText code message)) =
      some (digitsValue column, problemText code message) :=
    (number?_eq_some_iff rfl (by decide +kernel)).2 ⟨column, hcolumn, rfl, rfl⟩
  have hproblem : problem? (problemText code message) =
      some (digitsValue code, .ofList message) :=
    problem?_eq_some_iff.2 ⟨code, hcode, rfl, by rw [String.toList_ofList]⟩
  simp only [position?, hafter, hrow, hplace, hproblem, Option.bind_eq_bind, Option.bind_some]
  rfl

theorem exists_mark_of_position? {p : Nat × Nat × Nat × String} (h : position? cs = some p) :
    ∃ text message, IsMark text ∧ cs = text ++ message := by
  unfold position? at h
  obtain ⟨rest, hrest, h⟩ := Option.bind_eq_some_iff.1 h
  obtain ⟨⟨n, behind⟩, hrow, h⟩ := Option.bind_eq_some_iff.1 h
  obtain ⟨⟨m, problem⟩, hplace, h⟩ := Option.bind_eq_some_iff.1 h
  obtain ⟨⟨k, message⟩, hproblem, -⟩ := Option.bind_eq_some_iff.1 h
  obtain ⟨line, hline, -, rfl⟩ := (number?_eq_some_iff rfl (by decide +kernel)).1 hrow
  obtain ⟨column, hcolumn, -, rfl⟩ := (number?_eq_some_iff rfl (by decide +kernel)).1 hplace
  obtain ⟨code, hcode, -, rfl⟩ := problem?_eq_some_iff.1 hproblem
  refine ⟨mark line column code, message.toList,
    ⟨line, column, code, hline, hcolumn, hcode, rfl⟩, ?_⟩
  rw [afterStart?_eq_some_iff.1 hrest]
  simp only [mark, problemText, List.append_assoc, List.append_nil]

/-! ## Where marks stand -/

theorem not_mem_of_isNumber {c : Char} (h : IsNumber cs) (hc : isDigit c = false) : c ∉ cs := by
  intro hmem
  rw [h.2 c hmem] at hc
  cases hc

/-- A mark has a bracket at its beginning, and no other one. -/
theorem IsMark.exists_cons (h : IsMark cs) : ∃ tail, cs = '(' :: tail ∧ '(' ∉ tail := by
  obtain ⟨line, column, code, hline, hcolumn, hcode, rfl⟩ := h
  have hnot {digits : List Char} (h : IsNumber digits) : '(' ∉ digits :=
    not_mem_of_isNumber h (by decide +kernel)
  refine ⟨line ++ (",".toList ++ (column ++ ("): ".toList ++ problemText code []))), rfl, ?_⟩
  simp [problemText, problemStart_eq, hnot hline, hnot hcolumn, hnot hcode]

/-- A mark that begins in front of a bracket ends there. -/
theorem IsMark.prefix_of_append {text front after rest : List Char} (h : IsMark text)
    (hne : front ≠ []) (heq : front ++ '(' :: rest = text ++ after) : text <+: front := by
  obtain ⟨tail, rfl, hbracket⟩ := h.exists_cons
  rcases List.append_eq_append_iff.1 heq with ⟨middle, hmiddle, hrest⟩ | ⟨middle, rfl, -⟩
  · cases middle with
    | nil => exact ⟨[], by simpa using hmiddle⟩
    | cons c middle =>
      obtain ⟨rfl, -⟩ := List.cons.inj hrest
      cases front with
      | nil => exact absurd rfl hne
      | cons d front =>
        obtain ⟨-, rfl⟩ := List.cons.inj hmiddle
        simp at hbracket
  · exact ⟨middle, rfl⟩

theorem not_marked_nil : ¬ Marked [] := by
  rintro ⟨before, text, after, h, heq⟩
  obtain ⟨tail, rfl, -⟩ := h.exists_cons
  simp at heq

theorem Marked.cons (c : Char) (h : Marked cs) : Marked (c :: cs) := by
  obtain ⟨before, text, after, hmark, rfl⟩ := h
  exact ⟨c :: before, text, after, hmark, rfl⟩

/-- A mark stands at the beginning of a text or behind it. -/
theorem marked_cons_iff {c : Char} :
    Marked (c :: cs) ↔ (∃ text after, IsMark text ∧ c :: cs = text ++ after) ∨ Marked cs := by
  constructor
  · rintro ⟨before, text, after, hmark, heq⟩
    cases before with
    | nil => exact .inl ⟨text, after, hmark, heq⟩
    | cons d before => exact .inr ⟨before, text, after, hmark, (List.cons.inj heq).2⟩
  · rintro (⟨text, after, hmark, heq⟩ | h)
    · exact ⟨[], text, after, hmark, heq⟩
    · exact h.cons c

/-- No mark begins with another character than a bracket. -/
theorem marked_cons_of_ne {c : Char} (hc : c ≠ '(') : Marked (c :: cs) ↔ Marked cs := by
  rw [marked_cons_iff]
  refine ⟨fun h => h.resolve_left ?_, .inr⟩
  rintro ⟨text, after, hmark, heq⟩
  obtain ⟨tail, rfl, -⟩ := hmark.exists_cons
  exact hc (List.cons.inj heq).1

/-! ## The diagnostic of a line -/

/-- No file is found where no mark stands behind the first character. -/
theorem located?_eq_none_iff {name : List Char} :
    located? name cs = none ↔ ¬ Marked cs.tail := by
  induction cs generalizing name with
  | nil => simp [located?, not_marked_nil]
  | cons c cs ih =>
    cases hposition : position? cs with
    | some p =>
      obtain ⟨text, message, hmark, rfl⟩ := exists_mark_of_position? hposition
      have hmarked : Marked (text ++ message) := ⟨[], text, message, hmark, rfl⟩
      simp [located?, hposition, hmarked]
    | none =>
      simp only [located?, hposition, List.tail_cons]
      rw [ih]
      cases cs with
      | nil => simp
      | cons d cs =>
        rw [marked_cons_iff, List.tail_cons, not_or, iff_and_self]
        rintro - ⟨text, after, ⟨line, column, code, hline, hcolumn, hcode, rfl⟩, heq⟩
        rw [heq, position?_mark_append hline hcolumn hcode] at hposition
        cases hposition

/-- A file without a mark behind its first character is found in front of a mark. -/
theorem located?_append {file text after : List Char} {p : Nat × Nat × Nat × String}
    (hfile : file ≠ []) (hplain : ¬ Marked file.tail) (hmark : IsMark text)
    (hposition : position? (text ++ after) = some p) (name : List Char) :
    located? name (file ++ (text ++ after)) = some (.ofList (name ++ file), p) := by
  induction file generalizing name with
  | nil => exact absurd rfl hfile
  | cons c file ih =>
    cases file with
    | nil => simp [located?, hposition]
    | cons d file =>
      have hnone : position? (d :: file ++ (text ++ after)) = none := by
        rw [← Option.not_isSome_iff_eq_none, Option.isSome_iff_exists]
        rintro ⟨q, hq⟩
        obtain ⟨found, message, hfound, heq⟩ := exists_mark_of_position? hq
        obtain ⟨tail, rfl, -⟩ := hmark.exists_cons
        obtain ⟨more, hmore⟩ := hfound.prefix_of_append (by simp) heq
        exact hplain ⟨[], found, more, hfound, hmore.symm⟩
      have hrest := ih (by simp) (fun h => hplain (h.cons d)) (name ++ [c])
      rw [List.append_assoc] at hrest
      have hstep : located? name (c :: (d :: file ++ (text ++ after))) =
          located? (name ++ [c]) (d :: file ++ (text ++ after)) := by
        rw [located?, hnone]
      rw [List.cons_append, hstep, hrest]
      rfl

/-- The diagnostics that a line may show are found, and nothing else is. -/
theorem diagnostic?_eq_none_iff {base : String} :
    diagnostic? base cs = none ↔ ¬ IsReport cs := by
  have hproblem : problem? cs = none ↔ ¬ IsProblem cs := by
    rw [← Option.not_isSome_iff_eq_none, Option.isSome_iff_exists, not_iff_not]
    constructor
    · rintro ⟨⟨code, message⟩, h⟩
      obtain ⟨digits, hdigits, -, heq⟩ := problem?_eq_some_iff.1 h
      exact ⟨digits, message.toList, hdigits, heq⟩
    · rintro ⟨digits, message, hdigits, heq⟩
      exact ⟨(digitsValue digits, .ofList message),
        problem?_eq_some_iff.2 ⟨digits, hdigits, rfl, by rw [String.toList_ofList, heq]⟩⟩
  unfold diagnostic?
  have hlocated : located? [] cs = none ↔ ¬ Marked cs.tail := located?_eq_none_iff
  rw [IsReport, not_or, ← hproblem, ← hlocated]
  cases located? [] cs with
  | some found => simp
  | none => simp

instance (line : List Char) : Decidable (IsReport line) :=
  decidable_of_iff (¬ diagnostic? "" line = none) (by rw [diagnostic?_eq_none_iff, not_not])

instance (cs : List Char) : Decidable (Marked cs) :=
  decidable_of_iff (¬ located? [] ('(' :: cs) = none) (by rw [located?_eq_none_iff, not_not,
    List.tail_cons])

/-- The diagnostic of a file is read from its line, if no mark stands in the name of the file. -/
theorem diagnostic?_located {base : String} {file line column code message : List Char}
    (hfile : file ≠ []) (hplain : ¬ Marked file.tail) (hline : IsNumber line)
    (hcolumn : IsNumber column) (hcode : IsNumber code) :
    diagnostic? base (file ++ (mark line column code ++ message)) = some {
      fileName := Path.normalize (Path.join base (.ofList file))
      line := digitsValue line
      column := digitsValue column
      code := digitsValue code
      message := .ofList message
      category := (Category.ofCode (digitsValue code)).name } := by
  have hlocated := located?_append hfile hplain ⟨line, column, code, hline, hcolumn, hcode, rfl⟩
    (position?_mark_append hline hcolumn hcode message) []
  simp only [diagnostic?, hlocated, List.nil_append]

/-- The diagnostic of no file is read from its line, if no mark stands in it. -/
theorem diagnostic?_problem {base : String} {code message : List Char} (hcode : IsNumber code)
    (hplain : ¬ Marked (problemText code message).tail) :
    diagnostic? base (problemText code message) = some {
      fileName := ""
      line := 0
      column := 0
      code := digitsValue code
      message := .ofList message
      category := (Category.ofCode (digitsValue code)).name } := by
  have hlocated : located? [] (problemText code message) = none := located?_eq_none_iff.2 hplain
  have hproblem : problem? (problemText code message) =
      some (digitsValue code, .ofList message) :=
    problem?_eq_some_iff.2 ⟨code, hcode, rfl, by rw [String.toList_ofList]⟩
  simp only [diagnostic?, hlocated, hproblem, Option.map_some]

/-- How far a line is indented does not matter for whether it shows a diagnostic. -/
theorem isReport_indented_iff (n : Nat) :
    IsReport (List.replicate (n + 1) ' ' ++ cs) ↔ IsReport (' ' :: cs) := by
  have hproblem (ds : List Char) : ¬ IsProblem (' ' :: ds) := by
    rintro ⟨code, message, -, heq⟩
    simp [problemText, problemStart_eq] at heq
  have hmarked : Marked (List.replicate n ' ' ++ cs) ↔ Marked cs := by
    induction n with
    | zero => rfl
    | succ n ih => rw [List.replicate_succ, List.cons_append, marked_cons_of_ne (by decide), ih]
  rw [List.replicate_succ, List.cons_append, IsReport, IsReport, List.tail_cons, List.tail_cons,
    hmarked]
  simp [hproblem]

end DeclBundle.Listing
