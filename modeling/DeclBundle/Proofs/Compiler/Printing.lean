import DeclBundle.Proofs.Compiler.Lines
import DeclBundle.Proofs.Path.Canonical
import Mathlib.Data.List.TakeWhile
set_option autoImplicit false

/-!
# Listings are read as they are printed

What a listing is printed from is a sequence of items, each a file that has been read or a
diagnostic.  A diagnostic takes the lines of its format, of which those behind the first are
indented.  Its first line is read as the diagnostic with the first line of its message
(`diagnostic?_heading`), and each further line goes behind that message
(`foldl_addLine_further`).  So one item adds to a listing what it was printed from
(`foldl_addLine_item`), and the items of a listing come back in their order (`parse_printed`).
-/

namespace DeclBundle.Listing

open Text

/-! ## Numbers -/

theorem toNat_of_isDigit {c : Char} (h : c.isDigit = true) :
    48 ≤ c.toNat ∧ c.toNat < 48 + 10 := by
  simp only [Char.isDigit, Bool.and_eq_true, decide_eq_true_eq, ge_iff_le] at h
  exact ⟨UInt32.le_iff_toNat_le.mp h.1, Nat.lt_succ_of_le (UInt32.le_iff_toNat_le.mp h.2)⟩

theorem digitValue?_of_isDigit {c : Char} (h : c.isDigit = true) :
    digitValue? c = some (c.toNat - '0'.toNat) := by
  have hc := toNat_of_isDigit h
  rw [digitValue?, digitZeros, List.find?_cons_of_pos (by simpa using hc)]
  rfl

theorem isDigit_of_mem_toDigits {n : Nat} {c : Char} (h : c ∈ Nat.toDigits 10 n) :
    c.isDigit = true :=
  Nat.isDigit_of_mem_toDigits (by decide) (by decide) h

theorem any_isLineEnd_toDigits (n : Nat) : (Nat.toDigits 10 n).any isLineEnd = false := by
  refine List.any_eq_false.2 fun c hc => ?_
  have hdigit := toNat_of_isDigit (isDigit_of_mem_toDigits hc)
  simp only [isLineEnd, Bool.or_eq_true, Bool.and_eq_true, decide_eq_true_eq, beq_iff_eq]
  omega

theorem isNumber_toDigits (n : Nat) : IsNumber (Nat.toDigits 10 n) :=
  ⟨Nat.toDigits_ne_nil, fun c hc => isDigit_of_ascii c (isDigit_of_mem_toDigits hc)⟩

/-- A number that is written with the digits of ASCII is read as it was. -/
theorem digitsValue_toDigits (n : Nat) : digitsValue (Nat.toDigits 10 n) = n := by
  have hfold (cs : List Char) (h : ∀ c ∈ cs, c.isDigit = true) (m : Nat) :
      cs.foldl (fun n c => n * 10 + (digitValue? c).getD 0) m = Nat.ofDigitChars 10 cs m := by
    induction cs generalizing m with
    | nil => rfl
    | cons c cs ih =>
      rw [List.foldl_cons, Nat.ofDigitChars_cons, ih fun d hd => h d (List.mem_cons_of_mem c hd),
        digitValue?_of_isDigit (h c List.mem_cons_self), Option.getD_some, Nat.mul_comm]
  rw [digitsValue, hfold _ fun c hc => isDigit_of_mem_toDigits hc]
  exact Nat.ofDigitChars_toDigits (by decide) (by decide)

theorem toList_toString (n : Nat) : (toString (n : Int)).toList = Nat.toDigits 10 n := by
  have hsame : toString (n : Int) = n.repr := rfl
  rw [hsame, Nat.toList_repr]

/-! ## Lines -/

theorem listingLines_append {line : List Char} (h : line.any isLineEnd = false)
    (rest : List Char) : listingLines (line ++ '\n' :: rest) = line :: listingLines rest := by
  induction line with
  | nil =>
    have hend : isLineEnd '\n' = true := by decide
    simp [listingLines, hend]
  | cons c line ih =>
    obtain ⟨hc, hline⟩ := Bool.or_eq_false_iff.1 (List.any_cons.symm.trans h)
    have hreturn : c ≠ '\r' := by
      rintro rfl
      exact absurd hc (by decide)
    obtain ⟨d, behind, hbehind⟩ : ∃ d behind, line ++ '\n' :: rest = d :: behind :=
      List.exists_cons_of_ne_nil (by simp)
    have hrest := ih hline
    rw [hbehind] at hrest
    rw [List.cons_append, hbehind]
    simp [listingLines, hreturn, hc, hrest]

/-- Lines that each end with a line feed are found again. -/
theorem listingLines_terminated {lines : List (List Char)}
    (h : ∀ line ∈ lines, line.any isLineEnd = false) :
    listingLines (lines.flatMap (· ++ ['\n'])) = lines := by
  induction lines with
  | nil => rfl
  | cons line lines ih =>
    rw [List.flatMap_cons, List.append_assoc, List.singleton_append,
      listingLines_append (h line List.mem_cons_self),
      ih fun l hl => h l (List.mem_cons_of_mem line hl)]

/-- A text in front of another one belongs to its first piece. -/
theorem splitAtChar_append {sep : Char} {cs ds first : List Char} {pieces : List (List Char)}
    (h : sep ∉ cs) (hds : splitAtChar sep ds = first :: pieces) :
    splitAtChar sep (cs ++ ds) = (cs ++ first) :: pieces := by
  induction cs with
  | nil => exact hds
  | cons c cs ih =>
    obtain ⟨hc, hcs⟩ := not_or.1 (List.mem_cons.not.1 h)
    rw [List.cons_append, splitAtChar, if_neg (Ne.symm hc), ih hcs]
    rfl

/-! ## Items -/

/-- What lines of a listing are printed from. -/
inductive Item where
  /-- a file that has been read -/
  | file (path : String)
  /-- a diagnostic, and how much deeper than by one blank the further lines of its message are
  indented -/
  | problem (d : Diagnostic) (depth : Nat → Nat)

/-- The lines with each but the first indented. -/
def indentFurther (depth : Nat → Nat) : List (List Char) → List (List Char)
  | [] => []
  | line :: lines => line :: lines.mapIdx fun i l => List.replicate (depth i + 1) ' ' ++ l

/-- The lines that an item takes. -/
def Item.lines : Item → List (List Char)
  | file path => [path.toList]
  | problem d depth => indentFurther depth (splitAtChar '\n' d.format.toList)

/-- The file that an item is. -/
def Item.file? : Item → Option String
  | file path => some path
  | problem _ _ => none

/-- The diagnostic that an item is. -/
def Item.problem? : Item → Option Diagnostic
  | file _ => none
  | problem d _ => some d

/-- Items as they are printed, each on lines of its own. -/
def printed (items : List Item) : String :=
  .ofList ((items.flatMap Item.lines).flatMap (· ++ ['\n']))

/-- Whether a path is printed on a line that is read as a path. -/
structure IsListed (path : String) : Prop where
  isAbsolute : Path.isAbsolute path = true
  normalize_eq : Path.normalize path = path
  /-- no blanks stand around it -/
  trim_eq : trimBlank path = path
  any_isLineEnd : path.toList.any isLineEnd = false
  not_isReport : ¬ IsReport path.toList

/-- Whether a diagnostic is printed on lines that are read as it. -/
structure IsShown (d : Diagnostic) : Prop where
  category_eq : d.category = (Category.ofCode d.code).name
  line_nonneg : 0 ≤ d.line
  column_nonneg : 0 ≤ d.column
  code_nonneg : 0 ≤ d.code
  /-- it belongs to no file and has no position, or its file is a canonical path -/
  place : d.fileName = "" ∧ d.line = 0 ∧ d.column = 0 ∨
    Path.isAbsolute d.fileName = true ∧ Path.normalize d.fileName = d.fileName
  /-- no mark stands in the name of the file behind its beginning -/
  not_marked_file : ¬ Marked d.fileName.toList.tail
  /-- nor in the first line, if the diagnostic belongs to no file -/
  not_marked_first : d.fileName = "" →
    ∀ line ∈ (splitAtChar '\n' d.format.toList).head?, ¬ Marked line.tail
  any_isLineEnd_file : d.fileName.toList.any isLineEnd = false
  any_isLineEnd_message : ∀ line ∈ splitAtChar '\n' d.message.toList, line.any isLineEnd = false
  /-- the further lines of the message have no blanks around them, are not empty and show no
  diagnostic once they are indented -/
  further : ∀ line ∈ (splitAtChar '\n' d.message.toList).tail,
    line ≠ [] ∧ strip isBlank line = line ∧ ¬ IsReport (' ' :: line)

/-- Whether an item is printed on lines that are read as it. -/
def Item.IsPlain : Item → Prop
  | file path => IsListed path
  | problem d _ => IsShown d

/-! ## One line more -/

variable {base : String} {l : Listing} {d e : Diagnostic} {line : List Char}

/-- A text with a character that is not blank is not stripped away. -/
theorem trimBlank_ne_empty (h : ∃ c ∈ line, isBlank c = false) :
    trimBlank (.ofList line) ≠ "" := by
  obtain ⟨c, hc, hblank⟩ := h
  intro hempty
  have hstrip : strip isBlank line = [] := by
    simpa [trimBlank] using congrArg String.toList hempty
  rw [strip, stripEnd, List.reverse_eq_nil_iff, List.dropWhile_eq_nil_iff] at hstrip
  rw [← List.takeWhile_append_dropWhile (p := isBlank) (l := line), List.mem_append] at hc
  rcases hc with hc | hc
  · rw [List.all_eq_true.1 List.all_takeWhile c hc] at hblank
    cases hblank
  · rw [hstrip c (List.mem_reverse.2 hc)] at hblank
    cases hblank

theorem addLine_diagnostic (hline : ∃ c ∈ line, isBlank c = false)
    (h : diagnostic? base line = some d) :
    addLine base l line = { l with diagnostics := l.diagnostics ++ [d] } := by
  simp only [addLine, trimBlank_ne_empty hline, if_false, h]

theorem addLine_file {path : String} (h : IsListed path) :
    addLine base l path.toList = { l with files := l.files ++ [path] } := by
  obtain ⟨rest, hrest⟩ := Path.isAbsolute_iff.1 h.isAbsolute
  have hslash : isBlank '/' = false := by decide
  have hne : trimBlank (.ofList path.toList) ≠ "" :=
    trimBlank_ne_empty ⟨'/', by simp [hrest], hslash⟩
  have hhead : path.toList.head?.any isBlank = false := by simp [hrest, hslash]
  rw [String.ofList_toList, h.trim_eq] at hne
  simp [addLine, h.trim_eq, hne, diagnostic?_eq_none_iff.2 h.not_isReport, hhead, h.normalize_eq]

theorem continueLast?_append (line : String) (ds : List Diagnostic) (e : Diagnostic) :
    continueLast? line (ds ++ [e]) =
      some (ds ++ [{ e with message := e.message ++ "\n" ++ line }]) := by
  induction ds with
  | nil => rfl
  | cons d ds ih =>
    obtain ⟨e', rest, hrest⟩ : ∃ e' rest, ds ++ [e] = e' :: rest :=
      List.exists_cons_of_ne_nil (by simp)
    rw [List.cons_append, hrest, continueLast?, ← hrest, ih]
    · rfl
    · simp

/-- An indented line goes behind the message of the last diagnostic. -/
theorem addLine_indented {files : List String} {ds : List Diagnostic} (n : Nat) (hne : line ≠ [])
    (hstrip : strip isBlank line = line) (hplain : ¬ IsReport (' ' :: line)) :
    addLine base ⟨files, ds ++ [e]⟩ (List.replicate (n + 1) ' ' ++ line) =
      ⟨files, ds ++ [{ e with message := e.message ++ "\n" ++ .ofList line }]⟩ := by
  have hblank : ∀ c ∈ List.replicate (n + 1) ' ', isBlank c = true := by
    intro c hc
    obtain rfl := List.eq_of_mem_replicate hc
    decide
  have htrim : trimBlank (.ofList (List.replicate (n + 1) ' ' ++ line)) = .ofList line := by
    rw [trimBlank, String.toList_ofList, strip, stripStart, List.dropWhile_append_of_pos hblank]
    exact congrArg String.ofList hstrip
  have hnone : diagnostic? base (List.replicate (n + 1) ' ' ++ line) = none :=
    diagnostic?_eq_none_iff.2 (mt (isReport_indented_iff n).1 hplain)
  have hhead : (List.replicate (n + 1) ' ' ++ line).head?.any isBlank = true := by
    simp [List.replicate_succ, hblank]
  have htext : String.ofList line ≠ "" := fun hempty =>
    hne (by simpa using congrArg String.toList hempty)
  simp only [addLine, htrim, htext, if_false, hnone, hhead, if_true, continueLast?_append]

/-! ## One item more -/

/-- The further lines of a message go behind its first line. -/
theorem foldl_addLine_further {files : List String} {ds : List Diagnostic}
    {lines : List (List Char)} (h : ∀ line ∈ lines,
      line ≠ [] ∧ strip isBlank line = line ∧ ¬ IsReport (' ' :: line)) (depth : Nat → Nat)
    (first : List Char) :
    (lines.mapIdx fun i l => List.replicate (depth i + 1) ' ' ++ l).foldl (addLine base)
        ⟨files, ds ++ [{ e with message := .ofList first }]⟩ =
      ⟨files, ds ++ [{ e with message := .ofList (joinWithChar '\n' (first :: lines)) }]⟩ := by
  induction lines generalizing depth first with
  | nil => rfl
  | cons line lines ih =>
    obtain ⟨hne, hstrip, hplain⟩ := h line List.mem_cons_self
    have hmessage : String.ofList first ++ "\n" ++ .ofList line =
        .ofList (first ++ '\n' :: line) := by
      apply String.toList_inj.1
      simp
    have hjoin : joinWithChar '\n' ((first ++ '\n' :: line) :: lines) =
        joinWithChar '\n' (first :: line :: lines) := by
      cases lines <;> simp [joinWithChar]
    rw [List.mapIdx_cons, List.foldl_cons, addLine_indented _ hne hstrip hplain]
    dsimp only
    rw [hmessage, ih (fun l hl => h l (List.mem_cons_of_mem line hl)), hjoin]

/-- What stands in front of the message of a diagnostic. -/
def heading (d : Diagnostic) : List Char :=
  if d.fileName = "" then problemText (toString d.code).toList []
  else d.fileName.toList ++
    mark (toString d.line).toList (toString d.column).toList (toString d.code).toList

theorem toList_format (d : Diagnostic) : d.format.toList = heading d ++ d.message.toList := by
  unfold Diagnostic.format heading
  dsimp only
  split
  · simp [problemText, problemStart_eq]
  · simp [problemText, problemStart_eq, mark]

theorem exists_not_isBlank_heading (d : Diagnostic) : ∃ c ∈ heading d, isBlank c = false := by
  refine ⟨'e', ?_, by decide⟩
  unfold heading
  split <;> simp [mark, problemText, problemStart_eq]

/-- The numbers of a diagnostic that is shown are natural. -/
theorem IsShown.exists_nat (h : IsShown d) : ∃ line column code : Nat,
    d.line = line ∧ d.column = column ∧ d.code = code :=
  ⟨d.line.toNat, d.column.toNat, d.code.toNat, (Int.toNat_of_nonneg h.line_nonneg).symm,
    (Int.toNat_of_nonneg h.column_nonneg).symm, (Int.toNat_of_nonneg h.code_nonneg).symm⟩

theorem any_isLineEnd_heading (h : IsShown d) : (heading d).any isLineEnd = false := by
  obtain ⟨line, column, code, hline, hcolumn, hcode⟩ := h.exists_nat
  have hproblem : (problemText (toString d.code).toList []).any isLineEnd = false := by
    rw [problemText, hcode, toList_toString, problemStart_eq]
    simp only [List.any_append, Bool.or_eq_false_iff]
    exact ⟨by decide, any_isLineEnd_toDigits code, by decide, by decide⟩
  unfold heading
  split
  · exact hproblem
  · rw [mark, hline, hcolumn, toList_toString, toList_toString]
    simp only [List.any_append, Bool.or_eq_false_iff]
    exact ⟨h.any_isLineEnd_file, by decide, any_isLineEnd_toDigits line, by decide,
      any_isLineEnd_toDigits column, by decide, hproblem⟩

theorem splitAtChar_format (h : IsShown d) {first : List Char} {lines : List (List Char)}
    (hmessage : splitAtChar '\n' d.message.toList = first :: lines) :
    splitAtChar '\n' d.format.toList = (heading d ++ first) :: lines := by
  have hplain : '\n' ∉ heading d := fun hmem =>
    List.any_eq_false.1 (any_isLineEnd_heading h) '\n' hmem (by decide)
  rw [toList_format, splitAtChar_append hplain hmessage]

/-- The first line of a diagnostic is read as the diagnostic with the first line of its message. -/
theorem diagnostic?_heading (base : String) (h : IsShown d) {first : List Char}
    {lines : List (List Char)}
    (hmessage : splitAtChar '\n' d.message.toList = first :: lines) :
    diagnostic? base (heading d ++ first) = some { d with message := .ofList first } := by
  obtain ⟨line, column, code, hline, hcolumn, hcode⟩ := h.exists_nat
  have hcategory := h.category_eq
  rcases h.place with ⟨hfile, hline', hcolumn'⟩ | ⟨habsolute, hnormal⟩
  · have htext : heading d ++ first = problemText (Nat.toDigits 10 code) first := by
      rw [heading, if_pos hfile, hcode, toList_toString]
      simp only [problemText, List.append_assoc, List.append_nil]
    have hplain : ¬ Marked (problemText (Nat.toDigits 10 code) first).tail := by
      have hfirst := h.not_marked_first hfile
      rw [splitAtChar_format h hmessage, htext] at hfirst
      exact hfirst _ rfl
    rw [htext, diagnostic?_problem (isNumber_toDigits code) hplain, digitsValue_toDigits, hfile,
      hline', hcolumn', hcategory, hcode]
  · obtain ⟨rest, hrest⟩ := Path.isAbsolute_iff.1 habsolute
    have hne : d.fileName ≠ "" := by
      intro hempty
      simp [hempty] at hrest
    have hjoin : Path.join base d.fileName = d.fileName := by rw [Path.join, if_pos habsolute]
    have htext : heading d ++ first = d.fileName.toList ++
        (mark (Nat.toDigits 10 line) (Nat.toDigits 10 column) (Nat.toDigits 10 code) ++ first) := by
      rw [heading, if_neg hne, hline, hcolumn, hcode, toList_toString, toList_toString,
        toList_toString, List.append_assoc]
    rw [htext, diagnostic?_located (by simp [hrest]) h.not_marked_file (isNumber_toDigits line)
      (isNumber_toDigits column) (isNumber_toDigits code), String.ofList_toList, hjoin, hnormal,
      digitsValue_toDigits, digitsValue_toDigits, digitsValue_toDigits, hcategory, hline, hcolumn,
      hcode]

/-- The lines of a diagnostic add it to a listing. -/
theorem foldl_addLine_diagnostic (h : IsShown d) (depth : Nat → Nat) :
    (Item.problem d depth).lines.foldl (addLine base) l =
      { l with diagnostics := l.diagnostics ++ [d] } := by
  obtain ⟨first, lines, hmessage⟩ := List.exists_cons_of_ne_nil
    (splitAtChar_ne_nil '\n' d.message.toList)
  obtain ⟨c, hc, hblank⟩ := exists_not_isBlank_heading d
  have hline : ∃ c ∈ heading d ++ first, isBlank c = false :=
    ⟨c, List.mem_append_left first hc, hblank⟩
  have hfurther := h.further
  rw [hmessage, List.tail_cons] at hfurther
  have htext : String.ofList (joinWithChar '\n' (first :: lines)) = d.message := by
    rw [← hmessage, joinWithChar_splitAtChar, String.ofList_toList]
  rw [Item.lines, splitAtChar_format h hmessage, indentFurther, List.foldl_cons,
    addLine_diagnostic hline (diagnostic?_heading base h hmessage),
    foldl_addLine_further hfurther, htext]

/-- The lines of an item add to a listing what it was printed from. -/
theorem foldl_addLine_item {item : Item} (h : item.IsPlain) :
    item.lines.foldl (addLine base) l =
      ⟨l.files ++ item.file?.toList, l.diagnostics ++ item.problem?.toList⟩ := by
  cases item with
  | file path => simpa [Item.lines, Item.file?, Item.problem?] using addLine_file h
  | problem d depth =>
    simpa [Item.file?, Item.problem?] using foldl_addLine_diagnostic h depth

/-- No line ends within the lines of an item. -/
theorem any_isLineEnd_lines {item : Item} (h : item.IsPlain) :
    ∀ line ∈ item.lines, line.any isLineEnd = false := by
  cases item with
  | file path =>
    intro line hline
    obtain rfl := List.mem_singleton.1 hline
    exact h.any_isLineEnd
  | problem d depth =>
    have hshown : IsShown d := h
    obtain ⟨first, lines, hmessage⟩ := List.exists_cons_of_ne_nil
      (splitAtChar_ne_nil '\n' d.message.toList)
    have hpieces := hshown.any_isLineEnd_message
    rw [hmessage] at hpieces
    intro line hline
    rw [Item.lines, splitAtChar_format hshown hmessage, indentFurther, List.mem_cons] at hline
    rcases hline with rfl | hline
    · rw [List.any_append, any_isLineEnd_heading hshown, hpieces first List.mem_cons_self]
      rfl
    · obtain ⟨i, hi, rfl⟩ := List.mem_mapIdx.1 hline
      have hblank : isLineEnd ' ' = false := by decide
      have hpiece := hpieces _ (List.mem_cons_of_mem first (List.getElem_mem hi))
      rw [List.any_append, hpiece, List.any_replicate]
      simp [hblank]

/-! ## All items -/

theorem foldl_addLine_items {items : List Item} (h : ∀ item ∈ items, item.IsPlain) :
    (items.flatMap Item.lines).foldl (addLine base) l =
      ⟨l.files ++ items.filterMap Item.file?, l.diagnostics ++ items.filterMap Item.problem?⟩ := by
  induction items generalizing l with
  | nil => simp
  | cons item items ih =>
    rw [List.flatMap_cons, List.foldl_append, foldl_addLine_item (h item List.mem_cons_self),
      ih fun other hother => h other (List.mem_cons_of_mem item hother)]
    cases item <;> simp [Item.file?, Item.problem?, List.filterMap_cons]

/-- For every base directory and all items that are each printed on lines that are read as they
are, what is read from the printed listing are the files and the diagnostics among the items, each
in their order. -/
theorem parse_printed (base : String) {items : List Item} (h : ∀ item ∈ items, item.IsPlain) :
    parse base (printed items) =
      ⟨items.filterMap Item.file?, items.filterMap Item.problem?⟩ := by
  have hlines : ∀ line ∈ items.flatMap Item.lines, line.any isLineEnd = false := by
    intro line hline
    obtain ⟨item, hitem, hline⟩ := List.mem_flatMap.1 hline
    exact any_isLineEnd_lines (h item hitem) line hline
  rw [parse, printed, String.toList_ofList, listingLines_terminated hlines, foldl_addLine_items h]
  simp

/-- The name of a file looks like a position, and a further line of a message like a problem. -/
theorem parse_printed_brackets :
    let located : Diagnostic := {
      fileName := "/p/a(1,2): .ts", line := 3, column := 14, code := 2322
      message := "No match (5,6): error\nerror TS1: inner\n/p/c.ts" }
    let global : Diagnostic := {
      fileName := "", line := 0, column := 0, code := 5023
      message := "Unknown", category := "emit" }
    let items : List Item :=
      [.file "/p/b.ts", .problem located (fun i => 2 * i + 1), .file "/p/a(1,2): .ts",
        .problem global fun _ => 0]
    (∀ item ∈ items, item.IsPlain) ∧
      printed items = "/p/b.ts\n/p/a(1,2): .ts(3,14): error TS2322: No match (5,6): error\n" ++
        "  error TS1: inner\n    /p/c.ts\n/p/a(1,2): .ts\nerror TS5023: Unknown\n" ∧
      parse "/q" (printed items) = ⟨["/p/b.ts", "/p/a(1,2): .ts"], [located, global]⟩ := by
  intro located global items
  have hfirst : IsListed "/p/b.ts" := by
    constructor <;> decide +kernel
  have hsecond : IsListed "/p/a(1,2): .ts" := by
    constructor <;> decide +kernel
  have hlocated : IsShown located := by
    constructor <;> decide +kernel
  have hglobal : IsShown global := by
    constructor <;> decide +kernel
  have hitems : ∀ item ∈ items, item.IsPlain := by
    simp only [items, List.forall_mem_cons, Item.IsPlain]
    exact ⟨hfirst, hlocated, hsecond, hglobal, by simp⟩
  exact ⟨hitems, by decide +kernel, parse_printed "/q" hitems⟩

end DeclBundle.Listing
