import DeclBundle.Declaration.Syntax
import DeclBundle.Json.Parser
import DeclBundle.Proofs.Format.Indent
set_option autoImplicit false

/-!
# Reading string literals

How the declaration language reads a string literal: character by character, with a mode that says
what an escape still waits for.  A literal stands for UTF-16 code units, so that an escape may stand
for half of a character.

A text between quotes stands for itself just if it holds no quote, no backslash and no line break,
whatever comes behind it (`readsAs_iff_isPlain`).  An escape stands for less than is written, a line
break needs a backslash that then stands for nothing, and a literal that reaches over a quote stands
for more quotes than the text has.
-/

namespace DeclBundle.StringLiteral

open Format

/-! ## Code units -/

/-- The UTF-16 code units of a code point. -/
def unitsOfPoint (n : Nat) : List Nat :=
  if n < 0x10000 then [n] else [0xD800 + (n - 0x10000) / 0x400, 0xDC00 + (n - 0x10000) % 0x400]

/-- The UTF-16 code units of a text. -/
def units (cs : List Char) : List Nat :=
  cs.flatMap fun c => unitsOfPoint c.toNat

@[simp] theorem units_nil : units [] = [] := rfl

@[simp] theorem units_cons (c : Char) (cs : List Char) :
    units (c :: cs) = unitsOfPoint c.toNat ++ units cs := rfl

@[simp] theorem units_append (cs ds : List Char) : units (cs ++ ds) = units cs ++ units ds :=
  List.flatMap_append

theorem length_unitsOfPoint (n : Nat) :
    1 ≤ (unitsOfPoint n).length ∧ (unitsOfPoint n).length ≤ 2 := by
  unfold unitsOfPoint
  split <;> simp

/-- A code unit that is no surrogate is the character that it belongs to. -/
theorem mem_unitsOfPoint {n u : Nat} (h : u ∈ unitsOfPoint n) (hu : u < 0xD800) : n = u := by
  unfold unitsOfPoint at h
  split at h
  · exact (List.mem_singleton.1 h).symm
  · simp only [List.mem_cons, List.not_mem_nil, or_false] at h
    omega

theorem count_unitsOfPoint (n : Nat) : (unitsOfPoint n).count 92 ≤ 1 := by
  unfold unitsOfPoint
  split
  · exact List.count_le_length
  · rw [List.count_eq_zero_of_not_mem]
    · exact Nat.zero_le _
    · simp only [List.mem_cons, List.not_mem_nil, or_false]
      omega

/-- A character below the surrogates occurs as often among the units as in the text. -/
theorem count_unitsOfPoint_char {d : Char} (hd : d.toNat < 0xD800) (c : Char) :
    (unitsOfPoint c.toNat).count d.toNat = [c].count d := by
  by_cases hc : c = d
  · subst hc
    rw [unitsOfPoint, if_pos (by omega), List.count_singleton_self, List.count_singleton_self]
  · rw [List.count_eq_zero_of_not_mem, List.count_eq_zero_of_not_mem]
    · simpa using Ne.symm hc
    · exact fun hmem => hc (Char.toNat_inj.1 (mem_unitsOfPoint hmem hd))

theorem count_units {d : Char} (hd : d.toNat < 0xD800) (cs : List Char) :
    (units cs).count d.toNat = cs.count d := by
  induction cs with
  | nil => rfl
  | cons c cs ih =>
    rw [units_cons, List.count_append, count_unitsOfPoint_char hd, ih, ← List.count_append]
    rfl

/-- The units of a character tell it apart from others, whatever comes behind them. -/
theorem unitsOfPoint_append_inj {c d : Char} {us vs : List Nat}
    (h : unitsOfPoint c.toNat ++ us = unitsOfPoint d.toNat ++ vs) : c = d ∧ us = vs := by
  have hvalid : ∀ c : Char, c.toNat < 0xD800 ∨ 0xDFFF < c.toNat ∧ c.toNat < 0x110000 :=
    fun c => c.valid
  have hc := hvalid c
  have hd := hvalid d
  have hpoint : c.toNat = d.toNat ∧ us = vs := by
    unfold unitsOfPoint at h
    split at h <;> split at h <;>
      simp only [List.cons_append, List.nil_append, List.cons.injEq] at h
    · exact h
    · omega
    · omega
    · exact ⟨by omega, h.2.2⟩
  exact ⟨Char.toNat_inj.1 hpoint.1, hpoint.2⟩

/-- Texts with the same code units are the same. -/
theorem units_injective {cs ds : List Char} (h : units cs = units ds) : cs = ds := by
  have hne : ∀ n us, unitsOfPoint n ++ us ≠ [] := by
    intro n us hnil
    have hlength := (length_unitsOfPoint n).1
    rw [(List.append_eq_nil_iff.1 hnil).1] at hlength
    simp at hlength
  induction cs generalizing ds with
  | nil =>
    cases ds with
    | nil => rfl
    | cons d ds => exact absurd h.symm (hne _ _)
  | cons c cs ih =>
    cases ds with
    | nil => exact absurd h (hne _ _)
    | cons d ds =>
      obtain ⟨rfl, hrest⟩ := unitsOfPoint_append_inj h
      rw [ih hrest]

/-! ## Reading -/

/-- What an escape still waits for. -/
inductive Mode where
  /-- there is no escape -/
  | plain
  /-- a backslash has been read -/
  | escape
  /-- a backslash and `u` have been read -/
  | unit
  /-- more hexadecimal digits have to come, behind some that have been read -/
  | digits (more : Nat) (value : Nat)
  /-- digits have been read behind a brace, if any have -/
  | braced (value : Option Nat)
  /-- the null character has been read, which no digit may follow -/
  | null
  /-- a carriage return has been passed over, and a line feed behind it is as well -/
  | carriage
  deriving DecidableEq, Repr

/-- Whether a character stands by itself, so that a quote ends the literal. -/
def Mode.isOpen : Mode → Bool
  | .plain | .null | .carriage => true
  | _ => false

/-- What an escape of a single character stands for, unless the character begins a longer one. -/
def control? : Char → Option Nat
  | 'b' => some 8
  | 't' => some 9
  | 'n' => some 10
  | 'v' => some 11
  | 'f' => some 12
  | 'r' => some 13
  | _ => none

/-- Whether a character stands for itself in every literal between single quotes. -/
def isPlain (c : Char) : Bool :=
  c ≠ '\'' && c ≠ '\\' && !isLineBreak c

/-- Whether every character of a text stands for itself. -/
def IsPlain (cs : List Char) : Prop :=
  ∀ c ∈ cs, isPlain c = true

instance : DecidablePred IsPlain :=
  fun cs => decidable_of_iff (cs.all isPlain = true) List.all_eq_true

theorem isPlain_iff {c : Char} :
    isPlain c = true ↔ c ≠ '\'' ∧ c ≠ '\\' ∧ isLineBreak c = false := by
  simp [isPlain, and_assoc]

/-- What a character stands for where no escape waits for it, and how to go on. -/
def plainStep (c : Char) : Option (List Nat × Mode) :=
  if c = '\\' then some ([], .escape)
  else if isLineBreak c then none
  else some (unitsOfPoint c.toNat, .plain)

/-- What the character behind a backslash stands for, and how to go on.  Other line ends than those of
a literal are passed over as well; a digit other than zero is no escape. -/
def escapeStep (c : Char) : Option (List Nat × Mode) :=
  if c = 'x' then some ([], .digits 1 0)
  else if c = 'u' then some ([], .unit)
  else if c = '0' then some ([0], .null)
  else if c.isDigit then none
  else if c = '\r' then some ([], .carriage)
  else if c = '\n' || c = '\u2028' || c = '\u2029' then some ([], .plain)
  else
    match control? c with
    | some u => some ([u], .plain)
    | none => some (unitsOfPoint c.toNat, .plain)

/-- What a character stands for, and how to go on; nothing if it must not stand there. -/
def step : Mode → Char → Option (List Nat × Mode)
  | .plain, c => plainStep c
  | .null, c => if c.isDigit then none else plainStep c
  | .carriage, c => if c = '\n' then some ([], .plain) else plainStep c
  | .escape, c => escapeStep c
  | .unit, c =>
    if c = '{' then some ([], .braced none)
    else (Json.hexDigit? c).map fun d => ([], .digits 2 d)
  | .digits more value, c =>
    match Json.hexDigit? c, more with
    | none, _ => none
    | some d, 0 => some ([16 * value + d], .plain)
    | some d, more + 1 => some ([], .digits more (16 * value + d))
  | .braced value, c =>
    if c = '}' then value.map fun n => (unitsOfPoint n, .plain)
    else
      match Json.hexDigit? c with
      | none => none
      | some d =>
        let n := 16 * value.getD 0 + d
        if n < 0x110000 then some ([], .braced (some n)) else none

/-- What a text stands for in a literal with the given mark, and the mode behind it; nothing if the
literal ends before or the text cannot stand there. -/
def scan (mark : Char) : Mode → List Char → Option (List Nat × Mode)
  | m, [] => some ([], m)
  | m, c :: cs =>
    if m.isOpen && c = mark then none
    else
      match step m c with
      | none => none
      | some (u, m) => (scan mark m cs).map fun (v, last) => (u ++ v, last)

/-- What a literal stands for of which a text is the part behind its mark, and what follows it. -/
def read (mark : Char) : Mode → List Char → Option (List Nat × List Char)
  | _, [] => none
  | m, c :: cs =>
    if m.isOpen && c = mark then some ([], cs)
    else
      match step m c with
      | none => none
      | some (u, m) => (read mark m cs).map fun (v, rest) => (u ++ v, rest)

/-- What the literal stands for that a text begins with, and what follows it. -/
def literal? : List Char → Option (List Nat × List Char)
  | [] => none
  | c :: cs => if c = '\'' || c = '"' then read c .plain cs else none

/-- Whether a text begins with a literal that stands for a given text. -/
def ReadsAs (cs : List Char) (s : String) : Prop :=
  (literal? cs).map (·.1) = some (units s.toList)

example : literal? "'it\\'s \\x41\\u{1F600}' there".toList =
    some (units "it's A😀".toList, " there".toList) := by
  decide +kernel

/-! ## What a step does -/

variable {mark c : Char} {m last : Mode} {u v : List Nat} {cs ds : List Char}

/-- How many code units more than it is written with an escape may stand for from here on. -/
def Mode.slack : Mode → Nat
  | .braced _ => 1
  | _ => 0

/-- What reading a character can do. -/
inductive Steps : Mode → Char → List Nat → Mode → Prop where
  | escape {m : Mode} (hm : m.isOpen = true) : Steps m '\\' [] .escape
  | char {m : Mode} {c : Char} (hm : m.isOpen = true) (hc : c ≠ '\\')
      (hbreak : isLineBreak c = false) : Steps m c (unitsOfPoint c.toNat) .plain
  /-- the second half of a line end -/
  | feed : Steps .carriage '\n' [] .plain
  /-- a line end behind a backslash -/
  | lineEnd {c : Char} {m : Mode} (hbreak : isLineBreak c = true) (hm : m.isOpen = true) :
      Steps .escape c [] m
  /-- another line end behind a backslash -/
  | separator {c : Char} (hc : isPlain c = true) : Steps .escape c [] .plain
  | control {c : Char} {u : Nat} {m : Mode} (hc : isPlain c = true) (hu : u ≤ 13)
      (hm : m.isOpen = true) (hne : m ≠ .carriage) : Steps .escape c [u] m
  | itself {c : Char} (hbreak : isLineBreak c = false) :
      Steps .escape c (unitsOfPoint c.toNat) .plain
  /-- more of an escape that stands for a number -/
  | longer {m m' : Mode} {c : Char} (hm : m.isOpen = false) (hc : isPlain c = true)
      (hm' : m'.isOpen = false) : Steps m c [] m'
  /-- the end of such an escape -/
  | code {m : Mode} {c : Char} {u : List Nat} (hm : m.isOpen = false) (hc : isPlain c = true)
      (hlength : u.length ≤ m.slack + 1) (hcount : u.count 92 ≤ 1) : Steps m c u .plain

theorem isPlain_of_hexDigit {d : Nat} (h : Json.hexDigit? c = some d) : isPlain c = true := by
  cases hplain : isPlain c with
  | true => rfl
  | false =>
    have hc : c = '\'' ∨ c = '\\' ∨ c = '\n' ∨ c = '\r' := by grind [isPlain, isLineBreak]
    rcases hc with rfl | rfl | rfl | rfl <;> cases h

theorem steps_of_plainStep (hm : m.isOpen = true) (h : plainStep c = some (u, last)) :
    Steps m c u last := by
  unfold plainStep at h
  split at h
  · rename_i hc
    subst hc
    cases h
    exact .escape hm
  · rename_i hc
    split at h
    · cases h
    · rename_i hbreak
      cases h
      exact .char hm hc (by simpa using hbreak)

theorem steps_of_escapeStep (h : escapeStep c = some (u, last)) : Steps .escape c u last := by
  unfold escapeStep at h
  split at h
  · rename_i hc
    subst hc
    cases h
    exact .longer rfl (by decide) rfl
  split at h
  · rename_i hc
    subst hc
    cases h
    exact .longer rfl (by decide) rfl
  split at h
  · rename_i hc
    subst hc
    cases h
    exact .control (by decide) (by decide) rfl (by decide)
  split at h
  · cases h
  split at h
  · rename_i hc
    subst hc
    cases h
    exact .lineEnd (by decide) rfl
  rename_i hreturn
  split at h
  · rename_i hc
    cases h
    have hc' : c = '\n' ∨ c = '\u2028' ∨ c = '\u2029' := by simpa [or_assoc] using hc
    rcases hc' with rfl | rfl | rfl
    · exact .lineEnd (by decide) rfl
    · exact .separator (by decide)
    · exact .separator (by decide)
  · rename_i hfeed
    split at h
    · rename_i control hcontrol
      cases h
      unfold control? at hcontrol
      split at hcontrol <;> cases hcontrol <;>
        exact .control (by decide) (by decide) rfl (by decide)
    · cases h
      refine .itself ?_
      simp only [Bool.or_eq_true, decide_eq_true_eq, not_or] at hfeed
      simp [isLineBreak, hreturn, hfeed]

/-- Reading a character does one of these things. -/
theorem steps_of_step (h : step m c = some (u, last)) : Steps m c u last := by
  cases m with
  | plain => exact steps_of_plainStep rfl h
  | null =>
    simp only [step] at h
    split at h
    · cases h
    · exact steps_of_plainStep rfl h
  | carriage =>
    simp only [step] at h
    split at h
    · rename_i hc
      subst hc
      cases h
      exact .feed
    · exact steps_of_plainStep rfl h
  | escape => exact steps_of_escapeStep h
  | unit =>
    simp only [step] at h
    split at h
    · rename_i hc
      subst hc
      cases h
      exact .longer rfl (by decide) rfl
    · obtain ⟨d, hd, hlast⟩ := Option.map_eq_some_iff.1 h
      cases hlast
      exact .longer rfl (isPlain_of_hexDigit hd) rfl
  | digits more value =>
    simp only [step] at h
    split at h
    · cases h
    · rename_i hd
      cases h
      exact .code rfl (isPlain_of_hexDigit hd) (by simp) List.count_le_length
    · rename_i hd
      cases h
      exact .longer rfl (isPlain_of_hexDigit hd) rfl
  | braced value =>
    simp only [step] at h
    split at h
    · rename_i hc
      subst hc
      obtain ⟨n, hn, hlast⟩ := Option.map_eq_some_iff.1 h
      cases hlast
      exact .code rfl (by decide) (length_unitsOfPoint n).2 (count_unitsOfPoint n)
    · split at h
      · cases h
      · rename_i hd
        split at h
        · cases h
          exact .longer rfl (isPlain_of_hexDigit hd) rfl
        · cases h

/-- How many backslashes more than it is written with an escape may stand for from here on. -/
def Mode.owed (m : Mode) : Nat :=
  (!m.isOpen).toNat

theorem Mode.slack_of_isOpen (hm : m.isOpen = true) : m.slack = 0 := by
  cases m <;> first | rfl | cases hm

theorem Mode.slack_le_one (m : Mode) : m.slack ≤ 1 := by
  cases m <;> simp [Mode.slack]

theorem Mode.owed_of_isOpen (hm : m.isOpen = true) : m.owed = 0 := by
  simp [Mode.owed, hm]

theorem Mode.owed_of_not_isOpen (hm : m.isOpen = false) : m.owed = 1 := by
  simp [Mode.owed, hm]

/-- No step stands for more code units than the character has, but for what an escape saves. -/
theorem Steps.length_le (h : Steps m c u last) :
    u.length + last.slack ≤ (unitsOfPoint c.toNat).length + m.slack := by
  have hone : 1 ≤ (unitsOfPoint c.toNat).length := (length_unitsOfPoint c.toNat).1
  have hlast : last.slack ≤ 1 := last.slack_le_one
  have hplain : Mode.plain.slack = 0 := rfl
  cases h with
  | escape hm => exact Nat.zero_le _
  | char hm hc hbreak => exact Nat.le_add_right _ _
  | feed => exact Nat.zero_le _
  | lineEnd hbreak hm => simp [Mode.slack_of_isOpen hm]
  | separator hc => exact Nat.zero_le _
  | control hc hu hm hne =>
    rw [Mode.slack_of_isOpen hm]
    exact Nat.le_add_right_of_le hone
  | itself hbreak => exact Nat.le_refl _
  | longer hm hc hm' =>
    rw [List.length_nil]
    omega
  | code hm hc hlength hcount => omega

/-- A quote stands for itself wherever it may stand. -/
theorem Steps.eq_of_quote (h : Steps m c u last) (hc : c = '\'') : u = [39] := by
  have hplain : isPlain c = false := by
    rw [hc]
    rfl
  cases h with
  | char | itself => rw [hc]; rfl
  | escape | feed => cases hc
  | lineEnd hbreak =>
    rw [hc] at hbreak
    cases hbreak
  | separator h | control h | longer _ h | code _ h =>
    rw [hplain] at h
    cases h

/-- A step stands for a backslash only if it reads one or ends an escape. -/
theorem Steps.count_le (h : Steps m c u last) :
    u.count 92 + last.owed ≤ [c].count '\\' + m.owed := by
  have hopen : Mode.plain.owed = 0 := rfl
  have hself : (unitsOfPoint c.toNat).count 92 = [c].count '\\' :=
    count_unitsOfPoint_char (d := '\\') (by decide) c
  cases h with
  | escape hm =>
    rw [Mode.owed_of_isOpen hm]
    decide
  | char hm hc hbreak =>
    rw [hself, hopen]
    exact Nat.le_add_right _ _
  | feed => decide
  | lineEnd hbreak hm =>
    rw [Mode.owed_of_isOpen hm]
    exact Nat.zero_le _
  | separator hc => exact Nat.zero_le _
  | control hc hu hm hne =>
    rw [Mode.owed_of_isOpen hm, List.count_eq_zero_of_not_mem (by simp; omega)]
    exact Nat.zero_le _
  | itself hbreak =>
    rw [hself, hopen]
    exact Nat.le_add_right _ _
  | longer hm hc hm' =>
    rw [Mode.owed_of_not_isOpen hm, Mode.owed_of_not_isOpen hm']
    exact Nat.le_add_left _ _
  | code hm hc hlength hcount =>
    rw [Mode.owed_of_not_isOpen hm, hopen]
    exact Nat.le_add_left_of_le hcount

/-- A line end can only be read behind a backslash, and stands for nothing. -/
theorem Steps.of_isLineBreak (h : Steps m c u last) (hc : isLineBreak c = true)
    (hm : m ≠ .carriage) : u = [] ∧ m.isOpen = false ∧ last.isOpen = true := by
  cases h with
  | lineEnd hbreak hm => exact ⟨rfl, rfl, hm⟩
  | feed => exact absurd rfl hm
  | escape => cases hc
  | char _ _ hbreak | itself hbreak =>
    rw [hc] at hbreak
    cases hbreak
  | separator h | control h | longer _ h | code _ h =>
    rw [(isPlain_iff.1 h).2.2] at hc
    cases hc

theorem Steps.ne_carriage (h : Steps m c u last) (hc : isLineBreak c = false) :
    last ≠ .carriage := by
  rintro rfl
  cases h with
  | lineEnd hbreak =>
    rw [hc] at hbreak
    cases hbreak
  | control hc hu hm hne => exact hne rfl
  | longer hm hc hm' => cases hm'

/-- Where there is no escape, none begins but with a backslash. -/
theorem Steps.of_isOpen (h : Steps m c u last) (hm : m.isOpen = true) (hc : c ≠ '\\') :
    last = .plain ∧ (m = .plain → u = unitsOfPoint c.toNat ∧ isLineBreak c = false) := by
  cases h with
  | escape => exact absurd rfl hc
  | char _ _ hbreak => exact ⟨rfl, fun _ => ⟨rfl, hbreak⟩⟩
  | feed => exact ⟨rfl, fun heq => by cases heq⟩
  | lineEnd | separator | control | itself => cases hm
  | longer hm' | code hm' =>
    rw [hm] at hm'
    cases hm'

theorem Steps.of_backslash (h : Steps m '\\' u last) (hm : m.isOpen = true) :
    u = [] ∧ last = .escape := by
  cases h with
  | escape => exact ⟨rfl, rfl⟩
  | char _ hc => exact absurd rfl hc
  | lineEnd | separator | control | itself => cases hm
  | longer hm' | code hm' =>
    rw [hm] at hm'
    cases hm'

/-! ## Reading and scanning -/

/-- A literal that is read is a text that is scanned up to its mark. -/
theorem read_eq_some_iff {rest : List Char} :
    read mark m cs = some (v, rest) ↔
      ∃ inner last, cs = inner ++ mark :: rest ∧ scan mark m inner = some (v, last) ∧
        last.isOpen = true := by
  induction cs generalizing m v with
  | nil => simp [read]
  | cons c cs ih =>
    rw [read]
    split
    · rename_i hends
      obtain ⟨hopen, rfl⟩ : m.isOpen = true ∧ c = mark := by simpa using hends
      constructor
      · intro h
        cases h
        exact ⟨[], m, rfl, rfl, hopen⟩
      · rintro ⟨inner, last, hcs, hscan, -⟩
        cases inner with
        | nil =>
          cases hscan
          rw [(List.cons.inj hcs).2]
        | cons d inner =>
          obtain ⟨rfl, -⟩ := List.cons.inj hcs
          simp [scan, hopen] at hscan
    · rename_i hgoes
      constructor
      · intro h
        split at h
        · cases h
        · rename_i u m₁ hstep
          obtain ⟨⟨v₁, rest₁⟩, hread, hv⟩ := Option.map_eq_some_iff.1 h
          cases hv
          obtain ⟨inner, last, rfl, hscan, hlast⟩ := ih.1 hread
          exact ⟨c :: inner, last, rfl, by simp [scan, hgoes, hstep, hscan], hlast⟩
      · rintro ⟨inner, last, hcs, hscan, hlast⟩
        cases inner with
        | nil =>
          cases hscan
          simp [hlast, (List.cons.inj hcs).1] at hgoes
        | cons d inner =>
          obtain ⟨rfl, rfl⟩ := List.cons.inj hcs
          rw [scan, if_neg hgoes] at hscan
          split at hscan
          · cases hscan
          · rename_i u m₁ hstep
            obtain ⟨⟨v₁, last₁⟩, hscan₁, hv⟩ := Option.map_eq_some_iff.1 hscan
            cases hv
            have hread : read mark m₁ (inner ++ mark :: rest) = some (v₁, rest) :=
              ih.2 ⟨inner, last, rfl, hscan₁, hlast⟩
            simp [hread]

/-- Scanning a text takes a step and scans the rest. -/
theorem scan_cons_eq_some_iff :
    scan mark m (c :: cs) = some (v, last) ↔
      ¬ (m.isOpen = true ∧ c = mark) ∧ ∃ u m₁ v₁, step m c = some (u, m₁) ∧
        scan mark m₁ cs = some (v₁, last) ∧ v = u ++ v₁ := by
  rw [scan]
  split
  · rename_i hends
    simp only [Bool.and_eq_true, decide_eq_true_eq] at hends
    simp [hends]
  · rename_i hgoes
    simp only [Bool.and_eq_true, decide_eq_true_eq] at hgoes
    cases hstep : step m c with
    | none => simp
    | some p =>
      obtain ⟨u, m₁⟩ := p
      simp only [Option.map_eq_some_iff, Prod.exists, Prod.mk.injEq, hgoes, not_false_eq_true,
        true_and, Option.some.injEq]
      constructor
      · rintro ⟨v₁, last₁, hscan, rfl, rfl⟩
        exact ⟨u, m₁, v₁, ⟨rfl, rfl⟩, hscan, rfl⟩
      · rintro ⟨u', m', v₁, ⟨rfl, rfl⟩, hscan, rfl⟩
        exact ⟨v₁, last, hscan, rfl, rfl⟩

/-! ## What a literal stands for -/

/-- A text stands for no more code units than it has, and for fewer if it holds an escape. -/
theorem length_le_of_scan (h : scan mark m cs = some (v, last)) :
    v.length ≤ (units cs).length + m.slack ∧
      (m.isOpen = true → '\\' ∈ cs → v.length < (units cs).length) := by
  induction cs generalizing m v with
  | nil =>
    cases h
    simp
  | cons c cs ih =>
    obtain ⟨-, u, m₁, v₁, hstep, hscan, rfl⟩ := scan_cons_eq_some_iff.1 h
    obtain ⟨hle, hlt⟩ := ih hscan
    have hc := (length_unitsOfPoint c.toNat).1
    rw [units_cons, List.length_append, List.length_append]
    have hstep' : u.length + m₁.slack ≤ (unitsOfPoint c.toNat).length + m.slack :=
      (steps_of_step hstep).length_le
    refine ⟨by omega, fun hm hmem => ?_⟩
    have hslack : m.slack = 0 := Mode.slack_of_isOpen hm
    by_cases hbackslash : c = '\\'
    · subst hbackslash
      obtain ⟨rfl, rfl⟩ := (steps_of_step hstep).of_backslash hm
      have hescape : Mode.escape.slack = 0 := rfl
      rw [List.length_nil]
      omega
    · obtain ⟨rfl, -⟩ := (steps_of_step hstep).of_isOpen hm hbackslash
      have hrest := hlt rfl ((List.mem_cons.1 hmem).resolve_left (Ne.symm hbackslash))
      omega

/-- A text stands for every quote in it. -/
theorem count_quote_le_of_scan (h : scan mark m cs = some (v, last)) :
    cs.count '\'' ≤ v.count 39 := by
  induction cs generalizing m v with
  | nil => exact Nat.zero_le _
  | cons c cs ih =>
    obtain ⟨-, u, m₁, v₁, hstep, hscan, rfl⟩ := scan_cons_eq_some_iff.1 h
    have hrest := ih hscan
    rw [List.count_cons, List.count_append]
    split
    · rename_i hc
      rw [(steps_of_step hstep).eq_of_quote (by simpa using hc), List.count_singleton_self]
      omega
    · omega

/-- A text stands for no more backslashes than it has, and for fewer if it goes over a line end. -/
theorem count_backslash_le_of_scan (h : scan mark m cs = some (v, last)) :
    v.count 92 ≤ cs.count '\\' + m.owed ∧
      (m ≠ .carriage → (∃ c ∈ cs, isLineBreak c = true) → v.count 92 < cs.count '\\' + m.owed) := by
  induction cs generalizing m v with
  | nil =>
    cases h
    simp
  | cons c cs ih =>
    obtain ⟨-, u, m₁, v₁, hstep, hscan, rfl⟩ := scan_cons_eq_some_iff.1 h
    obtain ⟨hle, hlt⟩ := ih hscan
    have hstep' : u.count 92 + m₁.owed ≤ [c].count '\\' + m.owed := (steps_of_step hstep).count_le
    rw [List.count_append, ← List.singleton_append, List.count_append]
    refine ⟨by omega, fun hm hmem => ?_⟩
    cases hc : isLineBreak c with
    | true =>
      obtain ⟨rfl, hclosed, hopen⟩ := (steps_of_step hstep).of_isLineBreak hc hm
      rw [Mode.owed_of_isOpen hopen] at hle
      rw [Mode.owed_of_not_isOpen hclosed, List.count_nil]
      omega
    | false =>
      have hrest := hlt ((steps_of_step hstep).ne_carriage hc) (by simpa [hc] using hmem)
      omega

/-- A text without a backslash stands for itself. -/
theorem eq_of_scan (h : scan mark .plain cs = some (v, last)) (hcs : '\\' ∉ cs) :
    v = units cs ∧ last = .plain ∧ ∀ c ∈ cs, c ≠ mark ∧ isLineBreak c = false := by
  induction cs generalizing v with
  | nil =>
    cases h
    simp
  | cons c cs ih =>
    obtain ⟨hmark, u, m₁, v₁, hstep, hscan, rfl⟩ := scan_cons_eq_some_iff.1 h
    obtain ⟨hc, hcs'⟩ : '\\' ≠ c ∧ '\\' ∉ cs := by simpa using hcs
    obtain ⟨rfl, hu⟩ := (steps_of_step hstep).of_isOpen rfl (Ne.symm hc)
    obtain ⟨rfl, hbreak⟩ := hu rfl
    obtain ⟨rfl, rfl, hrest⟩ := ih hscan hcs'
    refine ⟨rfl, rfl, List.forall_mem_cons.2 ⟨⟨?_, hbreak⟩, hrest⟩⟩
    exact fun heq => hmark ⟨rfl, heq⟩

/-- Plain characters stand for themselves. -/
theorem scan_of_isPlain (h : IsPlain cs) : scan '\'' .plain cs = some (units cs, .plain) := by
  induction cs with
  | nil => rfl
  | cons c cs ih =>
    obtain ⟨hc, hcs⟩ := List.forall_mem_cons.1 h
    obtain ⟨hquote, hbackslash, hbreak⟩ := isPlain_iff.1 hc
    refine scan_cons_eq_some_iff.2 ⟨fun hends => hquote hends.2, unitsOfPoint c.toNat, .plain,
      units cs, ?_, ih hcs, rfl⟩
    simp [step, plainStep, hbackslash, hbreak]

/-! ## Quoted texts -/

variable {indent : List Char}

/-- A text of which the indented form is read as the text itself is plain. -/
theorem isPlain_of_read {text value rest : List Char} (hindent : '\\' ∉ indent)
    (h : Indents indent value text)
    (hread : (read '\'' .plain (text ++ '\'' :: rest)).map (·.1) = some (units value)) :
    IsPlain value := by
  obtain ⟨⟨v, rest'⟩, hread, rfl⟩ := Option.map_eq_some_iff.1 hread
  obtain ⟨inner, last, hsplit, hscan, -⟩ := read_eq_some_iff.1 hread
  have hquotes : inner.count '\'' ≤ value.count '\'' := by
    have hcount : (units value).count 39 = value.count '\'' :=
      count_units (d := '\'') (by decide) value
    rw [← hcount]
    exact count_quote_le_of_scan hscan
  -- the literal does not reach over the quote behind the text
  have hprefix : inner <+: text := by
    rcases List.append_eq_append_iff.1 hsplit with ⟨more, rfl, hmore⟩ | ⟨more, rfl, -⟩
    · cases more with
      | nil => simp
      | cons c more =>
        obtain ⟨rfl, -⟩ := List.cons.inj hmore
        have htext : value.count '\'' ≤ text.count '\'' := h.sublist.count_le _
        rw [List.count_append, List.count_cons_self] at hquotes
        omega
    · exact List.prefix_append _ _
  have hbackslashes : value.count '\\' ≤ inner.count '\\' ∧
      ((∃ c ∈ inner, isLineBreak c = true) → value.count '\\' < inner.count '\\') := by
    have hcount : (units value).count 92 = value.count '\\' :=
      count_units (d := '\\') (by decide) value
    rw [← hcount]
    exact ⟨(count_backslash_le_of_scan hscan).1, (count_backslash_le_of_scan hscan).2 (by decide)⟩
  have hline : ∀ c ∈ inner, isLineBreak c = false := by
    intro c hc
    cases hbreak : isLineBreak c with
    | false => rfl
    | true =>
      have hlt := hbackslashes.2 ⟨c, hc, hbreak⟩
      have hle : inner.count '\\' ≤ text.count '\\' := hprefix.sublist.count_le _
      rw [h.count_eq hindent] at hle
      omega
  have hvalue : inner <+: value := h.prefix_of_prefix hprefix hline
  have hescape : '\\' ∉ inner := by
    intro hmem
    have hlt := (length_le_of_scan hscan).2 rfl hmem
    obtain ⟨more, rfl⟩ := hvalue
    rw [units_append, List.length_append] at hlt
    omega
  obtain ⟨hunits, -, hplain⟩ := eq_of_scan hscan hescape
  obtain rfl : value = inner := units_injective hunits
  intro c hc
  exact isPlain_iff.2 ⟨(hplain c hc).1, fun heq => hescape (heq ▸ hc), (hplain c hc).2⟩

/-- Between single quotes, a text that is indented stands for itself just if every character of it
does, whatever follows. -/
theorem readsAs_iff_isPlain {s : String} {text rest : List Char} (hindent : '\\' ∉ indent)
    (h : Indents indent s.toList text) :
    ReadsAs ('\'' :: (text ++ '\'' :: rest)) s ↔ IsPlain s.toList := by
  constructor
  · exact fun hreads => isPlain_of_read hindent h hreads
  · intro hplain
    have htext : text = s.toList := h.eq_self fun c hc => (isPlain_iff.1 (hplain c hc)).2.2
    have hread : read '\'' .plain (text ++ '\'' :: rest) = some (units s.toList, rest) :=
      read_eq_some_iff.2 ⟨s.toList, .plain, by rw [htext], scan_of_isPlain hplain, rfl⟩
    simp [ReadsAs, literal?, hread]

/-! ## Other texts between quotes -/

/-- Whether a text stands for something between single quotes, as it does unless a quote in it is not
behind a backslash. -/
def IsQuotable (cs : List Char) : Prop :=
  (scan '\'' .plain cs).isSome = true

/-- What a text stands for between other marks, it stands for between single quotes as well; or a quote
in it ends the literal, which then stands for less. -/
theorem scan_or_read_of_scan (h : scan mark m cs = some (v, last)) (ds : List Char) :
    scan '\'' m cs = some (v, last) ∨
      scan '\'' m cs = none ∧
        ∃ v' rest, read '\'' m (cs ++ ds) = some (v', rest) ∧ v'.length < v.length := by
  induction cs generalizing m v with
  | nil => exact .inl h
  | cons c cs ih =>
    obtain ⟨-, u, m₁, v₁, hstep, hscan, rfl⟩ := scan_cons_eq_some_iff.1 h
    by_cases hends : (m.isOpen && decide (c = '\'')) = true
    · have hc : c = '\'' := of_decide_eq_true (Bool.and_eq_true_iff.1 hends).2
      refine .inr ⟨by rw [scan, if_pos hends], [], cs ++ ds, ?_, ?_⟩
      · rw [List.cons_append, read, if_pos hends]
      · simp [(steps_of_step hstep).eq_of_quote hc]
    · rw [List.cons_append, scan, if_neg hends, read, if_neg hends, hstep]
      refine (ih hscan).imp (fun hsame => by simp [hsame]) ?_
      rintro ⟨hnone, v', rest, hread, hlt⟩
      exact ⟨by simp [hnone], u ++ v', rest, by simp [hread], by simpa using hlt⟩

/-- A text that is quoted anew stands for the same just if no quote in it ends the literal. -/
theorem readsAs_iff_isQuotable {s : String} {rest : List Char}
    (h : scan mark .plain cs = some (units s.toList, last)) (hlast : last.isOpen = true) :
    ReadsAs ('\'' :: (cs ++ '\'' :: rest)) s ↔ IsQuotable cs := by
  rcases scan_or_read_of_scan h ('\'' :: rest) with hscan | ⟨hscan, v, rest', hread, hlt⟩
  · have hread : read '\'' .plain (cs ++ '\'' :: rest) = some (units s.toList, rest) :=
      read_eq_some_iff.2 ⟨cs, last, rfl, hscan, hlast⟩
    simp [ReadsAs, IsQuotable, literal?, hread, hscan]
  · have hne : v ≠ units s.toList := by
      rintro rfl
      exact Nat.lt_irrefl _ hlt
    simp [ReadsAs, IsQuotable, literal?, hread, hscan, hne]

/-- What stands between the quotes of a literal, which stands for what the literal does. -/
theorem exists_scan_of_literal {text : String} (h : literal? text.toList = some (v, [])) :
    ∃ mark last, scan mark .plain (Declaration.unquoted text).toList = some (v, last) ∧
      last.isOpen = true ∧ text.toList = mark :: ((Declaration.unquoted text).toList ++ [mark]) := by
  cases htext : text.toList with
  | nil =>
    rw [htext] at h
    cases h
  | cons c cs =>
    rw [htext, literal?] at h
    split at h
    · rename_i hquote
      obtain ⟨inner, last, rfl, hscan, hlast⟩ := read_eq_some_iff.1 h
      have hunquoted : Declaration.unquoted text = .ofList inner := by
        have hmarks : c = '\'' ∨ c = '"' := by simpa using hquote
        simp [Declaration.unquoted, htext, hmarks]
      rw [hunquoted, String.toList_ofList]
      exact ⟨c, last, hscan, hlast, rfl⟩
    · cases h

/-- A literal without a backslash stands for the text between its quotes. -/
theorem unquoted_of_literal {text s : String}
    (h : literal? text.toList = some (units s.toList, [])) (hescape : '\\' ∉ text.toList) :
    Declaration.unquoted text = s := by
  obtain ⟨mark, last, hscan, -, htext⟩ := exists_scan_of_literal h
  have hinner : '\\' ∉ (Declaration.unquoted text).toList := by
    rw [htext] at hescape
    exact fun hmem => hescape (List.mem_cons_of_mem _ (List.mem_append_left _ hmem))
  exact (String.toList_inj.1 (units_injective (eq_of_scan hscan hinner).1)).symm

end DeclBundle.StringLiteral
