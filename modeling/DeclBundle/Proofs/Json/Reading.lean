import DeclBundle.Proofs.Json.Spelling
set_option autoImplicit false

/-!
# Reading what is spelled

Spellings of JSON itself are read, and their values are found (`parse_spelling`).  A spelling with a
comment, with a comma behind a last part or with another blank is not read.  The reader goes the
same way through arrays and objects, but for the names of the members; `partsAt` is what they have
in common.
-/

namespace DeclBundle.Json

open Data (Value)

/-! ## Outcomes -/

/-- A reader that finds a value and stops behind it under a condition, and reports a fault where the
condition fails. -/
structure Reads {α : Type} (valid : Prop) (outcome : Except Fault (α × Cursor)) (a : α)
    (behind : Cursor) : Prop where
  ok : valid → outcome = .ok (a, behind)
  error : ¬ valid → ∃ fault, outcome = .error fault

namespace Reads

variable {α β : Type} {valid valid' : Prop} {outcome : Except Fault (α × Cursor)} {a : α}
  {behind : Cursor}

theorem of_ok (hvalid : valid) (h : outcome = .ok (a, behind)) : Reads valid outcome a behind :=
  ⟨fun _ => h, fun hnot => absurd hvalid hnot⟩

theorem of_error (hvalid : ¬ valid) (h : ∃ fault, outcome = .error fault) :
    Reads valid outcome a behind :=
  ⟨fun hyes => absurd hyes hvalid, fun _ => h⟩

theorem congr (h : Reads valid outcome a behind) (hiff : valid' ↔ valid) :
    Reads valid' outcome a behind :=
  ⟨fun hvalid => h.ok (hiff.1 hvalid), fun hvalid => h.error fun hyes => hvalid (hiff.2 hyes)⟩

/-- Where it stops matters only where it has found a value. -/
theorem stops (h : Reads valid outcome a behind) {behind' : Cursor}
    (heq : valid → behind = behind') : Reads valid outcome a behind' :=
  ⟨fun hvalid => heq hvalid ▸ h.ok hvalid, h.error⟩

/-- One reader after the other; the second matters only where the first has found a value. -/
theorem bind (h : Reads valid outcome a behind) {f : α × Cursor → Except Fault (β × Cursor)} {b : β}
    {last : Cursor} (hf : valid → Reads valid' (f (a, behind)) b last) :
    Reads (valid ∧ valid') (outcome >>= f) b last := by
  by_cases hvalid : valid
  · rw [h.ok hvalid]
    exact (hf hvalid).congr (and_iff_right hvalid)
  · obtain ⟨fault, hfault⟩ := h.error hvalid
    exact .of_error (fun hyes => hvalid hyes.1) ⟨fault, by rw [hfault]; rfl⟩

theorem map (h : Reads valid outcome a behind) (f : α → β) :
    Reads valid (outcome.map (Prod.map f id)) (f a) behind := by
  refine ⟨fun hvalid => by rw [h.ok hvalid]; rfl, fun hvalid => ?_⟩
  obtain ⟨fault, hfault⟩ := h.error hvalid
  exact ⟨fault, by rw [hfault]; rfl⟩

end Reads

/-! ## Gaps -/

/-- Whether the reader gets over a character neither as a blank nor as a token: other blanks than
those of JSON, and what comments begin with. -/
structure IsStuck (c : Char) : Prop where
  not_isBlank : isBlank c = false
  cases : Text.isBlank c = true ∨ c = '/'

/-- Whether nothing begins with a character that may stand where a value is due. -/
structure BeginsNothing (c : Char) : Prop where
  not_opening : c ∉ ['"', '{', '[', '-']
  not_isWordStart : ¬ IsWordStart c
  not_isDigit : c.isDigit = false

theorem not_isDigit_of_isBlank {c : Char} (h : Text.isBlank c = true) : c.isDigit = false := by
  refine Bool.eq_false_iff.2 fun hdigit => ?_
  rw [not_isBlank_of_isDigit hdigit] at h
  cases h

theorem IsStuck.beginsNothing {c : Char} (h : IsStuck c) : BeginsNothing c := by
  refine ⟨fun hc => ?_, fun hc => ?_, ?_⟩
  · obtain ⟨-, hblank | rfl⟩ := h
    · simp only [List.mem_cons, List.not_mem_nil, or_false] at hc
      rcases hc with rfl | rfl | rfl | rfl <;> exact absurd hblank (by decide)
    · exact absurd hc (by decide)
  · obtain ⟨-, hblank | rfl⟩ := h
    · rcases hc with rfl | rfl | rfl | rfl | rfl <;> exact absurd hblank (by decide)
    · exact absurd hc (by simp [IsWordStart])
  · obtain ⟨-, hblank | rfl⟩ := h
    · exact not_isDigit_of_isBlank hblank
    · rfl

theorem Kind.beginsNothing_closing (kind : Kind) : BeginsNothing kind.closing := by
  cases kind <;> exact ⟨by decide, by simp [IsWordStart, Kind.closing], rfl⟩

/-- No bracket, comma or colon is in the way of the reader. -/
theorem IsStuck.ne {c : Char} (h : IsStuck c) (kind : Kind) :
    c ≠ kind.closing ∧ c ≠ ',' ∧ c ≠ ':' := by
  obtain ⟨-, hblank | rfl⟩ := h
  · refine ⟨?_, ?_, ?_⟩
    · rintro rfl
      cases kind <;> exact absurd hblank (by decide)
    · rintro rfl
      exact absurd hblank (by decide)
    · rintro rfl
      exact absurd hblank (by decide)
  · exact ⟨by cases kind <;> decide, by decide, by decide⟩

theorem skipBlank_cons {c : Char} (h : isBlank c = true) (p : Nat) (cs : List Char) :
    Cursor.skipBlank ⟨p, c :: cs⟩ = Cursor.skipBlank ⟨p + 1, cs⟩ := by
  simp [Cursor.skipBlank, Cursor.advance, h]
  omega

theorem skipBlank_of_not_isBlank {cs : List Char} (h : ∀ c ∈ cs.head?, isBlank c = false)
    (p : Nat) : Cursor.skipBlank ⟨p, cs⟩ = ⟨p, cs⟩ := by
  cases cs with
  | nil => rfl
  | cons c cs => simp [Cursor.skipBlank, Cursor.advance, h c rfl]

/-- The reader gets over a gap of JSON. -/
theorem skipBlank_of_isJson {g : Gap} (h : g.IsJson) {rest : List Char}
    (hrest : ∀ c ∈ rest.head?, isBlank c = false) (p : Nat) :
    Cursor.skipBlank ⟨p, g.text ++ rest⟩ = ⟨p + g.text.length, rest⟩ := by
  induction g generalizing p with
  | nil => exact skipBlank_of_not_isBlank hrest p
  | cons t g ih =>
    have hg : Gap.IsJson g := ⟨fun c hc => h.blanks c (by simp [hc]),
      fun u hu => h.noComment u (by simp [hu])⟩
    cases t with
    | blank c =>
      have hlength : p + (Gap.text (.blank c :: g)).length = p + 1 + (Gap.text g).length := by
        simp [Gap.text, Trivium.text]
        omega
      rw [hlength, ← ih hg]
      exact skipBlank_cons (h.blanks c (by simp)) p _
    | line comment => cases h.noComment (.line comment) (by simp)
    | block comment => cases h.noComment (.block comment) (by simp)

/-- The reader does not get over another gap. -/
theorem skipBlank_of_not_isJson {g : Gap} (h : g.IsProper) (hjson : ¬ g.IsJson) (p : Nat)
    (rest : List Char) :
    ∃ q c cs, Cursor.skipBlank ⟨p, g.text ++ rest⟩ = ⟨q, c :: cs⟩ ∧ IsStuck c := by
  induction g generalizing p with
  | nil => exact absurd ⟨fun c hc => (by cases hc), fun t ht => (by cases ht)⟩ hjson
  | cons t g ih =>
    have hslash : IsStuck '/' := ⟨rfl, .inr rfl⟩
    have hstop : ∀ (c : Char) (cs : List Char), IsStuck c → ∃ q d ds,
        Cursor.skipBlank ⟨p, c :: cs⟩ = ⟨q, d :: ds⟩ ∧ IsStuck d := fun c cs hc =>
      ⟨p, c, cs, skipBlank_of_not_isBlank (by rintro _ ⟨⟩; exact hc.not_isBlank) p, hc⟩
    cases t with
    | blank c =>
      cases hc : isBlank c with
      | false => exact hstop c _ ⟨hc, .inl (h (.blank c) (by simp))⟩
      | true =>
        have hg : ¬ Gap.IsJson g := fun hg => hjson
          ⟨fun d hd => (List.mem_cons.1 hd).elim (fun heq => by cases heq; exact hc) (hg.blanks d),
            fun u hu => (List.mem_cons.1 hu).elim (fun heq => by rw [heq]; rfl) (hg.noComment u)⟩
        obtain ⟨q, d, ds, hskip, hd⟩ := ih (fun u hu => h u (by simp [hu])) hg (p + 1)
        exact ⟨q, d, ds, (skipBlank_cons hc p _).trans hskip, hd⟩
    | line comment => exact hstop '/' _ hslash
    | block comment => exact hstop '/' _ hslash

/-- A gap does not go on with a number. -/
theorem endsNumber_gap {g : Gap} (h : g.IsProper) {rest : List Char} (hrest : EndsNumber rest) :
    EndsNumber (g.text ++ rest) := by
  cases g with
  | nil => exact hrest
  | cons t g =>
    cases t with
    | blank c =>
      have hblank : Text.isBlank c = true := h (.blank c) (by simp)
      rintro _ ⟨⟩
      refine ⟨not_isDigit_of_isBlank hblank, ?_, ?_, ?_⟩ <;> rintro rfl <;>
        exact absurd hblank (by decide)
    | line comment =>
      rintro _ ⟨⟩
      exact ⟨rfl, by decide, by decide, by decide⟩
    | block comment =>
      rintro _ ⟨⟩
      exact ⟨rfl, by decide, by decide, by decide⟩

/-! ## Where nothing is read -/

/-- Where no string, array or object begins there is a word or a number, if anything. -/
theorem value_eq_atom {c : Char} (h : c ∉ ['"', '{', '[']) (fuel p : Nat) (cs : List Char) :
    value (fuel + 1) ⟨p, c :: cs⟩ = atom ⟨p, c :: cs⟩ := by
  simp only [List.mem_cons, List.not_mem_nil, or_false, not_or] at h
  obtain ⟨hquote, hbrace, hbracket⟩ := h
  rw [value]
  split
  · next heq => cases heq; exact absurd rfl hquote
  · next heq => cases heq; exact absurd rfl hbrace
  · next heq => cases heq; exact absurd rfl hbracket
  · rfl

theorem value_error {c : Char} (h : BeginsNothing c) (fuel p : Nat) (cs : List Char) :
    ∃ fault, value fuel ⟨p, c :: cs⟩ = .error fault := by
  cases fuel with
  | zero => exact ⟨_, rfl⟩
  | succ fuel =>
    obtain ⟨hopening, hstart, hdigit⟩ := h
    have hbracket : c ∉ ['"', '{', '['] :=
      fun hc => hopening (by revert hc; simp +contextual [or_imp])
    refine ⟨⟨.expectingValue, p⟩, ?_⟩
    rw [value_eq_atom hbracket]
    apply atom_error
    rintro _ ⟨⟩
    exact ⟨hstart, fun hminus => hopening (by simp [hminus]), hdigit⟩

/-! ## Parts -/

/-- The parts from a cursor on, of an array or of an object; what stands in an array has no
name. -/
def partsAt (kind : Kind) (fuel : Nat) (c : Cursor) :
    Except Fault (List (Value × Value) × Cursor) :=
  match kind with
  | .array => (elements fuel c).map (Prod.map (List.map fun v => (.null, v)) id)
  | .object => members fuel c

/-- What the reader does behind the name of a member. -/
def behindName (fuel : Nat) (name : String) (c : Cursor) :
    Except Fault ((Value × Value) × Cursor) :=
  if c.rest.head? != some ':' then c.fail .expectingColon
  else (value fuel (c.advance 1).skipBlank).map (Prod.map (.text name, ·) id)

/-- The part at a cursor, with its name. -/
def partAt (kind : Kind) (fuel : Nat) (c : Cursor) : Except Fault ((Value × Value) × Cursor) :=
  match kind with
  | .array => (value fuel c).map (Prod.map (.null, ·) id)
  | .object =>
    if c.rest.head? != some '"' then c.fail .expectingProperty
    else do
      let (name, c) ← string c
      behindName fuel name c.skipBlank

/-- What the reader does behind a part: it stops at the bracket, or goes on behind a comma. -/
def behindPart (kind : Kind) (fuel : Nat) (found : Value × Value) (c : Cursor) :
    Except Fault (List (Value × Value) × Cursor) :=
  if c.rest.head? = some kind.closing then .ok ([found], c.advance 1)
  else if c.rest.head? = some ',' then
    (partsAt kind fuel (c.advance 1).skipBlank).map (Prod.map (found :: ·) id)
  else c.fail .expectingComma

theorem partsAt_succ (kind : Kind) (fuel : Nat) (c : Cursor) :
    partsAt kind (fuel + 1) c = (do
      let (found, c) ← partAt kind fuel c
      behindPart kind fuel found c.skipBlank) := by
  have hhead : ∀ {c : Cursor} {d : Char}, (∀ ds, c.rest = d :: ds → False) →
      c.rest.head? ≠ some d := by
    intro c d hne hd
    obtain ⟨ds, hds⟩ := List.head?_eq_some_iff.1 hd
    exact hne ds hds
  cases kind with
  | array =>
    simp only [partsAt, partAt, elements, bind, Except.bind, pure, Except.pure]
    cases value fuel c with
    | error fault => rfl
    | ok r =>
      obtain ⟨v, c⟩ := r
      have hnamed : Except.map (Prod.map (Value.null, ·) id) (.ok (v, c) : Except Fault _) =
          .ok ((Value.null, v), c) := rfl
      simp only [hnamed, behindPart, partsAt]
      generalize c.skipBlank = c
      split
      · next heq => simp [heq, Except.map, Kind.closing]
      · next heq =>
        cases elements fuel (c.advance 1).skipBlank <;>
          simp [heq, Except.map, Prod.map, Kind.closing]
      · next hbracket hcomma =>
        have hclosing : c.rest.head? ≠ some Kind.array.closing := hhead hbracket
        rw [if_neg hclosing, if_neg (hhead hcomma)]
        rfl
  | object =>
    simp only [partsAt, partAt, behindName, members, bind, Except.bind, pure, Except.pure]
    split
    · rfl
    cases string c with
    | error fault => rfl
    | ok r =>
      obtain ⟨key, c⟩ := r
      simp only
      split
      · rfl
      cases value fuel (c.skipBlank.advance 1).skipBlank with
      | error fault => rfl
      | ok r =>
        obtain ⟨v, c⟩ := r
        simp only [Except.map, Prod.map, id_eq, behindPart, partsAt]
        generalize c.skipBlank = c
        split
        · next heq => simp [heq, Kind.closing]
        · next heq =>
          cases members fuel (c.advance 1).skipBlank <;>
            simp [heq, Kind.closing]
        · next hbrace hcomma =>
          have hclosing : c.rest.head? ≠ some Kind.object.closing := hhead hbrace
          rw [if_neg hclosing, if_neg (hhead hcomma)]

/-- What the reader does behind an opening bracket. -/
def inBrackets (kind : Kind) (fuel : Nat) (c : Cursor) : Except Fault (Value × Cursor) :=
  if c.rest.head? = some kind.closing then .ok (kind.value [], c.advance 1)
  else (partsAt kind fuel c).map (Prod.map kind.value id)

/-- The reader takes an array and an object in the same way. -/
theorem value_opening (kind : Kind) (fuel p : Nat) (cs : List Char) :
    value (fuel + 1) ⟨p, kind.opening :: cs⟩ =
      inBrackets kind fuel (Cursor.skipBlank ⟨p + 1, cs⟩) := by
  unfold inBrackets
  cases kind with
  | array =>
    unfold value
    change (do
      let c := Cursor.skipBlank ⟨p + 1, cs⟩
      if c.rest.head? = some Kind.array.closing then return (.list [], c.advance 1)
      let r ← elements fuel c
      return (.list r.1, r.2) : Except Fault (Value × Cursor)) = _
    generalize Cursor.skipBlank ⟨p + 1, cs⟩ = c
    simp only [partsAt, bind, Except.bind, pure, Except.pure]
    split
    · rfl
    · cases elements fuel c <;> simp [Except.map, Prod.map, Kind.value, Function.comp_def]
  | object =>
    unfold value
    change (do
      let c := Cursor.skipBlank ⟨p + 1, cs⟩
      if c.rest.head? = some Kind.object.closing then return (.mapping [], c.advance 1)
      let r ← members fuel c
      return (.mapping r.1, r.2) : Except Fault (Value × Cursor)) = _
    generalize Cursor.skipBlank ⟨p + 1, cs⟩ = c
    simp only [partsAt, bind, Except.bind, pure, Except.pure]
    split
    · rfl
    · cases members fuel c <;> simp [Except.map, Prod.map, Kind.value]

theorem partsAt_error {c : Char} (h : BeginsNothing c) (kind : Kind) (fuel p : Nat)
    (cs : List Char) : ∃ fault, partsAt kind fuel ⟨p, c :: cs⟩ = .error fault := by
  cases fuel with
  | zero => cases kind <;> exact ⟨_, rfl⟩
  | succ fuel =>
    rw [partsAt_succ]
    cases kind with
    | array =>
      obtain ⟨fault, hfault⟩ := value_error h fuel p cs
      exact ⟨fault, by simp [partAt, hfault, Except.map, bind, Except.bind]⟩
    | object =>
      have hquote : c ≠ '"' := fun heq => h.not_opening (by simp [heq])
      exact ⟨_, by simp [partAt, hquote, Cursor.fail, bind, Except.bind]; rfl⟩

/-! ## Spellings -/

variable {α : Type} {valid : Prop} {a : α} {behind : Cursor} {rest : List Char}

/-- A reader behind a gap that it cannot get over reports a fault. -/
theorem Reads.behind_gap {g : Gap} (h : g.IsProper) {f : Cursor → Except Fault (α × Cursor)}
    {p : Nat} (hrest : ∀ c ∈ rest.head?, isBlank c = false)
    (hstuck : ∀ q c cs, IsStuck c → ∃ fault, f ⟨q, c :: cs⟩ = .error fault)
    (hf : Reads valid (f ⟨p + g.text.length, rest⟩) a behind) :
    Reads (g.IsJson ∧ valid) (f (Cursor.skipBlank ⟨p, g.text ++ rest⟩)) a behind := by
  by_cases hjson : g.IsJson
  · rw [skipBlank_of_isJson hjson hrest]
    exact hf.congr (and_iff_right hjson)
  · obtain ⟨q, c, cs, hskip, hc⟩ := skipBlank_of_not_isJson h hjson p rest
    rw [hskip]
    exact .of_error (fun hyes => hjson hyes.1) (hstuck q c cs hc)

theorem behindName_error (fuel : Nat) (name : String) (q : Nat) (c : Char) (cs : List Char)
    (h : IsStuck c) : ∃ fault, behindName fuel name ⟨q, c :: cs⟩ = .error fault := by
  have hcolon := (h.ne .object).2.2
  exact ⟨_, by simp [behindName, hcolon, Cursor.fail]; rfl⟩

theorem inBrackets_error (kind : Kind) (fuel q : Nat) (c : Char) (cs : List Char)
    (h : IsStuck c) : ∃ fault, inBrackets kind fuel ⟨q, c :: cs⟩ = .error fault := by
  have hclosing := (h.ne kind).1
  obtain ⟨fault, hfault⟩ := partsAt_error h.beginsNothing kind fuel q cs
  exact ⟨fault, by simp [inBrackets, hclosing, hfault, Except.map]⟩

theorem behindPart_error (kind : Kind) (fuel : Nat) (found : Value × Value) (q : Nat) (c : Char)
    (cs : List Char) (h : IsStuck c) :
    ∃ fault, behindPart kind fuel found ⟨q, c :: cs⟩ = .error fault := by
  obtain ⟨hclosing, hcomma, -⟩ := h.ne kind
  exact ⟨_, by simp [behindPart, hclosing, hcomma, Cursor.fail]; rfl⟩

theorem BeginsPart.not_isBlank {c : Char} (h : BeginsPart c) : isBlank c = false := by
  refine Bool.eq_false_iff.2 fun hblank => ?_
  simp only [isBlank, Bool.or_eq_true, beq_iff_eq] at hblank
  have hnone := h.ne.1
  rcases hblank with ((rfl | rfl) | rfl) | rfl <;> exact absurd hnone (by decide)

/-- What a text that begins with a part begins with is no blank. -/
theorem head_not_isBlank {cs : List Char} (h : ∃ c ds, cs = c :: ds ∧ BeginsPart c)
    (rest : List Char) : ∀ c ∈ (cs ++ rest).head?, isBlank c = false := by
  obtain ⟨c, ds, rfl, hc⟩ := h
  rintro _ ⟨⟩
  exact hc.not_isBlank

/-- A part is read with what stands before it, if its value is read. -/
theorem partAt_spelling {kind : Kind} {fuel : Nat} {label : Label} {part : Spelling}
    (hlabel : label.IsProper kind) (hpart : part.IsProper)
    (hvalue : ∀ p, Reads part.IsJson (value fuel ⟨p, part.text ++ rest⟩) part.value
      ⟨p + part.text.length, rest⟩) (p : Nat) :
    Reads (label.IsJson ∧ part.IsJson)
      (partAt kind fuel ⟨p, label.text ++ (part.text ++ rest)⟩) (label.name, part.value)
      ⟨p + label.text.length + part.text.length, rest⟩ := by
  cases label with
  | element =>
    obtain rfl : kind = .array := hlabel
    exact ((hvalue p).map (Value.null, ·)).congr (and_iff_right trivial)
  | key inner name before after =>
    obtain ⟨rfl, hname, hbefore, hafter⟩ := hlabel
    have hcolon : ∀ q, Reads (after.IsJson ∧ part.IsJson)
        (behindName fuel (.ofList name) ⟨q, ':' :: (after.text ++ (part.text ++ rest))⟩)
        (.text (.ofList name), part.value) ⟨q + 1 + after.text.length + part.text.length, rest⟩ :=
      fun q => (Reads.behind_gap hafter (head_not_isBlank (Spelling.text_cons hpart) rest)
        (fun q c cs hc => value_error hc.beginsNothing fuel q cs)
        (hvalue _)).map (Value.text (.ofList name), ·)
    have hread : partAt .object fuel
        ⟨p, (Label.key inner name before after).text ++ (part.text ++ rest)⟩ =
        behindName fuel (.ofList name) (Cursor.skipBlank ⟨p + (inner.length + 2),
          before.text ++ ':' :: (after.text ++ (part.text ++ rest))⟩) := by
      have hliteral := @string_of_literal p inner name hname
        (before.text ++ ':' :: (after.text ++ (part.text ++ rest)))
      simp [partAt, Label.text, hliteral, bind, Except.bind]
    have hlength : p + (Label.key inner name before after).text.length + part.text.length =
        p + (inner.length + 2) + before.text.length + 1 + after.text.length + part.text.length := by
      simp [Label.text]
      omega
    rw [hread, hlength]
    exact (Reads.behind_gap hbefore (by rintro _ ⟨⟩; rfl) (behindName_error fuel _)
      (hcolon _)).congr and_assoc

/-- The character that ends a part behind its gap is no blank and goes on with no number. -/
theorem endsNumber_cons {c : Char} (h : c = ',' ∨ ∃ kind : Kind, c = kind.closing)
    (rest : List Char) :
    EndsNumber (c :: rest) ∧ ∀ d ∈ (c :: rest).head?, isBlank d = false := by
  suffices hc : (c.isDigit = false ∧ c ≠ '.' ∧ c ≠ 'e' ∧ c ≠ 'E') ∧ isBlank c = false by
    refine ⟨?_, ?_⟩ <;> rintro _ ⟨⟩
    · exact hc.1
    · exact hc.2
  rcases h with rfl | ⟨kind, rfl⟩
  · decide
  · cases kind <;> decide

theorem value_scalar {text : List Char} {v : Value} (h : Scalar text v) (hrest : EndsNumber rest)
    (fuel p : Nat) : value (fuel + 1) ⟨p, text ++ rest⟩ = .ok (v, ⟨p + text.length, rest⟩) := by
  have hatom : ∀ c cs, text = c :: cs → c ∉ ['"', '{', '['] →
      value (fuel + 1) ⟨p, text ++ rest⟩ = .ok (v, ⟨p + text.length, rest⟩) := by
    intro c cs htext hc
    have hstring : text.head? ≠ some '"' := by
      rw [htext]
      rintro ⟨⟩
      exact hc (by simp)
    rw [← atom_of_scalar h hstring hrest p, htext]
    exact value_eq_atom hc fuel p (cs ++ rest)
  cases h with
  | null => exact hatom _ _ rfl (by decide)
  | true => exact hatom _ _ rfl (by decide)
  | false => exact hatom _ _ rfl (by decide)
  | number h =>
    obtain ⟨c, cs, hc, htext | htext⟩ := h.head_cases
    · refine hatom _ _ htext fun hmem => ?_
      simp only [List.mem_cons, List.not_mem_nil, or_false] at hmem
      rcases hmem with rfl | rfl | rfl <;> exact absurd hc (by decide)
    · exact hatom _ _ htext (by decide)
  | @string inner xs h =>
    have hliteral := @string_of_literal p inner xs h rest
    simp [value, hliteral, bind, Except.bind, pure, Except.pure]

/-- Behind a comma other parts are read. -/
theorem behindPart_comma {kind : Kind} {fuel q : Nat} {g : Gap} (h : g.IsProper)
    (hrest : ∀ c ∈ rest.head?, isBlank c = false) {ps : List (Value × Value)}
    (hparts : Reads valid (partsAt kind fuel ⟨q + 1 + g.text.length, rest⟩) ps behind)
    (found : Value × Value) :
    Reads (g.IsJson ∧ valid) (behindPart kind fuel found ⟨q, ',' :: (g.text ++ rest)⟩)
      (found :: ps) behind := by
  have hne : ',' ≠ kind.closing := by cases kind <;> decide
  have hread : behindPart kind fuel found ⟨q, ',' :: (g.text ++ rest)⟩ =
      (partsAt kind fuel (Cursor.skipBlank ⟨q + 1, g.text ++ rest⟩)).map
        (Prod.map (found :: ·) id) :=
    (if_neg (by simpa using hne)).trans (if_pos rfl)
  rw [hread]
  exact (Reads.behind_gap h hrest
    (fun q c cs hc => partsAt_error hc.beginsNothing kind fuel q cs) hparts).map (found :: ·)

/-- What comes behind the gap of a last part.  Behind a comma a value or a name is missing. -/
theorem behindPart_last {kind : Kind} {comma : Option Gap}
    (h : ∀ g, comma = some g → g.IsProper) (fuel : Nat) (found : Value × Value) (q : Nat)
    (rest : List Char) :
    Reads (comma = none) (behindPart kind fuel found ⟨q, commaText comma ++ kind.closing :: rest⟩)
      [found] ⟨q + 1, rest⟩ := by
  cases comma with
  | none => exact .of_ok rfl (by simp [behindPart, commaText, Cursor.advance])
  | some g =>
    have hmissing : Reads False (partsAt kind fuel ⟨q + 1 + g.text.length, kind.closing :: rest⟩)
        [] ⟨q + 1, rest⟩ :=
      .of_error id (partsAt_error kind.beginsNothing_closing kind fuel _ rest)
    exact (behindPart_comma (h g rfl) (endsNumber_cons (.inr ⟨kind, rfl⟩) rest).2 hmissing
      found).congr (by simp)

theorem endsNumber_commaText (kind : Kind) (comma : Option Gap) (rest : List Char) :
    EndsNumber (commaText comma ++ kind.closing :: rest) ∧
      ∀ c ∈ (commaText comma ++ kind.closing :: rest).head?, isBlank c = false := by
  cases comma with
  | none => exact endsNumber_cons (.inr ⟨kind, rfl⟩) rest
  | some g => exact endsNumber_cons (.inl rfl) (g.text ++ kind.closing :: rest)

-- Reading a value takes one step and reading a part another, and every value has a character at
-- least, so twice the length of the text bounds the steps.
mutual

/-- A spelling of JSON is read; another is not. -/
theorem value_spelling : ∀ (t : Spelling), t.IsProper → ∀ (fuel p : Nat) (rest : List Char),
    2 * t.text.length ≤ fuel + 1 → EndsNumber rest →
    Reads t.IsJson (value fuel ⟨p, t.text ++ rest⟩) t.value ⟨p + t.text.length, rest⟩
  | .scalar text v, h, fuel, p, rest, hfuel, hrest => by
    obtain ⟨c, cs, htext, -⟩ := Scalar.text_cons h
    have hlength : text.length = cs.length + 1 := by rw [htext]; rfl
    obtain ⟨fuel, rfl⟩ : ∃ n, fuel = n + 1 :=
      ⟨fuel - 1, by simp only [Spelling.text] at hfuel; omega⟩
    exact .of_ok trivial (value_scalar h hrest fuel p)
  | .empty kind lead, h, fuel, p, rest, hfuel, hrest => by
    obtain ⟨fuel, rfl⟩ : ∃ n, fuel = n + 1 :=
      ⟨fuel - 1, by simp only [Spelling.text, List.length_cons, List.length_append] at hfuel; omega⟩
    have hread : value (fuel + 1) ⟨p, (Spelling.empty kind lead).text ++ rest⟩ =
        inBrackets kind fuel (Cursor.skipBlank ⟨p + 1, lead.text ++ kind.closing :: rest⟩) := by
      simp [Spelling.text, value_opening]
    have hlength : p + (Spelling.empty kind lead).text.length = p + 1 + lead.text.length + 1 := by
      simp [Spelling.text]
      omega
    have hend : Reads True (inBrackets kind fuel
        ⟨p + 1 + lead.text.length, kind.closing :: rest⟩) (kind.value [])
        ⟨p + 1 + lead.text.length + 1, rest⟩ :=
      .of_ok trivial (by simp [inBrackets, Cursor.advance])
    rw [hread, hlength]
    exact (Reads.behind_gap h (endsNumber_cons (.inr ⟨kind, rfl⟩) rest).2
      (inBrackets_error kind fuel) hend).congr (and_true _).symm.to_iff
  | .filled kind lead parts, h, fuel, p, rest, hfuel, hrest => by
    obtain ⟨fuel, rfl⟩ : ∃ n, fuel = n + 1 :=
      ⟨fuel - 1, by simp only [Spelling.text, List.length_cons, List.length_append] at hfuel; omega⟩
    have hread : value (fuel + 1) ⟨p, (Spelling.filled kind lead parts).text ++ rest⟩ =
        inBrackets kind fuel
          (Cursor.skipBlank ⟨p + 1, lead.text ++ (parts.text ++ kind.closing :: rest)⟩) := by
      simp [Spelling.text, value_opening]
    have hlength : p + (Spelling.filled kind lead parts).text.length =
        p + 1 + lead.text.length + parts.text.length + 1 := by
      simp [Spelling.text]
      omega
    have hparts := (partsAt_spelling kind parts h.2 fuel (p + 1 + lead.text.length) rest (by
      simp only [Spelling.text, List.length_cons, List.length_append] at hfuel
      omega)).map kind.value
    have hhead : (parts.text ++ kind.closing :: rest).head? ≠ some kind.closing := by
      obtain ⟨c, cs, htext, hc⟩ := Parts.text_cons h.2
      obtain ⟨-, hbracket, hbrace, -⟩ := hc.ne
      rw [htext]
      rintro ⟨⟩
      cases kind
      · exact hbracket rfl
      · exact hbrace rfl
    have hin : inBrackets kind fuel
        ⟨p + 1 + lead.text.length, parts.text ++ kind.closing :: rest⟩ = _ := if_neg hhead
    rw [← hin] at hparts
    rw [hread, hlength]
    exact Reads.behind_gap h.1 (head_not_isBlank (Parts.text_cons h.2) _)
      (inBrackets_error kind fuel) hparts

/-- The same for the parts of a value. -/
theorem partsAt_spelling (kind : Kind) : ∀ (ps : Parts), ps.IsProper kind →
    ∀ (fuel p : Nat) (rest : List Char), 2 * ps.text.length ≤ fuel →
    Reads ps.IsJson (partsAt kind fuel ⟨p, ps.text ++ kind.closing :: rest⟩) ps.values
      ⟨p + ps.text.length + 1, rest⟩
  | .last label part after comma, h, fuel, p, rest, hfuel => by
    obtain ⟨hlabel, hpart, hafter, hcomma⟩ := h
    obtain ⟨c, cs, htext, -⟩ := Spelling.text_cons hpart
    simp only [Parts.text, List.length_append, htext, List.length_cons] at hfuel
    obtain ⟨fuel, rfl⟩ : ∃ n, fuel = n + 1 := ⟨fuel - 1, by omega⟩
    obtain ⟨hnumber, hblank⟩ := endsNumber_commaText kind comma rest
    have hvalue := fun p => value_spelling part hpart fuel p
      (after.text ++ (commaText comma ++ kind.closing :: rest))
      (by rw [htext, List.length_cons]; omega) (endsNumber_gap hafter hnumber)
    have hread := (partAt_spelling hlabel hpart hvalue p).bind
      (f := fun r => behindPart kind fuel r.1 r.2.skipBlank) fun _ =>
        Reads.behind_gap hafter hblank (behindPart_error kind fuel (label.name, part.value))
          (behindPart_last hcomma fuel (label.name, part.value) _ rest)
    rw [partsAt_succ]
    simp only [Parts.text, List.append_assoc]
    refine (hread.congr ?_).stops ?_
    · simp only [Parts.IsJson, and_assoc]
    · rintro ⟨-, -, -, rfl⟩
      simp [commaText]
      omega
  | .more label part after before others, h, fuel, p, rest, hfuel => by
    obtain ⟨hlabel, hpart, hafter, hbefore, hothers⟩ := h
    obtain ⟨c, cs, htext, -⟩ := Spelling.text_cons hpart
    simp only [Parts.text, List.length_append, List.length_cons, htext] at hfuel
    obtain ⟨fuel, rfl⟩ : ∃ n, fuel = n + 1 := ⟨fuel - 1, by omega⟩
    obtain ⟨hnumber, hblank⟩ :=
      endsNumber_cons (.inl rfl) (before.text ++ (others.text ++ kind.closing :: rest))
    have hvalue := fun p => value_spelling part hpart fuel p
      (after.text ++ ',' :: (before.text ++ (others.text ++ kind.closing :: rest)))
      (by rw [htext, List.length_cons]; omega) (endsNumber_gap hafter hnumber)
    have hcomma := fun q => behindPart_comma hbefore
      (head_not_isBlank (Parts.text_cons hothers) (kind.closing :: rest))
      (partsAt_spelling kind others hothers fuel (q + 1 + before.text.length) rest (by omega))
      (label.name, part.value)
    have hread := (partAt_spelling hlabel hpart hvalue p).bind
      (f := fun r => behindPart kind fuel r.1 r.2.skipBlank) fun _ =>
        Reads.behind_gap hafter hblank (behindPart_error kind fuel (label.name, part.value))
          (hcomma _)
    rw [partsAt_succ]
    simp only [Parts.text, List.append_assoc, List.cons_append]
    refine (hread.congr ?_).stops ?_
    · simp only [Parts.IsJson, and_assoc]
    · intro _
      simp
      omega

end

end DeclBundle.Json
