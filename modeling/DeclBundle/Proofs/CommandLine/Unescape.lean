import DeclBundle.CommandLine.Escape
import DeclBundle.Proofs.Format.Lines
import Mathlib.Data.List.Nodup
set_option autoImplicit false

/-!
# Escapes in one pass

The escapes of a text are replaced letter by letter: all that have the first letter, then in the
result all that have the second, and so on.  Such replacements could see what earlier ones have
written.  They cannot if no meaning is a backslash or a letter of a later escape, and no letter is a
backslash (`Separate`): passes with two tables, one after the other, are then one pass with both
(`decoded_decoded`), and the replacements together are one pass from left to right
(`foldl_replaceEscape`).

Writing escapes for the characters that they mean does not change how a text is read
(`decoded_encoded`), and a text is read as itself just if it holds no escape
(`decoded_eq_self_iff`).
-/

namespace DeclBundle.CommandLine

open Text

variable {table further : List (Char × Char)}

/-! ## Tables of letters and meanings -/

theorem mem_of_lookup {c meaning : Char} (h : table.lookup c = some meaning) :
    (c, meaning) ∈ table := by
  obtain ⟨front, back, rfl, -⟩ := List.lookup_eq_some_iff.1 h
  simp

theorem lookup_eq_none {c : Char} (h : ∀ e ∈ table, c ≠ e.1) : table.lookup c = none := by
  simpa [List.lookup_eq_none_iff] using h

/-- In a table with distinct letters, every letter has the meaning it stands with. -/
theorem lookup_of_mem (hletters : (table.map Prod.fst).Nodup) {e : Char × Char} (he : e ∈ table) :
    table.lookup e.1 = some e.2 := by
  cases hlookup : table.lookup e.1 with
  | none => simpa using List.lookup_eq_none_iff.1 hlookup e he
  | some meaning =>
    have hmem := mem_of_lookup hlookup
    have heq := List.inj_on_of_nodup_map hletters hmem he rfl
    rw [← heq]

/-- Nothing that a table writes can be part of an escape of a further table. -/
structure Separate (table further : List (Char × Char)) : Prop where
  letter_ne : ∀ f ∈ further, f.1 ≠ '\\'
  meaning_ne : ∀ e ∈ table, e.2 ≠ '\\'
  meaning_ne_letter : ∀ e ∈ table, ∀ f ∈ further, e.2 ≠ f.1

theorem Separate.mono {table' further' : List (Char × Char)} (h : Separate table further)
    (htable : table' ⊆ table) (hfurther : further' ⊆ further) : Separate table' further' where
  letter_ne f hf := h.letter_ne f (hfurther hf)
  meaning_ne e he := h.meaning_ne e (htable he)
  meaning_ne_letter e he f hf := h.meaning_ne_letter e (htable he) f (hfurther hf)

theorem Separate.lookup_meaning (h : Separate table further) {e : Char × Char} (he : e ∈ table) :
    further.lookup e.2 = none :=
  lookup_eq_none (h.meaning_ne_letter e he)

theorem Separate.lookup_backslash (h : Separate table further) : further.lookup '\\' = none :=
  lookup_eq_none fun f hf => (h.letter_ne f hf).symm

/-! ## One pass -/

/-- One pass over a text from left to right: a backslash and a letter of the table become what the
letter means, and every other character is copied. -/
def decoded (table : List (Char × Char)) : List Char → List Char
  | '\\' :: c :: cs =>
    match table.lookup c with
    | some meaning => meaning :: decoded table cs
    | none => '\\' :: decoded table (c :: cs)
  | c :: cs => c :: decoded table cs
  | [] => []

theorem decoded_escape {c meaning : Char} (h : table.lookup c = some meaning) (cs : List Char) :
    decoded table ('\\' :: c :: cs) = meaning :: decoded table cs := by
  rw [decoded, h]

/-- A character that begins no escape is copied. -/
theorem decoded_cons {b : Char} {cs : List Char}
    (h : b = '\\' → ∀ c ∈ cs.head?, table.lookup c = none) :
    decoded table (b :: cs) = b :: decoded table cs := by
  by_cases hb : b = '\\'
  · subst hb
    cases cs with
    | nil => rfl
    | cons c cs => rw [decoded, h rfl c rfl]
  · rw [decoded]
    exact fun _ _ heq _ => hb heq

/-- A text is empty, or it begins with an escape of the table or with a character that is copied. -/
theorem decoded_induction (table : List (Char × Char)) {motive : List Char → Prop}
    (nil : motive [])
    (escape : ∀ c meaning cs, table.lookup c = some meaning → motive cs →
      motive ('\\' :: c :: cs))
    (copy : ∀ b cs, (b = '\\' → ∀ c ∈ cs.head?, table.lookup c = none) → motive cs →
      motive (b :: cs))
    (cs : List Char) : motive cs := by
  fun_induction decoded table cs with
  | case1 c cs meaning hlookup ih => exact escape c meaning cs hlookup ih
  | case2 c cs hlookup ih => exact copy '\\' (c :: cs) (fun _ => by simpa using hlookup) ih
  | case3 b cs hrest ih =>
    refine copy b cs (fun hb c hc => ?_) ih
    obtain ⟨rest, rfl⟩ := List.head?_eq_some_iff.1 hc
    exact (hrest c rest hb rfl).elim
  | case4 => exact nil

/-- The first character is copied or written by the table. -/
theorem mem_head?_decoded {d : Char} {cs : List Char} (h : d ∈ (decoded table cs).head?) :
    d ∈ cs.head? ∨ ∃ e ∈ table, e.2 = d := by
  induction cs using decoded_induction table with
  | nil => exact .inl h
  | escape c meaning cs hlookup _ =>
    rw [decoded_escape hlookup] at h
    exact .inr ⟨(c, meaning), mem_of_lookup hlookup, by simpa using h⟩
  | copy b cs hcopy _ =>
    rw [decoded_cons hcopy] at h
    exact .inl h

/-- A text is read as itself just if it holds no escape. -/
theorem decoded_eq_self_iff (hmeaning : ∀ e ∈ table, e.2 ≠ '\\') {cs : List Char} :
    decoded table cs = cs ↔ ∀ e ∈ table, ¬ ['\\', e.1] <:+: cs := by
  induction cs using decoded_induction table with
  | nil => simp [decoded]
  | escape c meaning cs hlookup _ =>
    have hmem := mem_of_lookup hlookup
    have hne : decoded table ('\\' :: c :: cs) ≠ '\\' :: c :: cs := by
      rw [decoded_escape hlookup]
      exact fun heq => hmeaning _ hmem (List.cons.inj heq).1
    have hinside : ['\\', c] <:+: '\\' :: c :: cs := (List.prefix_append ['\\', c] cs).isInfix
    exact ⟨fun heq => absurd heq hne, fun hnone => absurd hinside (hnone _ hmem)⟩
  | copy b cs hcopy ih =>
    have hstart : ∀ e ∈ table, ¬ ['\\', e.1] <+: b :: cs := by
      intro e he hstarts
      obtain ⟨rfl, rest, rfl⟩ := List.cons_prefix_cons.1 hstarts
      have hnone := List.lookup_eq_none_iff.1 (hcopy rfl e.1 rfl) e he
      simp at hnone
    rw [decoded_cons hcopy, List.cons_inj_right, ih]
    refine forall₂_congr fun e he => ?_
    rw [List.infix_cons_iff, or_iff_right (hstart e he)]

/-- Two passes one after the other are one pass with both tables. -/
theorem decoded_decoded (h : Separate table further) (cs : List Char) :
    decoded further (decoded table cs) = decoded (table ++ further) cs := by
  -- the induction follows the pass with both tables, so that it stops at every escape of either
  induction cs using decoded_induction (table ++ further) with
  | nil => rfl
  | escape c meaning cs hlookup ih =>
    rw [decoded_escape hlookup]
    rw [List.lookup_append, Option.or_eq_some_iff] at hlookup
    rcases hlookup with hfirst | ⟨hnone, hsecond⟩
    · have hmeaning := h.meaning_ne _ (mem_of_lookup hfirst)
      rw [decoded_escape hfirst, decoded_cons fun heq => absurd heq hmeaning, ih]
    · -- the first pass leaves the escape as it stands
      have hletter := h.letter_ne _ (mem_of_lookup hsecond)
      rw [decoded_cons fun _ => by simpa using hnone, decoded_cons fun heq => absurd heq hletter,
        decoded_escape hsecond, ih]
  | copy b cs hcopy ih =>
    have hboth : b = '\\' → ∀ c ∈ cs.head?, table.lookup c = none ∧ further.lookup c = none := by
      simpa only [List.lookup_append, Option.or_eq_none_iff] using hcopy
    -- behind a backslash the second pass finds what was copied, or what the first pass has written
    have hnext : b = '\\' → ∀ d ∈ (decoded table cs).head?, further.lookup d = none := by
      intro hb d hd
      rcases mem_head?_decoded hd with hd | ⟨e, he, rfl⟩
      · exact (hboth hb d hd).2
      · exact h.lookup_meaning he
    rw [decoded_cons hcopy, decoded_cons fun hb c hc => (hboth hb c hc).1, decoded_cons hnext, ih]

/-! ## Replacing one letter after the other -/

/-- To replace the escapes of one letter is a pass with a table of one entry. -/
theorem replaceEscape_eq_decoded (letter meaning : Char) (cs : List Char) :
    replaceEscape letter meaning cs = decoded [(letter, meaning)] cs := by
  fun_induction replaceEscape letter meaning cs with
  | case1 => rfl
  | case2 c =>
    rw [decoded_cons, decoded]
    simp
  | case3 b c cs hescape ih =>
    simp only [Bool.and_eq_true, decide_eq_true_eq] at hescape
    obtain ⟨rfl, rfl⟩ := hescape
    rw [decoded_escape List.lookup_cons_self, ih]
  | case4 b c cs hescape ih =>
    rw [decoded_cons, ih]
    intro hb d hd
    obtain rfl : c = d := by simpa using hd
    exact lookup_eq_none (by simpa [hb] using hescape)

/-- A text with a character in the place of every occurrence of a mark. -/
def replaced (mark : List Char) (c : Char) (cs : List Char) : List Char :=
  [c].intercalate (cutAt mark cs)

/-- The escapes of one letter are replaced all over the text. -/
theorem replaceEscape_eq_replaced (letter meaning : Char) (cs : List Char) :
    replaceEscape letter meaning cs = replaced ['\\', letter] meaning cs := by
  have hne : ['\\', letter] ≠ [] := List.cons_ne_nil _ _
  rw [replaceEscape_eq_decoded, replaced]
  induction cs using cutAt_cases hne with
  | nil => simp [cutAt_nil, decoded]
  | mark_append cs ih =>
    rw [cutAt_mark_append hne, intercalate_cons_of_ne_nil (cutAt_ne_nil _ cs), ← ih]
    exact decoded_escape List.lookup_cons_self cs
  | cons b cs hstarts ih =>
    obtain ⟨piece, pieces, hcut, hcons⟩ := exists_cutAt_cons hstarts
    have hjoin := intercalate_cons_append [meaning] [b] piece pieces
    rw [List.singleton_append] at hjoin
    rw [hcons, hjoin, List.singleton_append, ← hcut, ← ih]
    refine decoded_cons fun hb c hc => ?_
    obtain ⟨rest, rfl⟩ := List.head?_eq_some_iff.1 hc
    refine lookup_eq_none fun e he hletter => hstarts ⟨rest, ?_⟩
    rw [List.mem_singleton] at he
    rw [hb, hletter, he, List.cons_append, List.singleton_append]

/-- Replacements one after the other are one pass with all letters. -/
theorem foldl_replaceEscape (h : Separate table table) (cs : List Char) :
    table.foldl (fun cs e => replaceEscape e.1 e.2 cs) cs = decoded table cs := by
  induction table using List.reverseRecOn with
  | nil => exact ((decoded_eq_self_iff (by simp)).2 (by simp)).symm
  | append_singleton table e ih =>
    have htable : table ⊆ table ++ [e] := List.subset_append_left table [e]
    have hentry : [e] ⊆ table ++ [e] := List.subset_append_right table [e]
    rw [List.foldl_append, ih (h.mono htable htable), List.foldl_cons, List.foldl_nil,
      replaceEscape_eq_decoded, decoded_decoded (h.mono htable hentry)]

/-- If a meaning is the letter of a later escape, the order of the replacements shows. -/
example : (replaceEscape 'n' '\n' (replaceEscape 'a' 'n' "\\\\a".toList),
    decoded [('a', 'n'), ('n', '\n')] "\\\\a".toList) = ("\n".toList, "\\n".toList) := by
  decide

/-! ## Writing escapes -/

/-- How a character is written: with the escape that means it, if there is one. -/
def spelling (table : List (Char × Char)) (c : Char) : List Char :=
  match table.find? (·.2 = c) with
  | some e => ['\\', e.1]
  | none => [c]

/-- A text in which escapes stand for the characters that they mean. -/
def encoded (table : List (Char × Char)) (cs : List Char) : List Char :=
  cs.flatMap (spelling table)

theorem spelling_of_forall_ne {c : Char} (h : ∀ e ∈ table, e.2 ≠ c) : spelling table c = [c] := by
  have hnone : table.find? (·.2 = c) = none := by simpa using h
  rw [spelling, hnone]

theorem spelling_cases (table : List (Char × Char)) (c : Char) :
    (∃ e ∈ table, e.2 = c ∧ spelling table c = ['\\', e.1]) ∨ spelling table c = [c] := by
  unfold spelling
  split
  case h_1 e he =>
    exact .inl ⟨e, List.mem_of_find?_eq_some he, by simpa using List.find?_some he, rfl⟩
  case h_2 => exact .inr rfl

theorem mem_head?_encoded {d : Char} {cs : List Char} (h : d ∈ (encoded table cs).head?) :
    d = '\\' ∨ d ∈ cs.head? := by
  cases cs with
  | nil => simp [encoded] at h
  | cons c cs =>
    rw [encoded, List.flatMap_cons] at h
    rcases spelling_cases table c with ⟨e, -, -, hspelling⟩ | hspelling
    · rw [hspelling] at h
      exact .inl (by simpa using h.symm)
    · rw [hspelling] at h
      exact .inr h

/-- Writing escapes for what they mean does not change how a text is read. -/
theorem decoded_encoded (h : Separate table table) (hletters : (table.map Prod.fst).Nodup)
    (cs : List Char) : decoded table (encoded table cs) = decoded table cs := by
  induction cs using decoded_induction table with
  | nil => rfl
  | escape c meaning cs hlookup ih =>
    -- neither the backslash nor the letter is the meaning of an escape
    have hmem := mem_of_lookup hlookup
    have hletter : spelling table c = [c] :=
      spelling_of_forall_ne fun e he => h.meaning_ne_letter e he _ hmem
    have hencoded : encoded table ('\\' :: c :: cs) = '\\' :: c :: encoded table cs := by
      simp [encoded, spelling_of_forall_ne h.meaning_ne, hletter]
    rw [hencoded, decoded_escape hlookup, decoded_escape hlookup, ih]
  | copy b cs hcopy ih =>
    have hencoded : encoded table (b :: cs) = spelling table b ++ encoded table cs :=
      List.flatMap_cons
    rw [hencoded, decoded_cons hcopy, ← ih]
    rcases spelling_cases table b with ⟨e, he, rfl, hspelling⟩ | hspelling
    · rw [hspelling]
      exact decoded_escape (lookup_of_mem hletters he) _
    · rw [hspelling]
      refine decoded_cons fun hb d hd => ?_
      rcases mem_head?_encoded hd with rfl | hd
      · exact h.lookup_backslash
      · exact hcopy hb d hd

/-! ## The escapes of the command line -/

/-- The letters that mean something behind a backslash, and what they mean. -/
def escapes : List (Char × Char) :=
  [('r', '\r'), ('n', '\n'), ('t', '\t')]

theorem separate_escapes : Separate escapes escapes where
  letter_ne := by decide
  meaning_ne := by decide
  meaning_ne_letter := by decide

theorem toList_unescape (s : String) :
    (unescape s).toList = escapes.foldl (fun cs e => replaceEscape e.1 e.2 cs) s.toList := by
  rw [unescape, String.toList_ofList]
  rfl

/-- A text with a backslash and a letter for every carriage return, line feed and tab. -/
def escape (s : String) : String :=
  .ofList (encoded escapes s.toList)

/-- For every text: what replaces the escapes of one letter after the other all over the text gives
what one pass from left to right gives, in which a backslash and one of the letters become what the
letter means and every other character is copied.  A text without a backslash comes back when its
line ends and tabs have been written as escapes. -/
theorem unescape_onePass (s : String) :
    (unescape s).toList =
        escapes.foldl (fun cs e => replaced ['\\', e.1] e.2 cs) s.toList ∧
      (unescape s).toList = decoded escapes s.toList ∧
      ('\\' ∉ s.toList → unescape (escape s) = s) := by
  have hpass : ∀ s : String, (unescape s).toList = decoded escapes s.toList := fun s => by
    rw [toList_unescape, foldl_replaceEscape separate_escapes]
  refine ⟨?_, hpass s, fun hfree => ?_⟩
  · simp only [toList_unescape, replaceEscape_eq_replaced]
  · have hself : decoded escapes s.toList = s.toList := by
      refine (decoded_eq_self_iff separate_escapes.meaning_ne).2 fun e _ hinside => ?_
      exact hfree (hinside.subset List.mem_cons_self)
    rw [← String.toList_inj, hpass, escape, String.toList_ofList,
      decoded_encoded separate_escapes (by decide), hself]

/-- A line end of two characters with a tab behind it comes back. -/
theorem unescape_onePass_lineEnd :
    '\\' ∉ "a\r\n\tb".toList ∧ escape "a\r\n\tb" = "a\\r\\n\\tb" ∧
      unescape "a\\r\\n\\tb" = "a\r\n\tb" := by
  have hfree : '\\' ∉ "a\r\n\tb".toList := by decide
  have hescape : escape "a\r\n\tb" = "a\\r\\n\\tb" := by decide
  have hback := (unescape_onePass "a\r\n\tb").2.2 hfree
  exact ⟨hfree, hescape, hescape ▸ hback⟩

/-- Of a run of backslashes only the last can begin an escape. -/
example : unescape "\\\\\\n\\\\r\\" = "\\\\\n\\\r\\" := by
  decide

end DeclBundle.CommandLine
