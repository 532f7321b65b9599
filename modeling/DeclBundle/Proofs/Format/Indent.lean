import DeclBundle.Format
set_option autoImplicit false

/-!
# Indenting a text

Indenting looks at terminators only, whatever they stand in.  Where the terminator is a line feed, a
text is indented line feed by line feed, and what happens to a part of it depends on the rest only
through the character behind the part (`indentFeeds_append`).  For any terminator that ends a line,
indenting puts the indent in behind line ends and nowhere else (`indents_reindent`).
-/

namespace DeclBundle.Format

open Text

variable {indent : List Char}

/-! ## Line feeds -/

/-- Whether a line that is not empty begins with a list; `goesOn` says whether one begins behind
it. -/
def lineFollows (goesOn : Bool) : List Char → Bool
  | [] => goesOn
  | c :: _ => c != '\n'

/-- Puts the indent behind every line feed that a line follows, where `goesOn` says whether one
begins behind the list. -/
def indentFeeds (indent : List Char) (goesOn : Bool) : List Char → List Char
  | [] => []
  | c :: cs =>
    (if c = '\n' && lineFollows goesOn cs then '\n' :: indent else [c]) ++
      indentFeeds indent goesOn cs

theorem lineFollows_append (goesOn : Bool) (cs ds : List Char) :
    lineFollows goesOn (cs ++ ds) = lineFollows (lineFollows goesOn ds) cs := by
  cases cs <;> rfl

/-- A text is indented in parts, and what becomes of a part depends on what follows it only by
whether that begins a line. -/
theorem indentFeeds_append (goesOn : Bool) (cs ds : List Char) :
    indentFeeds indent goesOn (cs ++ ds) =
      indentFeeds indent (lineFollows goesOn ds) cs ++ indentFeeds indent goesOn ds := by
  induction cs with
  | nil => rfl
  | cons c cs ih =>
    simp only [List.cons_append, indentFeeds, ih, lineFollows_append, List.append_assoc]

/-- What follows a text does not matter if the text does not end in a line feed. -/
theorem indentFeeds_of_getLast {cs : List Char} (h : cs.getLast? ≠ some '\n') (goesOn other : Bool) :
    indentFeeds indent goesOn cs = indentFeeds indent other cs := by
  induction cs with
  | nil => rfl
  | cons c cs ih =>
    cases cs with
    | nil =>
      have hc : c ≠ '\n' := by
        rintro rfl
        exact h rfl
      simp [indentFeeds, hc]
    | cons d ds =>
      have hrest := ih (by simpa using h)
      rw [indentFeeds, hrest]
      rfl

/-- With a line feed as the terminator, a text is indented line feed by line feed. -/
theorem indentLines_feed (cs : List Char) :
    indentLines ['\n'] indent 0 cs = indentFeeds indent false cs := by
  induction cs with
  | nil => rfl
  | cons c cs ih =>
    have hends : endsBeforeLine ['\n'] (c :: cs) = (decide (c = '\n') && lineFollows false cs) := by
      by_cases hc : c = '\n'
      · subst hc
        cases cs with
        | nil => rfl
        | cons d ds =>
          by_cases hd : d = '\n'
          · simp [endsBeforeLine, afterStart?, lineFollows, hd]
          · have hprefix : ['\n'].isPrefixOf (d :: ds) = false := by
              simp [List.isPrefixOf, Ne.symm hd]
            simp [endsBeforeLine, afterStart?, lineFollows, hd, hprefix]
      · simp [endsBeforeLine, afterStart?, hc, Ne.symm hc]
    rw [indentLines, hends, indentFeeds, ← ih]
    split <;> rfl

theorem toList_reindent {f : Format} (heol : f.eol = "\n") (content : String) :
    (f.reindent content).toList = indentFeeds f.indent.toList false content.toList := by
  rw [reindent, String.toList_ofList, heol]
  exact indentLines_feed content.toList

theorem length_le_indentFeeds (goesOn : Bool) (cs : List Char) :
    cs.length ≤ (indentFeeds indent goesOn cs).length := by
  induction cs with
  | nil => exact Nat.le_refl _
  | cons c cs ih =>
    rw [indentFeeds, List.length_append, List.length_cons]
    split <;> simp only [List.length_cons, List.length_nil] <;> omega

/-- A line feed that does not end the text brings the indent in. -/
theorem length_indentFeeds_of_mem {goesOn : Bool} {cs : List Char} (hmem : '\n' ∈ cs)
    (h : cs.getLast? ≠ some '\n') :
    cs.length + indent.length ≤ (indentFeeds indent goesOn cs).length := by
  induction cs with
  | nil => cases hmem
  | cons c cs ih =>
    cases cs with
    | nil =>
      obtain rfl := List.mem_singleton.1 hmem
      exact absurd rfl h
    | cons d ds =>
      have hlast : (d :: ds).getLast? ≠ some '\n' := by simpa using h
      have hrest : (d :: ds).length ≤ (indentFeeds indent goesOn (d :: ds)).length :=
        length_le_indentFeeds goesOn (d :: ds)
      rw [indentFeeds, List.length_append, List.length_cons]
      split
      · simp only [List.length_cons] at hrest ⊢
        omega
      · -- the line feed is another one
        rename_i hfollows
        have hmem' : '\n' ∈ d :: ds := by
          rcases List.mem_cons.1 hmem with rfl | hmem
          · have hd : d = '\n' := by simpa [lineFollows] using hfollows
            exact hd ▸ List.mem_cons_self
          · exact hmem
        have := ih hmem' hlast
        simp only [List.length_cons, List.length_nil] at this ⊢
        omega

/-- Indenting leaves a text that does not end in a line feed as it is just if there is nothing to put
in or no line feed to put it behind. -/
theorem indentFeeds_eq_self_iff {goesOn : Bool} {cs : List Char} (h : cs.getLast? ≠ some '\n') :
    indentFeeds indent goesOn cs = cs ↔ indent = [] ∨ '\n' ∉ cs := by
  constructor
  · intro heq
    by_cases hmem : '\n' ∈ cs
    · have hlength : cs.length + indent.length ≤ (indentFeeds indent goesOn cs).length :=
        length_indentFeeds_of_mem hmem h
      rw [heq] at hlength
      exact .inl (List.eq_nil_of_length_eq_zero (by omega))
    · exact .inr hmem
  · intro hkeeps
    clear h
    induction cs with
    | nil => rfl
    | cons c cs ih =>
      rw [indentFeeds, ih (hkeeps.imp_right fun hmem hcs => hmem (List.mem_cons_of_mem c hcs))]
      split
      · rename_i hfeed
        obtain ⟨rfl, -⟩ : c = '\n' ∧ _ := by simpa using hfeed
        rcases hkeeps with rfl | hmem
        · rfl
        · exact absurd List.mem_cons_self hmem
      · rfl

/-! ## Blocks -/

/-- What comes before the content of a module in its block. -/
def opening (f : Format) (id : String) : List Char :=
  ("declare module '" ++ id ++ "' \x7b" ++ f.eol ++ f.indent).toList

theorem toList_moduleBlock (f : Format) (id content : String) :
    (f.moduleBlock id content).toList =
      f.opening id ++ (f.reindent content).toList ++ (f.eol ++ "\x7d" ++ f.eol).toList := by
  unfold moduleBlock opening
  -- with the definition of indenting in reach, the parts are compared by what they compute
  generalize f.reindent content = content
  generalize f.eol = eol
  generalize f.indent = indent
  simp only [String.toList_append, List.append_assoc]

/-! ## Any terminator -/

/-- Whether a character ends a line. -/
def isLineBreak (c : Char) : Bool :=
  c = '\n' || c = '\r'

/-- Whether a text is another one with an indent put in at some places, each right behind a line
break. -/
inductive Indents (indent : List Char) : List Char → List Char → Prop where
  | nil : Indents indent [] []
  | keep {c : Char} {cs ds : List Char} (h : Indents indent cs ds) :
      Indents indent (c :: cs) (c :: ds)
  | indent {c : Char} {cs ds : List Char} (hc : isLineBreak c = true)
      (h : Indents indent cs ds) : Indents indent (c :: cs) (c :: (indent ++ ds))

theorem Indents.refl : ∀ cs : List Char, Indents indent cs cs
  | [] => .nil
  | _ :: cs => .keep (Indents.refl cs)

/-- What a text that is indented consists of, its indented form consists of too. -/
theorem Indents.exists_append {as bs ds : List Char} (h : Indents indent (as ++ bs) ds) :
    ∃ as' bs', ds = as' ++ bs' ∧ Indents indent as as' ∧ Indents indent bs bs' := by
  induction as generalizing ds with
  | nil => exact ⟨[], ds, rfl, .nil, h⟩
  | cons a as ih =>
    cases h with
    | keep h =>
      obtain ⟨as', bs', rfl, has, hbs⟩ := ih h
      exact ⟨a :: as', bs', rfl, .keep has, hbs⟩
    | indent hc h =>
      obtain ⟨as', bs', rfl, has, hbs⟩ := ih h
      exact ⟨a :: (indent ++ as'), bs', by simp, .indent hc has, hbs⟩

/-- Behind a character that ends no line, nothing is put in. -/
theorem Indents.exists_cons {c : Char} {cs ds : List Char} (h : Indents indent (c :: cs) ds)
    (hc : isLineBreak c = false) : ∃ ds', ds = c :: ds' ∧ Indents indent cs ds' := by
  cases h with
  | keep h => exact ⟨_, rfl, h⟩
  | indent hbreak h =>
    rw [hc] at hbreak
    cases hbreak

/-- A text on one line stays as it is. -/
theorem Indents.eq_self {cs ds : List Char} (h : Indents indent cs ds)
    (hline : ∀ c ∈ cs, isLineBreak c = false) : ds = cs := by
  induction h with
  | nil => rfl
  | keep h ih => rw [ih fun c hc => hline c (List.mem_cons_of_mem _ hc)]
  | indent hc h ih =>
    rw [hline _ List.mem_cons_self] at hc
    cases hc

theorem Indents.sublist {cs ds : List Char} (h : Indents indent cs ds) : cs.Sublist ds := by
  induction h with
  | nil => exact .refl _
  | keep h ih => exact .cons_cons _ ih
  | indent hc h ih => exact .cons_cons _ (ih.trans (List.sublist_append_right _ _))

/-- A character that is not in the indent occurs as often as before. -/
theorem Indents.count_eq {cs ds : List Char} {c : Char} (h : Indents indent cs ds)
    (hc : c ∉ indent) : ds.count c = cs.count c := by
  induction h with
  | nil => rfl
  | keep h ih => rw [List.count_cons, List.count_cons, ih]
  | indent hbreak h ih =>
    rw [List.count_cons, List.count_cons, List.count_append, List.count_eq_zero_of_not_mem hc, ih,
      Nat.zero_add]

/-- What comes before the first line break is as in the text that is indented. -/
theorem Indents.prefix_of_prefix {cs ds inner : List Char} (h : Indents indent cs ds)
    (hinner : inner <+: ds) (hline : ∀ c ∈ inner, isLineBreak c = false) : inner <+: cs := by
  induction h generalizing inner with
  | nil => exact hinner
  | keep h ih =>
    cases inner with
    | nil => exact List.nil_prefix
    | cons d inner =>
      obtain ⟨rfl, hprefix⟩ := List.cons_prefix_cons.1 hinner
      exact List.cons_prefix_cons.2 ⟨rfl, ih hprefix (List.forall_mem_cons.1 hline).2⟩
  | indent hbreak h ih =>
    cases inner with
    | nil => exact List.nil_prefix
    | cons d inner =>
      obtain ⟨rfl, -⟩ := List.cons_prefix_cons.1 hinner
      rw [hline d List.mem_cons_self] at hbreak
      cases hbreak

/-- Where a terminator stands, indenting puts the indent behind it and goes on. -/
theorem indentLines_passed (eol skipped cs : List Char) :
    indentLines eol indent skipped.length (skipped ++ cs) = indentLines eol indent 0 cs := by
  induction skipped with
  | nil => rfl
  | cons c skipped ih => exact ih

theorem exists_of_endsBeforeLine {eol cs : List Char} {c : Char}
    (h : endsBeforeLine eol (c :: cs) = true) :
    ∃ tail rest, eol = c :: tail ∧ cs = tail ++ rest := by
  unfold endsBeforeLine afterStart? at h
  split at h
  · rename_i hafter
    split at hafter
    · rename_i hprefix
      obtain ⟨rest, hrest⟩ := List.isPrefixOf_iff_prefix.1 hprefix
      cases eol with
      | nil => simp at h
      | cons d tail =>
        obtain ⟨rfl, rfl⟩ := List.cons.inj hrest
        exact ⟨tail, rest, rfl, rfl⟩
    · cases hafter
  · cases h

/-- Whether a terminator ends in a line break, or is empty. -/
def EndsLine (eol : List Char) : Prop :=
  ∀ c, eol.getLast? = some c → isLineBreak c = true

theorem endsLine_feed : EndsLine ({} : Format).eol.toList := by
  intro c hc
  obtain rfl : '\n' = c := Option.some.inj hc
  rfl

theorem Indents.of_terminator {eol cs ds : List Char} (heol : EndsLine eol) (hne : eol ≠ [])
    (h : Indents indent cs ds) : Indents indent (eol ++ cs) (eol ++ indent ++ ds) := by
  induction eol with
  | nil => exact absurd rfl hne
  | cons c eol ih =>
    cases eol with
    | nil => exact .indent (heol c rfl) h
    | cons d eol => exact .keep (ih (fun e he => heol e (by simpa using he)) (by simp))

/-- Indenting puts the indent in behind line breaks and changes nothing else. -/
theorem indents_indentLines {eol : List Char} (heol : EndsLine eol) (cs : List Char) :
    Indents indent cs (indentLines eol indent 0 cs) := by
  induction hn : cs.length using Nat.strongRecOn generalizing cs with
  | ind n ih =>
    cases cs with
    | nil => exact .nil
    | cons c cs =>
      rw [indentLines]
      split
      · rename_i hends
        obtain ⟨tail, rest, rfl, rfl⟩ := exists_of_endsBeforeLine hends
        rw [List.length_cons, Nat.add_sub_cancel, indentLines_passed]
        refine Indents.of_terminator heol (by simp) (ih rest.length ?_ rest rfl)
        simp only [List.length_cons, List.length_append] at hn
        omega
      · exact .keep (ih cs.length (by simp only [List.length_cons] at hn; omega) cs rfl)

theorem indents_reindent {f : Format} (heol : EndsLine f.eol.toList) (content : String) :
    Indents f.indent.toList content.toList (f.reindent content).toList := by
  rw [reindent, String.toList_ofList]
  exact indents_indentLines heol content.toList

end DeclBundle.Format
