import DeclBundle.Json.Comments
import DeclBundle.Proofs.Json.Spelling
set_option autoImplicit false

/-!
# Taking comments out of a spelling

Taking comments and last commas out of the text of a spelling gives the text of another spelling of
the same value (`withoutCommentsFrom_spelling`, `Spelling.value_kept`).  There a gap has only its
blanks left, and the line ends behind comments.  A comma behind a last part is gone if nothing but
blanks came before the bracket; if there was a comment, it has stayed.
-/

namespace DeclBundle.Json

open Data (Value)

/-! ## What is left -/

/-- What is left of a blank or a comment: the line end of a comment is not part of it. -/
def Trivium.kept : Trivium → Gap
  | .blank c => [.blank c]
  | .line _ => [.blank '\n']
  | .block _ => []

/-- What is left between two tokens. -/
def Gap.kept (g : Gap) : Gap :=
  g.flatMap Trivium.kept

/-- What is left of a label. -/
def Label.kept : Label → Label
  | .element => .element
  | .key inner name before after => .key inner name before.kept after.kept

/-- What is left of a comma behind a last part.  It goes if nothing but blanks follows it. -/
def keptComma : Option Gap → Option Gap
  | none => none
  | some g => if g.HasNoComment then none else some g.kept

/-- The blanks that a comma leaves behind when it goes. -/
def leftBlanks : Option Gap → Gap
  | none => []
  | some g => if g.HasNoComment then g.kept else []

mutual

/-- What is left of a spelling. -/
def Spelling.kept : Spelling → Spelling
  | .scalar text v => .scalar text v
  | .empty kind lead => .empty kind lead.kept
  | .filled kind lead parts => .filled kind lead.kept parts.kept

/-- What is left of the parts of a value. -/
def Parts.kept : Parts → Parts
  | .last label part after comma =>
    .last label.kept part.kept (after.kept ++ leftBlanks comma) (keptComma comma)
  | .more label part after before others =>
    .more label.kept part.kept after.kept before.kept others.kept

end

theorem Label.name_kept (l : Label) : l.kept.name = l.name := by
  cases l <;> rfl

mutual

/-- Nothing is taken out that a value depends on. -/
theorem Spelling.value_kept : ∀ t : Spelling, t.kept.value = t.value
  | .scalar _ _ => rfl
  | .empty _ _ => rfl
  | .filled _ _ parts => by
    simp only [Spelling.kept, Spelling.value, Parts.values_kept parts]

theorem Parts.values_kept : ∀ ps : Parts, ps.kept.values = ps.values
  | .last label part _ _ => by
    simp only [Parts.kept, Parts.values, label.name_kept, Spelling.value_kept part]
  | .more label part _ _ others => by
    simp only [Parts.kept, Parts.values, label.name_kept, Spelling.value_kept part,
      Parts.values_kept others]

end

theorem Gap.isJson_kept (g : Gap) : g.kept.IsJson ↔ g.HasJsonBlanks := by
  constructor
  · intro h c hc
    exact h.blanks c (List.mem_flatMap.2 ⟨.blank c, hc, List.mem_singleton_self _⟩)
  · intro h
    have hblank : ∀ t ∈ g.kept, ∃ c, t = .blank c ∧ isBlank c = true := by
      intro t ht
      obtain ⟨u, hu, ht⟩ := List.mem_flatMap.1 ht
      cases u with
      | blank c => exact ⟨c, List.mem_singleton.1 ht, h c hu⟩
      | line comment => exact ⟨'\n', List.mem_singleton.1 ht, rfl⟩
      | block comment => cases ht
    refine ⟨fun c hc => ?_, fun t ht => ?_⟩
    · obtain ⟨d, heq, hd⟩ := hblank _ hc
      cases heq
      exact hd
    · obtain ⟨c, rfl, -⟩ := hblank t ht
      rfl

theorem Gap.isProper_kept {g : Gap} (h : g.IsProper) : g.kept.IsProper := by
  intro t ht
  obtain ⟨u, hu, ht⟩ := List.mem_flatMap.1 ht
  cases u with
  | blank c =>
    obtain rfl := List.mem_singleton.1 ht
    exact h _ hu
  | line comment =>
    obtain rfl := List.mem_singleton.1 ht
    rfl
  | block comment => cases ht

theorem Gap.isJson_append (g g' : Gap) : Gap.IsJson (g ++ g') ↔ g.IsJson ∧ g'.IsJson := by
  constructor
  · rintro ⟨hblanks, hnone⟩
    exact ⟨⟨fun c hc => hblanks c (List.mem_append_left _ hc),
        fun t ht => hnone t (List.mem_append_left _ ht)⟩,
      ⟨fun c hc => hblanks c (List.mem_append_right _ hc),
        fun t ht => hnone t (List.mem_append_right _ ht)⟩⟩
  · rintro ⟨h, h'⟩
    exact ⟨fun c hc => (List.mem_append.1 hc).elim (h.blanks c) (h'.blanks c),
      fun t ht => (List.mem_append.1 ht).elim (h.noComment t) (h'.noComment t)⟩

theorem Label.isJson_kept (l : Label) : l.kept.IsJson ↔ l.IsTidy := by
  cases l with
  | element => exact Iff.rfl
  | key inner name before after => exact and_congr before.isJson_kept after.isJson_kept

theorem Label.isProper_kept {kind : Kind} {l : Label} (h : l.IsProper kind) :
    l.kept.IsProper kind := by
  cases l with
  | element => exact h
  | key inner name before after =>
    exact ⟨h.1, h.2.1, Gap.isProper_kept h.2.2.1, Gap.isProper_kept h.2.2.2⟩

/-- A comma behind a last part leaves JSON if its gap is of JSON; else the comma has stayed, or a
blank that is none of JSON. -/
theorem isJson_leftBlanks (comma : Option Gap) :
    (leftBlanks comma).IsJson ∧ keptComma comma = none ↔ ∀ g, comma = some g → g.IsJson := by
  cases comma with
  | none =>
    have hnil : Gap.IsJson [] := ⟨fun c hc => (by cases hc), fun t ht => (by cases ht)⟩
    simp [leftBlanks, keptComma, hnil]
  | some g =>
    by_cases hnone : g.HasNoComment
    · have hjson : g.IsJson ↔ g.HasJsonBlanks := ⟨fun h => h.blanks, fun h => ⟨h, hnone⟩⟩
      simp [leftBlanks, keptComma, hnone, g.isJson_kept, hjson]
    · have hjson : ¬ g.IsJson := fun h => hnone h.noComment
      simp [keptComma, hnone, hjson]

mutual

/-- What is left is JSON itself, if the spelling is tidy and only then. -/
theorem Spelling.isJson_kept : ∀ t : Spelling, t.kept.IsJson ↔ t.IsTidy
  | .scalar _ _ => Iff.rfl
  | .empty _ lead => lead.isJson_kept
  | .filled _ lead parts => and_congr lead.isJson_kept (Parts.isJson_kept parts)

theorem Parts.isJson_kept : ∀ ps : Parts, ps.kept.IsJson ↔ ps.IsTidy
  | .last label part after comma => by
    simp only [Parts.kept, Parts.IsJson, Parts.IsTidy, label.isJson_kept,
      Spelling.isJson_kept part, Gap.isJson_append, after.isJson_kept, and_assoc,
      isJson_leftBlanks comma]
  | .more label part after before others => by
    simp only [Parts.kept, Parts.IsJson, Parts.IsTidy, label.isJson_kept,
      Spelling.isJson_kept part, after.isJson_kept, before.isJson_kept, Parts.isJson_kept others]

end

theorem isProper_leftBlanks {comma : Option Gap} (h : ∀ g, comma = some g → g.IsProper) :
    (leftBlanks comma).IsProper ∧ ∀ g, keptComma comma = some g → g.IsProper := by
  cases comma with
  | none => exact ⟨fun t ht => (by cases ht), fun g hg => (by cases hg)⟩
  | some g =>
    have hkept := Gap.isProper_kept (h g rfl)
    by_cases hnone : g.HasNoComment
    · simpa [leftBlanks, keptComma, hnone] using hkept
    · simpa [leftBlanks, keptComma, hnone, Gap.IsProper] using hkept

mutual

theorem Spelling.isProper_kept : ∀ t : Spelling, t.IsProper → t.kept.IsProper
  | .scalar _ _, h => h
  | .empty _ _, h => Gap.isProper_kept h
  | .filled kind _ parts, h => ⟨Gap.isProper_kept h.1, Parts.isProper_kept kind parts h.2⟩

theorem Parts.isProper_kept (kind : Kind) : ∀ ps : Parts, ps.IsProper kind →
    ps.kept.IsProper kind
  | .last _ part _ _, ⟨hlabel, hpart, hafter, hcomma⟩ =>
    have hleft := isProper_leftBlanks hcomma
    ⟨Label.isProper_kept hlabel, Spelling.isProper_kept part hpart,
      fun t ht => (List.mem_append.1 ht).elim (Gap.isProper_kept hafter t) (hleft.1 t), hleft.2⟩
  | .more _ part _ _ others, ⟨hlabel, hpart, hafter, hbefore, hothers⟩ =>
    ⟨Label.isProper_kept hlabel, Spelling.isProper_kept part hpart, Gap.isProper_kept hafter,
      Gap.isProper_kept hbefore, Parts.isProper_kept kind others hothers⟩

end

/-! ## Single steps -/

theorem withoutCommentsFrom_keep (n : Nat) (cs : List Char) :
    withoutCommentsFrom n 0 cs = cs.take n ++ withoutCommentsFrom 0 0 (cs.drop n) := by
  induction n generalizing cs with
  | zero => simp
  | succ n ih =>
    cases cs with
    | nil => rfl
    | cons c cs => simp [withoutCommentsFrom, ih]

theorem withoutCommentsFrom_drop (n : Nat) (cs : List Char) :
    withoutCommentsFrom 0 n cs = withoutCommentsFrom 0 0 (cs.drop n) := by
  induction n generalizing cs with
  | zero => simp
  | succ n ih =>
    cases cs with
    | nil => rfl
    | cons c cs => simp [withoutCommentsFrom, ih]

/-- Characters that are kept with the one before them stay. -/
theorem withoutCommentsFrom_of_keep {c : Char} {kept rest : List Char}
    (h : verdict c (kept ++ rest) = .keep kept.length) :
    withoutCommentsFrom 0 0 (c :: (kept ++ rest)) =
      c :: (kept ++ withoutCommentsFrom 0 0 rest) := by
  rw [withoutCommentsFrom, h]
  dsimp only
  rw [withoutCommentsFrom_keep, List.take_left, List.drop_left]

/-- Characters that are dropped with the one before them are gone. -/
theorem withoutCommentsFrom_of_drop {c : Char} {dropped rest : List Char}
    (h : verdict c (dropped ++ rest) = .drop dropped.length) :
    withoutCommentsFrom 0 0 (c :: (dropped ++ rest)) = withoutCommentsFrom 0 0 rest := by
  rw [withoutCommentsFrom, h]
  dsimp only
  rw [withoutCommentsFrom_drop, List.drop_left]

/-- Whether a character begins neither a literal nor a comment, and is no comma. -/
structure IsPlain (c : Char) : Prop where
  ne_quote : c ≠ '"'
  ne_slash : c ≠ '/'
  ne_comma : c ≠ ','

theorem withoutCommentsFrom_cons_plain {c : Char} (h : IsPlain c) (rest : List Char) :
    withoutCommentsFrom 0 0 (c :: rest) = c :: withoutCommentsFrom 0 0 rest := by
  obtain ⟨hquote, hslash, hcomma⟩ := h
  have hverdict : verdict c ([] ++ rest) = .keep ([] : List Char).length := by
    simp [verdict, hquote, hslash, hcomma]
  exact withoutCommentsFrom_of_keep hverdict

theorem withoutCommentsFrom_plain {cs : List Char} (h : ∀ c ∈ cs, IsPlain c) (rest : List Char) :
    withoutCommentsFrom 0 0 (cs ++ rest) = cs ++ withoutCommentsFrom 0 0 rest := by
  induction cs with
  | nil => rfl
  | cons c cs ih =>
    rw [List.cons_append, withoutCommentsFrom_cons_plain (h c (by simp)),
      ih fun d hd => h d (by simp [hd])]
    rfl

/-! ## Tokens -/

theorem literalLength_cons {c : Char} (cs : List Char) (hquote : c ≠ '"') (hbackslash : c ≠ '\\') :
    literalLength (c :: cs) = literalLength cs + 1 := by
  rw [literalLength]
  · simp [hquote]
  all_goals simp_all

theorem IsHexOf.ne {c : Char} {k : Nat} (h : IsHexOf c k) : c ≠ '"' ∧ c ≠ '\\' := by
  have hdigit := h.hexDigit?_eq
  constructor <;> rintro rfl <;> cases hdigit

theorem Code.literalLength_eq {a b c d : Char} {n : Nat} (h : Code a b c d n) (cs : List Char) :
    literalLength (a :: b :: c :: d :: cs) = literalLength cs + 4 := by
  obtain ⟨ha, hb, hc, hd⟩ := h
  rw [literalLength_cons _ ha.ne.1 ha.ne.2, literalLength_cons _ hb.ne.1 hb.ne.2,
    literalLength_cons _ hc.ne.1 hc.ne.2, literalLength_cons _ hd.ne.1 hd.ne.2]

/-- A literal ends at its closing quote. -/
theorem Literal.literalLength_eq {inner xs : List Char} (h : Literal inner xs) (rest : List Char) :
    literalLength (inner ++ '"' :: rest) = inner.length + 1 := by
  induction h with
  | nil => rfl
  | plain hquote hbackslash _ _ ih =>
    rw [List.cons_append, literalLength_cons _ hquote hbackslash, ih, List.length_cons]
  | escape _ _ ih =>
    simp only [List.cons_append, literalLength, ih, List.length_cons]
  | code hcode _ _ ih =>
    simp only [List.cons_append, literalLength, hcode.literalLength_eq, ih, List.length_cons]
  | half hcode _ _ _ ih =>
    simp only [List.cons_append, literalLength, hcode.literalLength_eq, ih, List.length_cons]
  | pair hhigh hlow _ _ _ ih =>
    simp only [List.cons_append, literalLength, hhigh.literalLength_eq, hlow.literalLength_eq, ih,
      List.length_cons]

/-- A literal stays as it is. -/
theorem withoutCommentsFrom_literal {inner xs : List Char} (h : Literal inner xs)
    (rest : List Char) :
    withoutCommentsFrom 0 0 ('"' :: (inner ++ '"' :: rest)) =
      '"' :: (inner ++ '"' :: withoutCommentsFrom 0 0 rest) := by
  have hverdict : verdict '"' ((inner ++ ['"']) ++ rest) = .keep (inner ++ ['"']).length := by
    simp [verdict, h.literalLength_eq]
  have hstep := withoutCommentsFrom_of_keep hverdict
  simpa using hstep

theorem IsNumberChar.isPlain {c : Char} (h : IsNumberChar c) : IsPlain c := by
  refine ⟨?_, ?_, ?_⟩ <;> rintro rfl <;> exact absurd h (by simp [IsNumberChar, Char.isDigit])

/-- A value without parts stays as it is. -/
theorem withoutCommentsFrom_scalar {text : List Char} {v : Value} (h : Scalar text v)
    (rest : List Char) :
    withoutCommentsFrom 0 0 (text ++ rest) = text ++ withoutCommentsFrom 0 0 rest := by
  cases h with
  | null => rfl
  | true => rfl
  | false => rfl
  | number h => exact withoutCommentsFrom_plain (fun c hc => (h.isNumberChar c hc).isPlain) rest
  | string h => simpa using withoutCommentsFrom_literal h rest

theorem Kind.isPlain_opening (kind : Kind) : IsPlain kind.opening := by
  cases kind <;> exact ⟨by decide, by decide, by decide⟩

theorem Kind.isPlain_closing (kind : Kind) : IsPlain kind.closing := by
  cases kind <;> exact ⟨by decide, by decide, by decide⟩

/-! ## Gaps -/

theorem isPlain_of_isBlank {c : Char} (h : Text.isBlank c = true) : IsPlain c := by
  refine ⟨?_, ?_, ?_⟩ <;> rintro rfl <;> exact absurd h (by decide)

/-- A block comment ends at the first mark that closes one. -/
theorem blockLength_append {comment : List Char} (h : ¬ ['*', '/'] <:+: comment)
    (rest : List Char) :
    blockLength (comment ++ '*' :: '/' :: rest) = comment.length + 2 := by
  induction comment with
  | nil => rfl
  | cons c comment ih =>
    have hinner : ¬ ['*', '/'] <:+: comment := fun hin =>
      h (hin.trans (List.suffix_cons c _).isInfix)
    rw [List.cons_append, blockLength, ih hinner, List.length_cons]
    · -- a mark that began with `c` would end with the first character behind it in the comment
      rintro cs rfl hcs
      cases comment with
      | nil => cases hcs
      | cons d comment =>
        obtain ⟨rfl, -⟩ := List.cons_eq_cons.1 hcs
        exact h ⟨[], comment, rfl⟩

/-- A line comment ends with its line, or with the text. -/
theorem verdict_line {comment rest : List Char} (h : '\n' ∉ comment)
    (hrest : ∀ c ∈ rest.head?, c = '\n') :
    verdict '/' (('/' :: comment) ++ rest) = .drop ('/' :: comment).length := by
  have hline : ∀ c ∈ comment, (c != '\n') = true := fun c hc => by
    simpa using fun heq : c = '\n' => h (heq ▸ hc)
  have hstop : rest.takeWhile (· != '\n') = [] := by
    cases rest with
    | nil => rfl
    | cons c rest => simp [hrest c rfl]
  simp [verdict, List.takeWhile_append_of_pos hline, hstop]

theorem withoutCommentsFrom_trivium {t : Trivium} (h : t.IsProper) (rest : List Char) :
    withoutCommentsFrom 0 0 (t.text ++ rest) = t.kept.text ++ withoutCommentsFrom 0 0 rest := by
  cases t with
  | blank c => exact withoutCommentsFrom_cons_plain (isPlain_of_isBlank h) rest
  | line comment =>
    have hstep := withoutCommentsFrom_of_drop
      (@verdict_line comment ('\n' :: rest) h fun c hc => (Option.some.inj hc).symm)
    have hend : IsPlain '\n' := isPlain_of_isBlank rfl
    rw [withoutCommentsFrom_cons_plain hend] at hstep
    simpa [Trivium.text, Trivium.kept, Gap.text] using hstep
  | block comment =>
    have hverdict : verdict '/' (('*' :: (comment ++ ['*', '/'])) ++ rest) =
        .drop ('*' :: (comment ++ ['*', '/'])).length := by
      simp [verdict, blockLength_append h]
    have hstep := withoutCommentsFrom_of_drop hverdict
    simpa [Trivium.text, Trivium.kept, Gap.text] using hstep

/-- Of a gap only blanks are left. -/
theorem withoutCommentsFrom_gap {g : Gap} (h : g.IsProper) (rest : List Char) :
    withoutCommentsFrom 0 0 (g.text ++ rest) = g.kept.text ++ withoutCommentsFrom 0 0 rest := by
  induction g with
  | nil => rfl
  | cons t g ih =>
    have htext : Gap.text (t :: g) ++ rest = t.text ++ (Gap.text g ++ rest) := by
      simp [Gap.text]
    have hkept : (Gap.kept (t :: g)).text = t.kept.text ++ (Gap.kept g).text := by
      simp [Gap.text, Gap.kept]
    rw [htext, withoutCommentsFrom_trivium (h t (by simp)), ih fun u hu => h u (by simp [hu]),
      hkept, List.append_assoc]

theorem Gap.text_append (g g' : Gap) : Gap.text (g ++ g') = g.text ++ g'.text :=
  List.flatMap_append

/-! ## Commas -/

theorem closesNext_cons_blank {c : Char} (h : Text.isBlank c = true) (cs : List Char) :
    closesNext (c :: cs) = closesNext cs := by
  simp [closesNext, h]

theorem closesNext_cons_of_ne {c : Char} (h : Text.isBlank c = false) (hbracket : c ≠ ']')
    (hbrace : c ≠ '}') (cs : List Char) : closesNext (c :: cs) = false := by
  simp [closesNext, h, hbracket, hbrace]

/-- A bracket is seen through blanks, but not through comments. -/
theorem closesNext_gap {g : Gap} (h : g.IsProper) (rest : List Char) :
    closesNext (g.text ++ rest) = (decide g.HasNoComment && closesNext rest) := by
  induction g with
  | nil => simp [Gap.text, Gap.HasNoComment]
  | cons t g ih =>
    have htext : Gap.text (t :: g) ++ rest = t.text ++ (Gap.text g ++ rest) := by
      simp [Gap.text]
    have ih := ih fun u hu => h u (by simp [hu])
    rw [htext]
    cases t with
    | blank c =>
      have hblank : Text.isBlank c = true := h (.blank c) (by simp)
      have hsame : Gap.HasNoComment (.blank c :: g) ↔ Gap.HasNoComment g := by
        simp [Gap.HasNoComment, Trivium.isComment]
      simp only [hsame]
      rw [← ih]
      exact closesNext_cons_blank hblank _
    | line comment =>
      have hcomment : ¬ Gap.HasNoComment (.line comment :: g) := by
        simp [Gap.HasNoComment, Trivium.isComment]
      rw [decide_eq_false hcomment]
      exact closesNext_cons_of_ne rfl (by decide) (by decide) _
    | block comment =>
      have hcomment : ¬ Gap.HasNoComment (.block comment :: g) := by
        simp [Gap.HasNoComment, Trivium.isComment]
      rw [decide_eq_false hcomment]
      exact closesNext_cons_of_ne rfl (by decide) (by decide) _

theorem Kind.closesNext_closing (kind : Kind) (rest : List Char) :
    closesNext (kind.closing :: rest) = true := by
  cases kind <;> rfl

theorem closesNext_parts {kind : Kind} {ps : Parts} (h : ps.IsProper kind) (rest : List Char) :
    closesNext (ps.text ++ rest) = false := by
  obtain ⟨c, cs, htext, hc⟩ := Parts.text_cons h
  obtain ⟨hblank, hbracket, hbrace, -⟩ := hc.ne
  rw [htext]
  exact closesNext_cons_of_ne hblank hbracket hbrace _

theorem withoutCommentsFrom_comma (rest : List Char) :
    withoutCommentsFrom 0 0 (',' :: rest) =
      if closesNext rest then withoutCommentsFrom 0 0 rest
      else ',' :: withoutCommentsFrom 0 0 rest := by
  cases hcloses : closesNext rest
  · have hverdict : verdict ',' ([] ++ rest) = .keep ([] : List Char).length := by
      simp [verdict, hcloses]
    exact withoutCommentsFrom_of_keep hverdict
  · have hverdict : verdict ',' ([] ++ rest) = .drop ([] : List Char).length := by
      simp [verdict, hcloses]
    exact withoutCommentsFrom_of_drop hverdict

/-- A comma behind a last part goes if nothing but blanks follows it. -/
theorem withoutCommentsFrom_commaText (kind : Kind) {comma : Option Gap}
    (h : ∀ g, comma = some g → g.IsProper) (rest : List Char) :
    withoutCommentsFrom 0 0 (commaText comma ++ kind.closing :: rest) =
      (leftBlanks comma).text ++ (commaText (keptComma comma) ++
        kind.closing :: withoutCommentsFrom 0 0 rest) := by
  have hclosing := withoutCommentsFrom_cons_plain kind.isPlain_closing rest
  cases comma with
  | none => exact hclosing
  | some g =>
    have hcloses := closesNext_gap (h g rfl) (kind.closing :: rest)
    rw [kind.closesNext_closing, Bool.and_true] at hcloses
    have hgap := withoutCommentsFrom_gap (h g rfl) (kind.closing :: rest)
    rw [hclosing] at hgap
    rw [commaText, List.cons_append, withoutCommentsFrom_comma, hcloses, hgap]
    by_cases hnone : g.HasNoComment
    · simp [leftBlanks, keptComma, commaText, hnone]
    · simp [leftBlanks, keptComma, commaText, hnone, Gap.text]

/-! ## Spellings -/

theorem withoutCommentsFrom_label {kind : Kind} {l : Label} (h : l.IsProper kind)
    (rest : List Char) :
    withoutCommentsFrom 0 0 (l.text ++ rest) = l.kept.text ++ withoutCommentsFrom 0 0 rest := by
  cases l with
  | element => rfl
  | key inner name before after =>
    obtain ⟨-, hname, hbefore, hafter⟩ := h
    have hcolon : IsPlain ':' := ⟨by decide, by decide, by decide⟩
    simp only [Label.text, Label.kept, List.cons_append, List.append_assoc]
    rw [withoutCommentsFrom_literal hname, withoutCommentsFrom_gap hbefore,
      withoutCommentsFrom_cons_plain hcolon, withoutCommentsFrom_gap hafter]

mutual

/-- Of a spelling what is left is the text of a spelling. -/
theorem withoutCommentsFrom_spelling : ∀ (t : Spelling), t.IsProper → ∀ rest : List Char,
    withoutCommentsFrom 0 0 (t.text ++ rest) = t.kept.text ++ withoutCommentsFrom 0 0 rest
  | .scalar _ _, h, rest => withoutCommentsFrom_scalar h rest
  | .empty kind lead, h, rest => by
    simp only [Spelling.text, Spelling.kept, List.cons_append, List.append_assoc, List.nil_append]
    rw [withoutCommentsFrom_cons_plain kind.isPlain_opening, withoutCommentsFrom_gap h,
      withoutCommentsFrom_cons_plain kind.isPlain_closing]
  | .filled kind lead parts, h, rest => by
    simp only [Spelling.text, Spelling.kept, List.cons_append, List.append_assoc, List.nil_append]
    rw [withoutCommentsFrom_cons_plain kind.isPlain_opening, withoutCommentsFrom_gap h.1,
      withoutCommentsFrom_parts kind parts h.2]

/-- The same for the parts of a value, with the bracket behind them. -/
theorem withoutCommentsFrom_parts (kind : Kind) : ∀ (ps : Parts), ps.IsProper kind →
    ∀ rest : List Char, withoutCommentsFrom 0 0 (ps.text ++ kind.closing :: rest) =
      ps.kept.text ++ kind.closing :: withoutCommentsFrom 0 0 rest
  | .last label part after comma, h, rest => by
    obtain ⟨hlabel, hpart, hafter, hcomma⟩ := h
    simp only [Parts.text, Parts.kept, List.append_assoc, Gap.text_append]
    rw [withoutCommentsFrom_label hlabel, withoutCommentsFrom_spelling part hpart,
      withoutCommentsFrom_gap hafter, withoutCommentsFrom_commaText kind hcomma]
  | .more label part after before others, h, rest => by
    obtain ⟨hlabel, hpart, hafter, hbefore, hothers⟩ := h
    have hcloses : closesNext (before.text ++ (others.text ++ kind.closing :: rest)) = false := by
      rw [closesNext_gap hbefore, closesNext_parts hothers, Bool.and_false]
    simp only [Parts.text, Parts.kept, List.append_assoc, List.cons_append]
    rw [withoutCommentsFrom_label hlabel, withoutCommentsFrom_spelling part hpart,
      withoutCommentsFrom_gap hafter, withoutCommentsFrom_comma, hcloses,
      withoutCommentsFrom_gap hbefore, withoutCommentsFrom_parts kind others hothers]
    rfl

end

/-! ## Whole texts -/

/-- Only blanks are left of a gap. -/
theorem Gap.isBlank_kept {g : Gap} (h : g.IsProper) :
    ∀ c ∈ g.kept.text, Text.isBlank c = true := by
  intro c hc
  obtain ⟨t, ht, hc⟩ := List.mem_flatMap.1 hc
  obtain ⟨u, hu, ht⟩ := List.mem_flatMap.1 ht
  cases u with
  | blank d =>
    obtain rfl := List.mem_singleton.1 ht
    obtain rfl := List.mem_singleton.1 hc
    exact h _ hu
  | line comment =>
    obtain rfl := List.mem_singleton.1 ht
    obtain rfl := List.mem_singleton.1 hc
    rfl
  | block comment => cases ht

/-- Blanks around a text that begins and ends with none are stripped. -/
theorem strip_append {before cs after : List Char} (hbefore : ∀ c ∈ before, Text.isBlank c = true)
    (hafter : ∀ c ∈ after, Text.isBlank c = true)
    (hhead : ∃ c ds, cs = c :: ds ∧ Text.isBlank c = false)
    (hlast : ∃ ds c, cs = ds ++ [c] ∧ Text.isBlank c = false) :
    Text.strip Text.isBlank (before ++ (cs ++ after)) = cs := by
  have hstart : Text.stripStart Text.isBlank (before ++ (cs ++ after)) = cs ++ after := by
    obtain ⟨c, ds, rfl, hc⟩ := hhead
    rw [Text.stripStart, List.dropWhile_append_of_pos hbefore]
    simp [hc]
  have hend : Text.stripEnd Text.isBlank (cs ++ after) = cs := by
    obtain ⟨ds, c, rfl, hc⟩ := hlast
    have hreverse : ∀ d ∈ after.reverse, Text.isBlank d = true := fun d hd =>
      hafter d (List.mem_reverse.1 hd)
    rw [Text.stripEnd, List.reverse_append, List.dropWhile_append_of_pos hreverse]
    simp [hc]
  rw [Text.strip, hstart, hend]

/-- The comment that ends a text is gone. -/
theorem withoutCommentsFrom_ending {ending : Option (List Char)}
    (h : ∀ comment, ending = some comment → '\n' ∉ comment) :
    withoutCommentsFrom 0 0 (Commented.endingText ending) = [] := by
  cases ending with
  | none => rfl
  | some comment =>
    have hstep := withoutCommentsFrom_of_drop
      (@verdict_line comment [] (h comment rfl) fun c hc => by cases hc)
    rwa [List.append_nil] at hstep

/-- Of a text with one value what is left is the spelling of that value. -/
theorem withoutComments_text {t : Commented} (h : t.IsProper) :
    withoutComments t.text = t.spelling.kept.text := by
  have hproper := t.spelling.isProper_kept h.spelling
  have hhead : ∃ c cs, t.spelling.kept.text = c :: cs ∧ Text.isBlank c = false := by
    obtain ⟨c, cs, htext, hc⟩ := Spelling.text_cons hproper
    exact ⟨c, cs, htext, hc.ne.1⟩
  rw [withoutComments, Commented.text, withoutCommentsFrom_gap h.before,
    withoutCommentsFrom_spelling t.spelling h.spelling, withoutCommentsFrom_gap h.after,
    withoutCommentsFrom_ending h.ending, List.append_nil]
  exact strip_append (Gap.isBlank_kept h.before) (Gap.isBlank_kept h.after) hhead
    (Spelling.text_concat hproper)

end DeclBundle.Json
