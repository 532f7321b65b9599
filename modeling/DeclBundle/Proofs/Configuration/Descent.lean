import DeclBundle.Proofs.Configuration.Entries
import DeclBundle.Proofs.Files.Standing
import DeclBundle.Proofs.Path.Trailing
set_option autoImplicit false

/-!
# Excluding what stands below

An entry that excludes a directory excludes all that stands beneath it, at any depth
(`isExcluded_descends`), whatever pattern the entry is: a bracket that is left open in it stays open
behind the slash and the star that are put behind it.  An entry without patterns excludes just what
lies under it (`isExcluded_iff_isUnder`).
-/

namespace DeclBundle.Files

/-! ## A slash and a star behind a pattern -/

/-- A class that is open at the end of a pattern is not closed by a slash and a star. -/
theorem bracketed?_append_star (cs : List Char) : bracketed? (cs ++ ['/', '*']) = bracketed? cs := by
  rcases bracketed?_append_slash cs ['*'] with ⟨inner, hinner, houter, -⟩ | ⟨hnone, -⟩
  · rw [hinner, houter]
  · obtain ⟨hstart, hle⟩ := classStart_append_slash cs ['*']
    have hrest : ['/', '*'].takeWhile (· != ']') = ['/', '*'] := by decide
    have hlength : (cs.drop (classStart cs)).length = cs.length - classStart cs := List.length_drop
    have hshort : ((cs.drop (classStart cs)).takeWhile (· != ']')).length ≤
        (cs.drop (classStart cs)).length := (List.takeWhile_prefix _).length_le
    -- the characters that the class could list go to the end of the pattern
    have hopen : ((cs.drop (classStart cs)).takeWhile (· != ']')).length =
        (cs.drop (classStart cs)).length := by
      by_contra hclosed
      rw [bracketed?_eq, if_pos (by omega)] at hnone
      cases hnone
    rw [hnone, bracketed?_eq]
    simp only [hstart, List.drop_append_of_le_length hle, List.takeWhile_append, if_pos hopen, hrest]
    refine if_neg ?_
    simp only [List.length_append, hlength]
    omega

/-- With a slash and a star behind it, a pattern has a slash and a star more. -/
theorem piecesFrom_append_star {passed : Nat} {cs : List Char} (hpassed : passed ≤ cs.length) :
    piecesFrom passed (cs ++ ['/', '*']) = piecesFrom passed cs ++ [.literal '/', .run] := by
  induction cs generalizing passed with
  | nil =>
    obtain rfl : passed = 0 := by simpa using hpassed
    rfl
  | cons c cs ih =>
    cases passed with
    | succ passed => exact ih (by simpa using hpassed)
    | zero =>
      simp only [List.cons_append, piecesFrom, bracketed?_append_star]
      cases hclass : bracketed? cs with
      | none => simp only [ih (Nat.zero_le _)]; split_ifs <;> rfl
      | some inner =>
        have hinner : inner.length + 1 ≤ cs.length := by
          rcases bracketed?_append_slash cs [] with ⟨other, hother, -, hlt⟩ | ⟨hnone, -⟩
          · rw [hclass] at hother
            obtain rfl := Option.some.inj hother
            exact hlt
          · rw [hclass] at hnone
            cases hnone
        simp only [ih (Nat.zero_le _), ih hinner]
        split_ifs <;> rfl

/-! ## Longer texts -/

/-- A text fits two patterns one behind the other if it falls into two texts that fit them. -/
theorem exists_of_fits_append {ps qs : List Piece} {cs : List Char} (h : fits (ps ++ qs) cs = true) :
    ∃ before after, cs = before ++ after ∧ fits ps before = true ∧ fits qs after = true := by
  induction ps generalizing cs with
  | nil => exact ⟨[], cs, rfl, rfl, h⟩
  | cons p ps ih =>
    by_cases hrun : p = .run
    · subst hrun
      rw [List.cons_append, fits] at h
      obtain ⟨skipped, rest, rfl, hrest⟩ := fromSomewhere_iff.1 h
      obtain ⟨before, after, rfl, hbefore, hafter⟩ := ih hrest
      refine ⟨skipped ++ before, after, by simp, ?_, hafter⟩
      rw [fits]
      exact fromSomewhere_iff.2 ⟨skipped, before, rfl, hbefore⟩
    · cases cs with
      | nil => cases p <;> simp_all [fits]
      | cons c cs =>
        have hsplit : p.holds c = true ∧ fits (ps ++ qs) cs = true := by
          cases p <;> simp_all [fits]
        obtain ⟨before, after, rfl, hbefore, hafter⟩ := ih hsplit.2
        refine ⟨c :: before, after, rfl, ?_, hafter⟩
        cases p <;> simp_all [fits]

theorem fits_run (cs : List Char) : fits [.run] cs = true := by
  rw [fits]
  exact fromSomewhere_iff.2 ⟨cs, [], by simp, rfl⟩

/-- What fits a pattern with a star at its end still fits it with more behind. -/
theorem fits_append_of_run {ps : List Piece} {cs : List Char} (h : fits (ps ++ [.run]) cs = true)
    (ds : List Char) : fits (ps ++ [.run]) (cs ++ ds) = true := by
  obtain ⟨before, after, rfl, hbefore, -⟩ := exists_of_fits_append h
  rw [List.append_assoc]
  exact fits_append hbefore (fits_run (after ++ ds))

/-- A pattern that nothing fits is fitted by everything, unless it is none. -/
theorem fits_of_fits_nil {ps : List Piece} (hne : ps ≠ []) (h : fits ps [] = true) (cs : List Char) :
    fits ps cs = true := by
  cases ps with
  | nil => exact absurd rfl hne
  | cons p ps =>
    cases p with
    | run =>
      rw [fits] at h ⊢
      exact fromSomewhere_iff.2 ⟨cs, [], by simp, h⟩
    | any => cases h
    | oneOf negated ranges => cases h
    | literal c => cases h

end DeclBundle.Files

namespace DeclBundle.Configuration

open Text
open DeclBundle.Path (IsName ofRoot stripped)

variable {entry path directory : String}

/-! ## Below an excluded directory -/

/-- The ways in which an entry excludes a path. -/
theorem isExcluded_iff : isExcluded path entry = true ↔
    path = stripped entry ∨ beginsWith path (stripped entry ++ "/") = true ∨
      Files.fits (Files.pieces (stripped entry).toList) path.toList = true ∨
      Files.fits (Files.pieces (stripped entry).toList ++ [.literal '/'] ++ [.run])
        path.toList = true := by
  have hstar : Files.pieces (stripped entry ++ "/*").toList =
      Files.pieces (stripped entry).toList ++ [.literal '/'] ++ [.run] := by
    rw [String.toList_append, List.append_assoc]
    exact Files.piecesFrom_append_star (Nat.zero_le _)
  rw [← hstar, ← Files.matchesPattern_eq, ← Files.matchesPattern_eq]
  simp only [isExcluded, stripped, Bool.or_eq_true, beq_iff_eq, or_assoc]

/-- What is excluded as a directory is excluded with all that stands behind a slash. -/
theorem isExcluded_append_slash (h : isExcluded directory entry = true) (rest : String) :
    isExcluded (directory ++ "/" ++ rest) entry = true := by
  have hlist : (directory ++ "/" ++ rest).toList = directory.toList ++ ('/' :: rest.toList) := by
    simp
  rcases isExcluded_iff.1 h with rfl | hbegins | hfits | hfits
  · refine isExcluded_iff.2 (.inr (.inl (beginsWith_iff.2 ?_)))
    exact ⟨rest.toList, by simp⟩
  · refine isExcluded_iff.2 (.inr (.inl (beginsWith_iff.2 ?_)))
    rw [hlist]
    exact (beginsWith_iff.1 hbegins).trans (List.prefix_append _ _)
  · refine isExcluded_iff.2 (.inr (.inr (.inr ?_)))
    rw [hlist, List.append_assoc]
    exact Files.fits_append hfits (by simpa [Files.fits, Files.Piece.holds] using Files.fits_run _)
  · refine isExcluded_iff.2 (.inr (.inr (.inr ?_)))
    rw [hlist]
    exact Files.fits_append_of_run hfits _

/-- Without its slashes at the end, a rooted path is empty, or begins with a slash and goes on. -/
theorem stripped_cases (h : IsRooted entry) :
    stripped entry = "" ∨ ∃ c cs, (stripped entry).toList = '/' :: c :: cs := by
  obtain ⟨rest, hrest⟩ := Path.isAbsolute_iff.1 h.isAbsolute
  obtain ⟨slashes, hsplit, -⟩ := Path.exists_stripped_append entry
  have hends := Path.finishesWith_stripped entry
  have hlist : (stripped entry).toList ++ slashes.toList = '/' :: rest := by
    rw [← String.toList_append, ← hsplit, hrest]
  cases hstripped : (stripped entry).toList with
  | nil => exact .inl (String.toList_eq_nil_iff.1 hstripped)
  | cons c cs =>
    rw [hstripped] at hlist
    obtain ⟨rfl, -⟩ := List.cons.inj hlist
    cases cs with
    | nil =>
      exfalso
      have hslash : finishesWith (stripped entry) "/" = true :=
        finishesWith_iff.2 ⟨[], by rw [hstripped]; rfl⟩
      rw [hends] at hslash
      cases hslash
    | cons d ds => exact .inr ⟨d, ds, rfl⟩

theorem piecesFrom_ne_nil (c : Char) (cs : List Char) : Files.piecesFrom 0 (c :: cs) ≠ [] := by
  unfold Files.piecesFrom
  repeat' split
  all_goals simp

/-- An entry that excludes the root excludes every path below it. -/
theorem isExcluded_of_root (hentry : IsRooted entry) (h : isExcluded "/" entry = true)
    (hpath : Path.isAbsolute path = true) : isExcluded path entry = true := by
  obtain ⟨rest, hrest⟩ := Path.isAbsolute_iff.1 hpath
  have hroot : "/".toList = ['/'] := rfl
  rcases isExcluded_iff.1 h with heq | hbegins | hfits | hfits
  · rcases stripped_cases hentry with hempty | ⟨c, cs, hlist⟩
    · rw [hempty] at heq
      exact absurd heq (by decide)
    · rw [← heq] at hlist
      cases hlist
  · refine isExcluded_iff.2 (.inr (.inl (beginsWith_iff.2 ?_)))
    rcases stripped_cases hentry with hempty | ⟨c, cs, hlist⟩
    · rw [hempty, hrest]
      exact ⟨rest, rfl⟩
    · have hlength := (beginsWith_iff.1 hbegins).length_le
      rw [String.toList_append, hlist] at hlength
      simp at hlength
  · refine isExcluded_iff.2 (.inr (.inr (.inl ?_)))
    rcases stripped_cases hentry with hempty | ⟨c, cs, hlist⟩
    · rw [hempty] at hfits
      cases hfits
    · have hpieces : Files.pieces (stripped entry).toList =
          .literal '/' :: Files.piecesFrom 0 (c :: cs) := by
        rw [hlist]
        rfl
      rw [hpieces, hroot] at hfits
      rw [hpieces, hrest]
      have hnil : Files.fits (Files.piecesFrom 0 (c :: cs)) [] = true := by
        simpa [Files.fits, Files.Piece.holds] using hfits
      have hall := Files.fits_of_fits_nil (piecesFrom_ne_nil c cs) hnil rest
      simpa [Files.fits, Files.Piece.holds] using hall
  · refine isExcluded_iff.2 (.inr (.inr (.inr ?_)))
    have hmore := Files.fits_append_of_run hfits rest
    rwa [hrest]

/-- An entry that excludes a directory excludes all that stands beneath it. -/
theorem isExcluded_descends (hentry : IsRooted entry) {names : List String}
    (h : isExcluded (ofRoot 1 names) entry = true) (below : List String) :
    isExcluded (ofRoot 1 (names ++ below)) entry = true := by
  by_cases hnames : names = []
  · subst hnames
    exact isExcluded_of_root hentry h (Path.isAbsolute_ofRoot Nat.one_ne_zero _)
  · by_cases hbelow : below = []
    · rwa [hbelow, List.append_nil]
    · rw [ofRoot, Path.ofSegments_append hnames hbelow, ← String.append_assoc, ← String.append_assoc]
      exact isExcluded_append_slash h _

/-! ## Entries without patterns -/

/-- What fits a text, a slash and more begins with the text and a slash. -/
theorem fits_literals_slash {cs ds : List Char} :
    Files.fits (cs.map .literal ++ [.literal '/'] ++ [.run]) ds = true ↔ cs ++ ['/'] <+: ds := by
  have hliterals : cs.map Files.Piece.literal ++ [.literal '/'] = (cs ++ ['/']).map .literal := by
    simp
  rw [hliterals]
  constructor
  · intro h
    obtain ⟨before, after, rfl, hbefore, -⟩ := Files.exists_of_fits_append h
    rw [(Files.fits_literals _ _).1 hbefore]
    exact List.prefix_append _ _
  · rintro ⟨rest, rfl⟩
    exact Files.fits_append ((Files.fits_literals _ _).2 rfl) (Files.fits_run rest)

/-- An entry without patterns excludes what lies under it. -/
theorem isExcluded_iff_isUnder (hpath : Path.isAbsolute path = true) (hentry : IsRooted entry)
    (hplain : Files.isPattern entry = false) :
    isExcluded path entry = true ↔ Path.isUnder path entry = true := by
  have hpieces : Files.pieces (stripped entry).toList = (stripped entry).toList.map .literal := by
    refine Files.pieces_of_not_isPattern fun c hc => ?_
    obtain ⟨slashes, hsplit, -⟩ := Path.exists_stripped_append entry
    have hmem : c ∈ entry.toList := by
      rw [hsplit, String.toList_append]
      exact List.mem_append_left _ hc
    simpa using List.any_eq_false.1 hplain c hmem
  have hbegins : beginsWith path (stripped entry ++ "/") = true ↔
      (stripped entry).toList ++ ['/'] <+: path.toList := by
    rw [beginsWith_iff, String.toList_append]
    rfl
  have hunder : Path.isUnder path entry = true ↔
      path = entry ∨ beginsWith path (stripped entry ++ "/") = true := by
    simp only [Path.isUnder, stripped, Bool.or_eq_true, beq_iff_eq]
  rw [isExcluded_iff, hpieces, Files.fits_literals, fits_literals_slash, ← hbegins, hunder,
    String.toList_inj]
  obtain ⟨slashes, segs, hslashes, hsegs, rfl⟩ := hentry
  by_cases hnil : segs = []
  · -- a root excludes every path, and every path is under it
    subst hnil
    obtain ⟨rest, hrest⟩ := Path.isAbsolute_iff.1 hpath
    have hempty : stripped (ofRoot slashes []) = "" := by
      simp [stripped, Path.toList_ofRoot, stripEnd]
    have hroot : beginsWith path (stripped (ofRoot slashes []) ++ "/") = true := by
      rw [hempty]
      exact beginsWith_iff.2 ⟨rest, by rw [hrest]; rfl⟩
    simp [hroot]
  · have hself : stripped (ofRoot slashes segs) = ofRoot slashes segs := by
      rw [stripped, Path.stripEnd_ofRoot slashes hnil hsegs, String.ofList_toList]
    rw [hself, ← or_assoc, or_self_iff]

end DeclBundle.Configuration
