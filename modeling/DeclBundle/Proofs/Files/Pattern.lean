import DeclBundle.Files.Pattern
import DeclBundle.Proofs.Path.Segments
set_option autoImplicit false

/-!
# Patterns over paths

A pattern over paths can be read segment by segment, where `**` stands for any number of segments of
the path (`FitsSegments`), or as one pattern over the whole text, where the slash is a character as
any other (`matchesPattern`).  The second way takes in what fits in the first way, if every `**`
stands for a segment at least and no class holds a slash (`matchesPattern_of_fitsSegments`).
-/

namespace DeclBundle.Files

/-! ## Segment by segment -/

/-- Whether the segments of a path fit those of a pattern, where a `**` stands for at least so many
segments, and any other segment for one that it matches. -/
inductive FitsSegments (least : Nat) : List String → List String → Prop where
  | nil : FitsSegments least [] []
  | one {segment name : String} {segments names : List String} (hsegment : segment ≠ "**")
      (hname : matchesPattern segment name = true) (h : FitsSegments least segments names) :
      FitsSegments least (segment :: segments) (name :: names)
  | many {between segments names : List String} (hleast : least ≤ between.length)
      (h : FitsSegments least segments names) :
      FitsSegments least ("**" :: segments) (between ++ names)

namespace FitsSegments

variable {least : Nat} {segments names segments' names' : List String}

theorem append (h : FitsSegments least segments names)
    (h' : FitsSegments least segments' names') :
    FitsSegments least (segments ++ segments') (names ++ names') := by
  induction h with
  | nil => exact h'
  | one hsegment hname _ ih => exact .one hsegment hname ih
  | many hleast _ ih =>
    rw [List.append_assoc]
    exact .many hleast ih

/-- Where no `**` is, the number of segments that it stands for at least does not matter. -/
theorem of_not_mem (h : FitsSegments least segments names) (hnone : "**" ∉ segments)
    (least' : Nat) : FitsSegments least' segments names := by
  induction h with
  | nil => exact .nil
  | one hsegment hname _ ih =>
    exact .one hsegment hname (ih fun hmem => hnone (List.mem_cons_of_mem _ hmem))
  | many => exact absurd List.mem_cons_self hnone

/-- A segment alone that stands for something stands for one segment at least. -/
theorem of_names_ne_nil {segment : String} (h : FitsSegments least [segment] names)
    (hne : names ≠ []) : FitsSegments 1 [segment] names := by
  cases h with
  | one hsegment hname h =>
    cases h
    exact .one hsegment hname .nil
  | many _ h =>
    cases h
    rw [List.append_nil] at hne
    exact .many (List.length_pos_iff.2 hne) .nil

/-- If every `**` stands for a segment, a path has a segment where its pattern has one. -/
theorem names_ne_nil (h : FitsSegments 1 segments names) (hne : segments ≠ []) : names ≠ [] := by
  cases h with
  | nil => exact absurd rfl hne
  | one => simp
  | many hleast =>
    intro hnil
    obtain ⟨hbetween, -⟩ := List.append_eq_nil_iff.1 hnil
    simp [hbetween] at hleast

end FitsSegments

/-! ## Patterns with a slash between them -/

/-- Whether a class of a pattern holds a slash; the first `passed` characters are behind already. -/
def hasSlashInClassFrom : Nat → List Char → Bool
  | _, [] => false
  | passed + 1, _ :: cs => hasSlashInClassFrom passed cs
  | 0, c :: cs =>
    if c = '[' then
      match bracketed? cs with
      | some inner => inner.contains '/' || hasSlashInClassFrom (inner.length + 1) cs
      | none => hasSlashInClassFrom 0 cs
    else hasSlashInClassFrom 0 cs

/-- Whether a class of a pattern holds a slash. -/
def hasSlashInClass (pattern : String) : Bool :=
  hasSlashInClassFrom 0 pattern.toList

/-- The number of characters behind an opening bracket that cannot be the closing one. -/
def classStart (cs : List Char) : Nat :=
  let first := if cs.head? = some '!' then 1 else 0
  if (cs.drop first).head? = some ']' then first + 1 else first

theorem bracketed?_eq (cs : List Char) : bracketed? cs =
    let length := classStart cs + ((cs.drop (classStart cs)).takeWhile (· != ']')).length
    if length < cs.length then some (cs.take length) else none := rfl

theorem classStart_append_slash (cs ds : List Char) :
    classStart (cs ++ '/' :: ds) = classStart cs ∧ classStart cs ≤ cs.length := by
  cases cs with
  | nil => simp [classStart]
  | cons c cs =>
    by_cases hc : c = '!'
    · subst hc
      cases cs with
      | nil => simp [classStart]
      | cons d cs => by_cases hd : d = ']' <;> simp [classStart, hd]
    · by_cases hd : c = ']' <;> simp [classStart, hc, hd]

/-- A class that closes before a slash is the same without what follows the slash. -/
theorem bracketed?_append_slash (cs ds : List Char) :
    (∃ inner, bracketed? cs = some inner ∧ bracketed? (cs ++ '/' :: ds) = some inner ∧
      inner.length < cs.length) ∨
    (bracketed? cs = none ∧ ∀ inner, bracketed? (cs ++ '/' :: ds) = some inner → '/' ∈ inner) := by
  obtain ⟨hstart, hle⟩ := classStart_append_slash cs ds
  simp only [bracketed?_eq, hstart, List.drop_append_of_le_length hle, List.takeWhile_append]
  generalize classStart cs = start at hle
  have hlength : (cs.drop start).length = cs.length - start := List.length_drop
  have hbound : ((cs.drop start).takeWhile (· != ']')).length ≤ (cs.drop start).length :=
    (List.takeWhile_prefix _).length_le
  by_cases hopen : ((cs.drop start).takeWhile (· != ']')).length = (cs.drop start).length
  · right
    rw [if_pos hopen, if_neg (by omega)]
    refine ⟨rfl, fun inner hinner => ?_⟩
    obtain ⟨-, htake⟩ := Option.ite_none_right_eq_some.1 hinner
    obtain rfl := Option.some.inj htake
    have hpast : cs.length <
        start + (cs.drop start ++ ('/' :: ds).takeWhile (· != ']')).length := by
      simp
      omega
    generalize start + (cs.drop start ++ ('/' :: ds).takeWhile (· != ']')).length = n at hpast
    obtain ⟨m, rfl⟩ : ∃ m, n = cs.length + (m + 1) := ⟨n - cs.length - 1, by omega⟩
    simp [List.take_append]
  · left
    have hlt : start + ((cs.drop start).takeWhile (· != ']')).length < cs.length := by omega
    rw [if_neg hopen, if_pos hlt, if_pos (by simp; omega),
      List.take_append_of_le_length (Nat.le_of_lt hlt)]
    exact ⟨_, rfl, rfl, by simp; omega⟩

/-- The parts of a pattern with a slash in it are those of what stands before and behind it, if no
class holds a slash. -/
theorem piecesFrom_append_slash {passed : Nat} {cs ds : List Char} (hpassed : passed ≤ cs.length)
    (hclass : hasSlashInClassFrom passed (cs ++ '/' :: ds) = false) :
    piecesFrom passed (cs ++ '/' :: ds) =
        piecesFrom passed cs ++ .literal '/' :: piecesFrom 0 ds ∧
      hasSlashInClassFrom 0 ds = false := by
  induction cs generalizing passed with
  | nil =>
    obtain rfl : passed = 0 := by simpa using hpassed
    exact ⟨rfl, hclass⟩
  | cons c cs ih =>
    cases passed with
    | succ passed => exact ih (by simpa using hpassed) hclass
    | zero =>
      simp only [List.cons_append, hasSlashInClassFrom] at hclass
      by_cases hbracket : c = '['
      · -- the bracket is closed before the slash, or nowhere: else its class holds the slash
        subst hbracket
        rcases bracketed?_append_slash cs ds with ⟨inner, hin, hout, hinner⟩ | ⟨hin, hout⟩
        · simp only [hout, if_true, Bool.or_eq_false_iff] at hclass
          obtain ⟨hpieces, hds⟩ := ih hinner hclass.2
          refine ⟨?_, hds⟩
          simp [piecesFrom, hin, hout, hpieces]
        · cases hfound : bracketed? (cs ++ '/' :: ds) with
          | some inner =>
            simp [hfound, hout inner hfound] at hclass
          | none =>
            simp only [hfound, if_true] at hclass
            obtain ⟨hpieces, hds⟩ := ih (Nat.zero_le _) hclass
            exact ⟨by simp [piecesFrom, hin, hfound, hpieces], hds⟩
      · rw [if_neg hbracket] at hclass
        obtain ⟨hpieces, hds⟩ := ih (Nat.zero_le _) hclass
        refine ⟨?_, hds⟩
        simp only [List.cons_append, piecesFrom, hbracket, if_false, hpieces]
        split
        · rfl
        · split <;> rfl

/-! ## Texts that fit -/

theorem fromSomewhere_iff {p : List Char → Bool} {cs : List Char} :
    fromSomewhere p cs = true ↔ ∃ before after, cs = before ++ after ∧ p after = true := by
  induction cs with
  | nil => simp [fromSomewhere, and_assoc]
  | cons c cs ih =>
    simp only [fromSomewhere, Bool.or_eq_true, ih]
    constructor
    · rintro (h | ⟨before, after, rfl, h⟩)
      · exact ⟨[], c :: cs, rfl, h⟩
      · exact ⟨c :: before, after, rfl, h⟩
    · rintro ⟨before, after, hsplit, h⟩
      cases before with
      | nil => exact .inl (by simpa [hsplit] using h)
      | cons d before =>
        obtain ⟨-, rfl⟩ := List.cons.inj hsplit
        exact .inr ⟨before, after, rfl, h⟩

/-- Texts that fit two patterns, one behind the other, fit the patterns one behind the other. -/
theorem fits_append {ps qs : List Piece} {cs ds : List Char} (h : fits ps cs = true)
    (h' : fits qs ds = true) : fits (ps ++ qs) (cs ++ ds) = true := by
  induction ps generalizing cs with
  | nil =>
    obtain rfl : cs = [] := by simpa [fits] using h
    exact h'
  | cons p ps ih =>
    by_cases hrun : p = .run
    · subst hrun
      simp only [fits] at h
      obtain ⟨before, after, rfl, hafter⟩ := fromSomewhere_iff.1 h
      simp only [List.cons_append, fits]
      exact fromSomewhere_iff.2 ⟨before, after ++ ds, by simp, ih hafter⟩
    · cases cs with
      | nil => cases p <;> simp_all [fits]
      | cons c cs =>
        have hsplit : p.holds c = true ∧ fits ps cs = true := by
          cases p <;> simp_all [fits]
        cases p <;> simp_all [fits]

/-- Every text fits a `**`. -/
theorem fits_runs (cs : List Char) : fits (pieces ['*', '*']) cs = true := by
  have hpieces : pieces ['*', '*'] = [.run, .run] := rfl
  rw [hpieces, fits]
  refine fromSomewhere_iff.2 ⟨[], cs, rfl, ?_⟩
  rw [fits]
  exact fromSomewhere_iff.2 ⟨cs, [], by simp, rfl⟩

/-- What stands before and behind a slash fits on its own. -/
theorem fits_cons_segment {segment text path : String} {segments : List String}
    (hne : segments ≠ [])
    (hclass : hasSlashInClassFrom 0 (Path.ofSegments (segment :: segments)).toList = false)
    (htext : fits (pieces segment.toList) text.toList = true)
    (hpath : hasSlashInClassFrom 0 (Path.ofSegments segments).toList = false →
      fits (pieces (Path.ofSegments segments).toList) path.toList = true) :
    fits (pieces (Path.ofSegments (segment :: segments)).toList) (text ++ "/" ++ path).toList =
      true := by
  have hlist : (Path.ofSegments (segment :: segments)).toList =
      segment.toList ++ '/' :: (Path.ofSegments segments).toList := by
    rw [Path.ofSegments_cons segment hne]
    simp
  rw [hlist] at hclass ⊢
  obtain ⟨hpieces, hrest⟩ := piecesFrom_append_slash (Nat.zero_le _) hclass
  have hslash : fits (.literal '/' :: pieces (Path.ofSegments segments).toList)
      ('/' :: path.toList) = true := by
    simpa [fits, Piece.holds] using hpath hrest
  have htextlist : (text ++ "/" ++ path).toList = text.toList ++ '/' :: path.toList := by simp
  rw [pieces, hpieces, htextlist]
  exact fits_append htext hslash

theorem fits_of_fitsSegments {segments names : List String} (h : FitsSegments 1 segments names)
    (hne : segments ≠ [])
    (hclass : hasSlashInClassFrom 0 (Path.ofSegments segments).toList = false) :
    fits (pieces (Path.ofSegments segments).toList) (Path.ofSegments names).toList = true := by
  induction h with
  | nil => exact absurd rfl hne
  | @one segment name segments names hsegment hname h ih =>
    rw [matchesPattern_eq] at hname
    by_cases hlast : segments = []
    · subst hlast
      cases h
      simpa using hname
    · rw [Path.ofSegments_cons name (h.names_ne_nil hlast)]
      exact fits_cons_segment hlast hclass hname (ih hlast)
  | @many between segments names hleast h ih =>
    by_cases hlast : segments = []
    · subst hlast
      cases h
      simpa using fits_runs _
    · have hbetween : between ≠ [] := List.length_pos_iff.1 hleast
      rw [Path.ofSegments_append hbetween (h.names_ne_nil hlast)]
      exact fits_cons_segment hlast hclass (fits_runs _) (ih hlast)

/-- What fits segment by segment, with a segment at least for every `**`, fits as a whole. -/
theorem matchesPattern_of_fitsSegments {pattern path : String}
    (hclass : hasSlashInClass pattern = false)
    (h : FitsSegments 1 (Path.segments pattern) (Path.segments path)) :
    matchesPattern pattern path = true := by
  have hfits := fits_of_fitsSegments h (Path.segments_ne_nil pattern)
    (by rw [Path.ofSegments_segments]; exact hclass)
  rwa [Path.ofSegments_segments, Path.ofSegments_segments, ← matchesPattern_eq] at hfits

/-! ## Segments without patterns -/

theorem pieces_of_not_isPattern {cs : List Char}
    (h : ∀ c ∈ cs, (c == '*' || c == '?' || c == '[') = false) :
    pieces cs = cs.map .literal := by
  induction cs with
  | nil => rfl
  | cons c cs ih =>
    have hc := h c List.mem_cons_self
    simp only [Bool.or_eq_false_iff, beq_eq_false_iff_ne] at hc
    obtain ⟨⟨hrun, hany⟩, hclass⟩ := hc
    simp only [pieces, piecesFrom, hrun, hany, hclass, if_false, List.map_cons]
    exact congrArg _ (ih fun d hd => h d (List.mem_cons_of_mem c hd))

theorem fits_literals (cs ds : List Char) : fits (cs.map .literal) ds = true ↔ ds = cs := by
  induction cs generalizing ds with
  | nil => simp [fits]
  | cons c cs ih =>
    cases ds with
    | nil => simp [fits]
    | cons d ds => simp [fits, Piece.holds, ih]

/-- A segment in which nothing has a meaning of its own matches itself alone. -/
theorem matchesPattern_iff_eq {segment : String} (h : isPattern segment = false) (name : String) :
    matchesPattern segment name = true ↔ name = segment := by
  rw [isPattern, List.any_eq_false] at h
  rw [matchesPattern_eq, pieces_of_not_isPattern fun c hc => by simpa using h c hc, fits_literals,
    String.toList_inj]

theorem ne_runs_of_not_isPattern {segment : String} (h : isPattern segment = false) :
    segment ≠ "**" := by
  rintro rfl
  exact absurd h (by decide)

namespace FitsSegments

variable {least : Nat} {segments names others : List String}

/-- Segments without patterns fit themselves. -/
theorem refl (h : ∀ segment ∈ segments, isPattern segment = false) :
    FitsSegments least segments segments := by
  induction segments with
  | nil => exact .nil
  | cons segment segments ih =>
    have hplain := h segment List.mem_cons_self
    exact .one (ne_runs_of_not_isPattern hplain) ((matchesPattern_iff_eq hplain segment).2 rfl)
      (ih fun other hother => h other (List.mem_cons_of_mem _ hother))

/-- What fits segments without patterns begins with these. -/
theorem exists_append (h : ∀ segment ∈ segments, isPattern segment = false)
    (hfits : FitsSegments least (segments ++ others) names) :
    ∃ rest, names = segments ++ rest ∧ FitsSegments least others rest := by
  induction segments generalizing names with
  | nil => exact ⟨names, rfl, hfits⟩
  | cons segment segments ih =>
    have hplain := h segment List.mem_cons_self
    cases hfits with
    | one hsegment hname hfits =>
      obtain ⟨rest, rfl, hrest⟩ := ih (fun other hother => h other (List.mem_cons_of_mem _ hother))
        hfits
      exact ⟨rest, by rw [(matchesPattern_iff_eq hplain _).1 hname]; rfl, hrest⟩
    | many => exact absurd hplain (by decide)

end FitsSegments

end DeclBundle.Files
