import DeclBundle.Proofs.Path.Canonical
set_option autoImplicit false

/-!
# Normalising twice

What a walk ends with is some double dots and ordinary segments behind them, and no double dots
below a root (`exists_climbed_walk`).  A walk along such segments changes nothing, so normalising a
path for the second time changes nothing either, whether the path is absolute or not
(`normalize_normalize`).
-/

namespace DeclBundle.Path

open Text

/-- What a walk ends with: a climb out of where it began, and a way down from there. -/
def climbed (up : Nat) (down : List String) : List String :=
  List.replicate up ".." ++ down

/-- The trail of a walk is a way down behind a climb, and there is no climb below a root. -/
theorem exists_foldl_walkStep (rooted : Bool) {segs : List String}
    (h : ∀ seg ∈ segs, '/' ∉ seg.toList) (up : Nat) (down : List String)
    (hup : rooted = true → up = 0) (hdown : ∀ seg ∈ down, IsOrdinary seg) :
    ∃ up' down', (rooted = true → up' = 0) ∧ (∀ seg ∈ down', IsOrdinary seg) ∧
      segs.foldl (walkStep rooted) (down ++ List.replicate up "..") =
        down' ++ List.replicate up' ".." := by
  -- the trail has its last segment first, so the climb that a walk begins with is at its end
  induction segs generalizing up down with
  | nil => exact ⟨up, down, hup, hdown, rfl⟩
  | cons seg segs ih =>
    have hsegs : ∀ s ∈ segs, '/' ∉ s.toList := fun s hs => h s (by simp [hs])
    suffices hstep : ∃ up' down', (rooted = true → up' = 0) ∧ (∀ s ∈ down', IsOrdinary s) ∧
        walkStep rooted (down ++ List.replicate up "..") seg =
          down' ++ List.replicate up' ".." by
      obtain ⟨up', down', hup', hdown', htrail⟩ := hstep
      rw [List.foldl_cons, htrail]
      exact ih hsegs up' down' hup' hdown'
    by_cases hskip : seg = "" ∨ seg = "."
    · exact ⟨up, down, hup, hdown, by simp [walkStep, hskip]⟩
    · by_cases hdots : seg = ".."
      · subst hdots
        cases down with
        | nil =>
          cases rooted with
          | true =>
            obtain rfl := hup rfl
            exact ⟨0, [], fun _ => rfl, by simp, by simp [walkStep]⟩
          | false =>
            refine ⟨up + 1, [], by simp, by simp, ?_⟩
            cases up <;> simp [walkStep, List.replicate_succ]
        | cons last down =>
          have hlast := hdown last (by simp)
          refine ⟨up, down, hup, fun s hs => hdown s (by simp [hs]), ?_⟩
          simp [walkStep, hlast.ne_dots]
      · rw [not_or] at hskip
        have hseg : IsOrdinary seg := ⟨hskip.1, hskip.2, hdots, h seg (by simp)⟩
        exact ⟨up, seg :: down, hup, List.forall_mem_cons.2 ⟨hseg, hdown⟩,
          by simp [walkStep, hskip, hdots]⟩

/-- A walk ends with a climb and a way down along ordinary segments. -/
theorem exists_climbed_walk (rooted : Bool) {segs : List String}
    (h : ∀ seg ∈ segs, '/' ∉ seg.toList) :
    ∃ up down, (rooted = true → up = 0) ∧ (∀ seg ∈ down, IsOrdinary seg) ∧
      walk rooted segs = climbed up down := by
  obtain ⟨up, down, hup, hdown, htrail⟩ :=
    exists_foldl_walkStep rooted h 0 [] (fun _ => rfl) (by simp)
  refine ⟨up, down.reverse, hup, by simpa using hdown, ?_⟩
  rw [List.replicate_zero, List.append_nil] at htrail
  simp [walk, climbed, htrail]

/-- Where nothing but a climb precedes, double dots are kept. -/
theorem foldl_walkStep_climb (up before : Nat) :
    (List.replicate up "..").foldl (walkStep false) (List.replicate before "..") =
      List.replicate (up + before) ".." := by
  induction up generalizing before with
  | zero => simp
  | succ up ih =>
    have hstep : walkStep false (List.replicate before "..") ".." =
        List.replicate (before + 1) ".." := by
      cases before <;> simp [walkStep, List.replicate_succ]
    rw [List.replicate_succ, List.foldl_cons, hstep, ih]
    congr 1
    omega

/-- A walk along a climb and a way down changes nothing. -/
theorem walk_climbed (rooted : Bool) {up : Nat} {down : List String}
    (hup : rooted = true → up = 0) (hdown : ∀ seg ∈ down, IsOrdinary seg) :
    walk rooted (climbed up down) = climbed up down := by
  have hclimb : (List.replicate up "..").foldl (walkStep rooted) [] = List.replicate up ".." := by
    cases rooted with
    | true => simp [hup rfl]
    | false => simpa using foldl_walkStep_climb up 0
  rw [walk, climbed, List.foldl_append, hclimb, foldl_walkStep_ordinary rooted hdown]
  simp

theorem isName_climbed (up : Nat) {down : List String} (hdown : ∀ seg ∈ down, IsOrdinary seg) :
    ∀ seg ∈ climbed up down, IsName seg := by
  intro seg hseg
  rcases List.mem_append.1 hseg with hseg | hseg
  · rw [List.eq_of_mem_replicate hseg]
    exact ⟨by decide, by decide⟩
  · exact (hdown seg hseg).isName

theorem no_slash_segments (p : String) : ∀ seg ∈ segments p, '/' ∉ seg.toList :=
  fun _ => not_mem_of_mem_segments

theorem leadingSlashes_le (p : String) : leadingSlashes p ≤ 2 := by
  unfold leadingSlashes
  split <;> omega

/-- Normalising gives a path below a root, or the path of the current directory. -/
theorem normalize_eq (p : String) : normalize p =
    if leadingSlashes p = 0 ∧ walk false (segments p) = [] then "."
    else ofRoot (leadingSlashes p) (walk (leadingSlashes p != 0) (segments p)) := by
  have hnames : ∀ seg ∈ walk false (segments p), IsName seg := by
    obtain ⟨up, down, -, hdown, hwalk⟩ := exists_climbed_walk false (no_slash_segments p)
    rw [hwalk]
    exact isName_climbed up hdown
  by_cases hroot : leadingSlashes p = 0
  · by_cases hwalk : walk false (segments p) = []
    · simp [normalize, hroot, hwalk]
    · obtain ⟨c, cs, hcs, -⟩ := toList_ofSegments_eq_cons hwalk hnames
      have hne : ofSegments (walk false (segments p)) ≠ "" := by
        intro hempty
        simp [hempty] at hcs
      simp [normalize, hroot, hwalk, hne]
  · have hrooted : (leadingSlashes p != 0) = true := by simpa using hroot
    rw [normalize_eq_ofRoot hroot, hrooted, if_neg fun h => hroot h.1]

/-- Normalising for the second time changes nothing. -/
theorem normalize_normalize (p : String) : normalize (normalize p) = normalize p := by
  obtain ⟨up, down, hup, hdown, hwalk⟩ :=
    exists_climbed_walk (leadingSlashes p != 0) (no_slash_segments p)
  have hnames := isName_climbed up hdown
  rw [normalize_eq p]
  split
  · rfl
  · rename_i hsome
    have hleading : leadingSlashes (ofRoot (leadingSlashes p) (climbed up down)) =
        leadingSlashes p := leadingSlashes_ofRoot (leadingSlashes_le p) hnames
    have hagain : ∀ rooted, walk rooted (segments (ofRoot (leadingSlashes p) (climbed up down))) =
        walk rooted (climbed up down) := by
      intro rooted
      rw [walk, ← foldl_walkStep_filter, filter_segments_ofRoot _ hnames, walk]
    rw [hwalk, normalize_eq, hleading, hagain, hagain, walk_climbed _ hup hdown, if_neg]
    rintro ⟨hroot, hempty⟩
    refine hsome ⟨hroot, ?_⟩
    have hrooted : (leadingSlashes p != 0) = false := by simp [hroot]
    rw [hrooted] at hwalk hup
    rw [walk_climbed false hup hdown] at hempty
    rw [hwalk, hempty]

end DeclBundle.Path
