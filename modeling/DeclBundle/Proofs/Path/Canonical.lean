import DeclBundle.Proofs.Path.Segments
set_option autoImplicit false

/-!
# Canonical paths

A canonical absolute path is one or two slashes and ordinary segments below them (`ofRoot`).  These
are the absolute paths that normalising leaves as they are (`exists_ofRoot_of_normalize_eq`), and on
them the operations on paths are operations on segments: taking the directory drops the last
segment, joining appends, and the way from one directory to another climbs to where they part and
goes down from there.
-/

namespace DeclBundle.Path

open Text

/-! ## Paths from a root -/

/-- The path of segments below a root of some slashes. -/
def ofRoot (slashes : Nat) (segs : List String) : String :=
  .ofList (List.replicate slashes '/') ++ ofSegments segs

@[simp] theorem ofRoot_zero (segs : List String) : ofRoot 0 segs = ofSegments segs := by
  simp [ofRoot]

theorem toList_ofRoot (slashes : Nat) (segs : List String) :
    (ofRoot slashes segs).toList = List.replicate slashes '/' ++ (ofSegments segs).toList := by
  simp [ofRoot]

/-- Whether a text can stand between two slashes: it is not empty and holds no slash itself. -/
def IsName (seg : String) : Prop :=
  seg ≠ "" ∧ '/' ∉ seg.toList

theorem IsOrdinary.isName {seg : String} (h : IsOrdinary seg) : IsName seg :=
  ⟨h.ne_empty, h.no_slash⟩

theorem forall_isName {segs : List String} (h : ∀ seg ∈ segs, IsOrdinary seg) :
    ∀ seg ∈ segs, IsName seg :=
  fun seg hseg => (h seg hseg).isName

/-- A name begins with a character that is no slash. -/
theorem IsName.toList_eq_cons {seg : String} (h : IsName seg) :
    ∃ c cs, seg.toList = c :: cs ∧ c ≠ '/' := by
  cases hs : seg.toList with
  | nil => exact absurd (String.toList_eq_nil_iff.1 hs) h.1
  | cons c cs =>
    refine ⟨c, cs, rfl, ?_⟩
    rintro rfl
    exact h.2 (by simp [hs])

/-- Joined segments begin with the first one. -/
theorem toList_ofSegments_cons (seg : String) (segs : List String) :
    ∃ rest, (ofSegments (seg :: segs)).toList = seg.toList ++ rest := by
  by_cases hne : segs = []
  · exact ⟨[], by simp [hne]⟩
  · refine ⟨'/' :: (ofSegments segs).toList, ?_⟩
    rw [ofSegments_cons seg hne]
    simp

/-- Names joined begin with a character that is no slash. -/
theorem toList_ofSegments_eq_cons {segs : List String} (hne : segs ≠ [])
    (h : ∀ seg ∈ segs, IsName seg) : ∃ c cs, (ofSegments segs).toList = c :: cs ∧ c ≠ '/' := by
  cases segs with
  | nil => exact absurd rfl hne
  | cons seg segs =>
    obtain ⟨rest, hrest⟩ := toList_ofSegments_cons seg segs
    obtain ⟨c, cs, hseg, hc⟩ := (h seg (by simp)).toList_eq_cons
    exact ⟨c, cs ++ rest, by simp [hrest, hseg], hc⟩

theorem head?_ofSegments {segs : List String} (h : ∀ seg ∈ segs, IsName seg) :
    (ofSegments segs).toList.head? ≠ some '/' := by
  by_cases hne : segs = []
  · simp [hne]
  · obtain ⟨c, cs, hlist, hc⟩ := toList_ofSegments_eq_cons hne h
    simp [hlist, hc]

/-- At most two slashes before something else are the leading slashes. -/
theorem leadingSlashes_of_toList {p : String} {slashes : Nat} {rest : List Char}
    (hp : p.toList = List.replicate slashes '/' ++ rest) (hslashes : slashes ≤ 2)
    (hrest : rest.head? ≠ some '/') : leadingSlashes p = slashes := by
  have hcases : slashes = 0 ∨ slashes = 1 ∨ slashes = 2 := by omega
  rw [leadingSlashes, hp]
  cases rest with
  | nil => rcases hcases with rfl | rfl | rfl <;> rfl
  | cons c rest =>
    have hc : c ≠ '/' := by simpa using hrest
    rcases hcases with rfl | rfl | rfl <;> simp only [List.replicate] <;> grind

theorem leadingSlashes_ofRoot {slashes : Nat} {segs : List String} (hslashes : slashes ≤ 2)
    (h : ∀ seg ∈ segs, IsName seg) : leadingSlashes (ofRoot slashes segs) = slashes :=
  leadingSlashes_of_toList (toList_ofRoot slashes segs) hslashes (head?_ofSegments h)

theorem segments_ofRoot (slashes : Nat) (segs : List String) :
    segments (ofRoot slashes segs) = List.replicate slashes "" ++ segments (ofSegments segs) := by
  induction slashes with
  | zero => simp
  | succ slashes ih =>
    have hsplit : ofRoot (slashes + 1) segs = "" ++ "/" ++ ofRoot slashes segs := by
      apply String.toList_inj.1
      simp [toList_ofRoot, List.replicate_succ]
    rw [hsplit, segments_append_slash, ih, List.replicate_succ]
    rfl

/-- The segments that are not empty are those below the root. -/
theorem filter_segments_ofRoot (slashes : Nat) {segs : List String}
    (h : ∀ seg ∈ segs, IsName seg) :
    (segments (ofRoot slashes segs)).filter (· != "") = segs := by
  have hnames : segs.filter (· != "") = segs :=
    List.filter_eq_self.2 fun seg hseg => by simpa using (h seg hseg).1
  cases segs with
  | nil =>
    rw [segments_ofRoot]
    simp [segments, splitAtChar]
  | cons seg segs =>
    rw [segments_ofRoot, segments_ofSegments (by simp) fun seg hseg => (h seg hseg).2]
    simp [hnames]

/-! ## Walks -/

/-- A walk passes over empty segments. -/
theorem foldl_walkStep_filter (rooted : Bool) (segs trail : List String) :
    (segs.filter (· != "")).foldl (walkStep rooted) trail = segs.foldl (walkStep rooted) trail := by
  induction segs generalizing trail with
  | nil => rfl
  | cons seg segs ih =>
    by_cases hseg : seg = ""
    · simp [hseg, walkStep, ih]
    · simp [hseg, ih]

/-- A walk goes down along ordinary segments. -/
theorem foldl_walkStep_ordinary (rooted : Bool) {segs : List String}
    (h : ∀ seg ∈ segs, IsOrdinary seg) (trail : List String) :
    segs.foldl (walkStep rooted) trail = segs.reverse ++ trail := by
  induction segs generalizing trail with
  | nil => rfl
  | cons seg segs ih =>
    have hseg := h seg (by simp)
    have hstep : walkStep rooted trail seg = seg :: trail := by
      simp [walkStep, hseg.ne_empty, hseg.ne_dot, hseg.ne_dots]
    rw [List.foldl_cons, hstep, ih fun s hs => h s (by simp [hs])]
    simp

/-- A walk climbs back along ordinary segments. -/
theorem foldl_walkStep_dots (rooted : Bool) {segs : List String}
    (h : ∀ seg ∈ segs, IsOrdinary seg) (trail : List String) :
    (List.replicate segs.length "..").foldl (walkStep rooted) (segs ++ trail) = trail := by
  induction segs with
  | nil => rfl
  | cons seg segs ih =>
    have hseg := h seg (by simp)
    have hstep : walkStep rooted (seg :: (segs ++ trail)) ".." = segs ++ trail := by
      simp [walkStep, hseg.ne_dots]
    rw [List.length_cons, List.replicate_succ, List.foldl_cons, List.cons_append, hstep,
      ih fun s hs => h s (by simp [hs])]

/-- Below a root a walk ends with ordinary segments, which all come from the given ones. -/
theorem mem_walk_rooted {segs : List String} (h : ∀ seg ∈ segs, '/' ∉ seg.toList) {seg : String}
    (hseg : seg ∈ walk true segs) : IsOrdinary seg ∧ seg ∈ segs := by
  have hfold : ∀ (others trail : List String), (∀ s ∈ others, s ∈ segs) →
      (∀ s ∈ trail, IsOrdinary s ∧ s ∈ segs) →
      ∀ s ∈ others.foldl (walkStep true) trail, IsOrdinary s ∧ s ∈ segs := by
    intro others
    induction others with
    | nil => exact fun _ _ htrail => htrail
    | cons other others ih =>
      intro trail hothers htrail
      refine ih _ (fun s hs => hothers s (by simp [hs])) ?_
      have hother := hothers other (by simp)
      unfold walkStep
      split
      · exact htrail
      · rename_i hskip
        split
        · split
          · simp
          · -- the trail has no double dots
            exact absurd rfl (htrail ".." (by simp)).1.ne_dots
          · exact fun s hs => htrail s (by simp [hs])
        · rename_i hdots
          simp only [Bool.or_eq_true, decide_eq_true_eq, not_or] at hskip
          intro s hs
          rcases List.mem_cons.1 hs with rfl | hs
          · exact ⟨⟨hskip.1, hskip.2, hdots, h s hother⟩, hother⟩
          · exact htrail s hs
  exact hfold segs [] (fun _ hs => hs) (by simp) seg (List.mem_reverse.1 hseg)

/-! ## The canonical form -/

theorem ofRoot_ne_empty {slashes : Nat} (hslashes : slashes ≠ 0) (segs : List String) :
    ofRoot slashes segs ≠ "" := by
  intro h
  have hlist := congrArg String.toList h
  cases slashes with
  | zero => exact hslashes rfl
  | succ slashes => simp [toList_ofRoot, List.replicate_succ] at hlist

/-- Normalising an absolute path gives its root and the end of the walk along its segments. -/
theorem normalize_eq_ofRoot {p : String} (h : leadingSlashes p ≠ 0) :
    normalize p = ofRoot (leadingSlashes p) (walk true (segments p)) := by
  have hroot : (leadingSlashes p != 0) = true := by simpa using h
  have hne := ofRoot_ne_empty h (walk true (segments p))
  rw [ofRoot] at hne
  simp only [normalize, hroot, hne, if_false]
  rfl

/-- Ordinary segments below a root are a canonical path. -/
theorem normalize_ofRoot {slashes : Nat} {segs : List String} (hslashes : slashes = 1 ∨ slashes = 2)
    (h : ∀ seg ∈ segs, IsOrdinary seg) : normalize (ofRoot slashes segs) = ofRoot slashes segs := by
  have hnames : ∀ seg ∈ segs, IsName seg := forall_isName h
  have hleading : leadingSlashes (ofRoot slashes segs) = slashes :=
    leadingSlashes_ofRoot (by omega) hnames
  have hwalk : walk true (segments (ofRoot slashes segs)) = segs := by
    rw [walk, ← foldl_walkStep_filter, filter_segments_ofRoot slashes hnames,
      foldl_walkStep_ordinary true h]
    simp
  rw [normalize_eq_ofRoot (by omega), hleading, hwalk]

theorem isAbsolute_iff {p : String} : isAbsolute p = true ↔ ∃ rest, p.toList = '/' :: rest := by
  rw [isAbsolute, beginsWith_iff]
  constructor
  · rintro ⟨rest, hrest⟩
    exact ⟨rest, hrest.symm⟩
  · rintro ⟨rest, hrest⟩
    exact ⟨rest, hrest.symm⟩

theorem isAbsolute_ofRoot {slashes : Nat} (hslashes : slashes ≠ 0) (segs : List String) :
    isAbsolute (ofRoot slashes segs) = true := by
  obtain ⟨n, rfl⟩ := Nat.exists_eq_succ_of_ne_zero hslashes
  exact isAbsolute_iff.2 ⟨_, by rw [toList_ofRoot, List.replicate_succ]; rfl⟩

theorem leadingSlashes_of_isAbsolute {p : String} (h : isAbsolute p = true) :
    leadingSlashes p = 1 ∨ leadingSlashes p = 2 := by
  obtain ⟨rest, hrest⟩ := isAbsolute_iff.1 h
  rw [leadingSlashes, hrest]
  grind

theorem leadingSlashes_of_not_isAbsolute {p : String} (h : ¬ isAbsolute p = true) :
    leadingSlashes p = 0 := by
  rw [isAbsolute_iff] at h
  rw [leadingSlashes]
  split
  · rename_i hp
    exact absurd ⟨_, hp⟩ h
  · rename_i hp
    exact absurd ⟨_, hp⟩ h
  · rename_i hp
    exact absurd ⟨_, hp⟩ h
  · rfl

/-- Normalising an absolute path gives ordinary segments below a root of one or two slashes. -/
theorem exists_ofRoot_normalize {p : String} (habsolute : isAbsolute p = true) :
    ∃ slashes segs, (slashes = 1 ∨ slashes = 2) ∧ (∀ seg ∈ segs, IsOrdinary seg) ∧
      normalize p = ofRoot slashes segs := by
  have hleading := leadingSlashes_of_isAbsolute habsolute
  refine ⟨leadingSlashes p, walk true (segments p), hleading, ?_, ?_⟩
  · exact fun seg hseg => (mem_walk_rooted (fun _ => not_mem_of_mem_segments) hseg).1
  · exact normalize_eq_ofRoot (by omega)

/-- An absolute path that normalising leaves as it is consists of ordinary segments below a root of
one or two slashes. -/
theorem exists_ofRoot_of_normalize_eq {p : String} (habsolute : isAbsolute p = true)
    (h : normalize p = p) :
    ∃ slashes segs, (slashes = 1 ∨ slashes = 2) ∧ (∀ seg ∈ segs, IsOrdinary seg) ∧
      p = ofRoot slashes segs := by
  rw [← h]
  exact exists_ofRoot_normalize habsolute

end DeclBundle.Path
