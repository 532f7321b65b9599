import DeclBundle.Proofs.Path.Canonical
set_option autoImplicit false

/-!
# Directories, joined paths and ways between them

What the operations on paths give for segments below a root: the directory and the name of a path
part its last segment from the others, joining appends, a path is under another if its segments
begin with those of the other, and the way between two directories climbs to where they part and
goes down from there.
-/

namespace DeclBundle.Path

open Text

/-! ## The last segment -/

/-- What stands up to the last slash and what stands after it. -/
theorem splitLast_of_toList {p : String} {before after : List Char}
    (hp : p.toList = before ++ after) (hafter : '/' ∉ after)
    (hbefore : before = [] ∨ before.getLast? = some '/') :
    splitLast p = (.ofList before, .ofList after) := by
  have htail : p.toList.reverse.takeWhile (· != '/') = after.reverse := by
    rw [hp, List.reverse_append, List.takeWhile_append_of_pos]
    · rcases hbefore with rfl | hlast
      · simp
      · obtain ⟨init, rfl⟩ : ∃ init, before = init ++ ['/'] :=
          List.getLast?_eq_some_iff.1 hlast
        simp
    · intro c hc
      have hne : c ≠ '/' := fun h => hafter (by simpa [h] using hc)
      simpa using hne
  simp only [splitLast, htail]
  simp [hp]

/-- The path of segments below a root, ready for one more segment to follow. -/
def openPath (slashes : Nat) (segs : List String) : String :=
  if segs = [] then ofRoot slashes [] else ofRoot slashes segs ++ "/"

theorem ofRoot_append_singleton (slashes : Nat) (segs : List String) (last : String) :
    ofRoot slashes (segs ++ [last]) = openPath slashes segs ++ last := by
  unfold openPath
  split
  · rename_i hnil
    simp [hnil, ofRoot]
  · rename_i hne
    rw [ofRoot, ofRoot, ofSegments_append hne (by simp)]
    simp [String.append_assoc]

/-- Where one more segment may follow stands a slash, unless nothing stands there. -/
theorem getLast?_openPath (slashes : Nat) (segs : List String) :
    (openPath slashes segs).toList = [] ∨ (openPath slashes segs).toList.getLast? = some '/' := by
  unfold openPath
  split
  · cases slashes with
    | zero => simp
    | succ slashes => simp [toList_ofRoot, List.getLast?_replicate]
  · simp

theorem splitLast_ofRoot (slashes : Nat) (segs : List String) {last : String}
    (hlast : '/' ∉ last.toList) :
    splitLast (ofRoot slashes (segs ++ [last])) = (openPath slashes segs, last) := by
  have hlist : (ofRoot slashes (segs ++ [last])).toList =
      (openPath slashes segs).toList ++ last.toList := by
    rw [ofRoot_append_singleton, String.toList_append]
  have hsplit := splitLast_of_toList hlist hlast (getLast?_openPath slashes segs)
  simpa only [String.ofList_toList] using hsplit

/-- The name of a path is its last segment. -/
theorem fileName_ofRoot (slashes : Nat) (segs : List String) {last : String}
    (hlast : '/' ∉ last.toList) : fileName (ofRoot slashes (segs ++ [last])) = last := by
  rw [fileName, splitLast_ofRoot slashes segs hlast]

/-- A path of names ends with a character that is no slash. -/
theorem exists_getLast?_ofRoot (slashes : Nat) {segs : List String} (hne : segs ≠ [])
    (h : ∀ seg ∈ segs, IsName seg) :
    ∃ c, (ofRoot slashes segs).toList.getLast? = some c ∧ c ≠ '/' := by
  rcases List.eq_nil_or_concat segs with rfl | ⟨init, last, rfl⟩
  · exact absurd rfl hne
  · have hlast : IsName last := h last (by simp)
    obtain ⟨d, ds, hd, -⟩ := hlast.toList_eq_cons
    have hc := List.getLast?_eq_some_getLast (l := last.toList) (by simp [hd])
    generalize last.toList.getLast _ = c at hc
    refine ⟨c, by simp [List.concat_eq_append, ofRoot_append_singleton, hc], ?_⟩
    rintro rfl
    exact hlast.2 (List.mem_of_getLast? hc)

/-- Nothing is stripped from a list that ends with something else. -/
theorem stripEnd_of_getLast? {p : Char → Bool} {cs : List Char} {c : Char}
    (h : cs.getLast? = some c) (hc : p c = false) : stripEnd p cs = cs := by
  obtain ⟨init, rfl⟩ := List.getLast?_eq_some_iff.1 h
  simp [stripEnd, hc]

/-- The directory of a path drops its last segment. -/
theorem directory_ofRoot (slashes : Nat) {segs : List String} {last : String}
    (hsegs : ∀ seg ∈ segs, IsName seg) (hlast : '/' ∉ last.toList) :
    directory (ofRoot slashes (segs ++ [last])) = ofRoot slashes segs := by
  rw [directory, splitLast_ofRoot slashes segs hlast]
  by_cases hne : segs = []
  · simp [hne, openPath, dropTrailingSlashes, ofRoot]
  · obtain ⟨c, hc, hcslash⟩ := exists_getLast?_ofRoot slashes hne hsegs
    have hall : (((ofRoot slashes segs).toList ++ ['/']).all fun d => d == '/') = false := by
      rw [List.all_eq_false]
      exact ⟨c, by simp [List.mem_of_getLast? hc], by simpa using hcslash⟩
    have hstrip : stripEnd (fun d => d == '/') ((ofRoot slashes segs).toList ++ ['/']) =
        (ofRoot slashes segs).toList := by
      have hkeep := stripEnd_of_getLast? (p := fun d => d == '/') hc (by simpa using hcslash)
      simpa [stripEnd] using hkeep
    simp [openPath, hne, dropTrailingSlashes, hall, hstrip]

/-! ## Joining -/

/-- A path of names does not start at the root. -/
theorem isAbsolute_ofSegments {segs : List String} (h : ∀ seg ∈ segs, IsName seg) :
    isAbsolute (ofSegments segs) = false := by
  rw [Bool.eq_false_iff]
  intro habsolute
  obtain ⟨rest, hrest⟩ := isAbsolute_iff.1 habsolute
  exact head?_ofSegments h (by simp [hrest])

/-- Joining keeps the root of the first path. -/
theorem isAbsolute_join {a : String} (h : isAbsolute a = true) (b : String) :
    isAbsolute (join a b) = true := by
  obtain ⟨rest, hrest⟩ := isAbsolute_iff.1 h
  unfold join
  split
  · assumption
  · split <;> exact isAbsolute_iff.2 ⟨_, by simp only [String.toList_append, hrest]; rfl⟩

/-- Joining brings in no character but slashes. -/
theorem not_mem_join {c : Char} {a b : String} (hslash : c ≠ '/') (ha : c ∉ a.toList)
    (hb : c ∉ b.toList) : c ∉ (join a b).toList := by
  unfold join
  split
  · exact hb
  · split <;> simp [ha, hb, hslash]

/-- Joining names with a path that does not start at the root puts a slash between them. -/
theorem join_ofRoot (slashes : Nat) {segs : List String} {q : String} (hne : segs ≠ [])
    (hsegs : ∀ seg ∈ segs, IsName seg) (hq : isAbsolute q = false) :
    join (ofRoot slashes segs) q = ofRoot slashes segs ++ "/" ++ q := by
  obtain ⟨c, hc, hcslash⟩ := exists_getLast?_ofRoot slashes hne hsegs
  have hempty : ofRoot slashes segs ≠ "" := by
    intro h
    simp [h] at hc
  have hends : finishesWith (ofRoot slashes segs) "/" = false := by
    rw [Bool.eq_false_iff]
    intro hends
    obtain ⟨init, hinit⟩ := finishesWith_iff.1 hends
    have hlast : some c = some '/' := by
      rw [← hc, ← hinit]
      exact List.getLast?_concat
    exact hcslash (Option.some.inj hlast)
  simp [join, hq, hempty, hends]

/-- Joining segments below a root with a path that does not start at the root appends its
segments. -/
theorem join_ofRoot_segments (slashes : Nat) {segs : List String} {q : String}
    (hsegs : ∀ seg ∈ segs, IsName seg) (hq : isAbsolute q = false) :
    join (ofRoot slashes segs) q = ofRoot slashes (segs ++ segments q) := by
  by_cases hne : segs = []
  · subst hne
    have hends : ofRoot slashes [] = "" ∨ finishesWith (ofRoot slashes []) "/" = true := by
      cases slashes with
      | zero => exact .inl rfl
      | succ n =>
        right
        simp [finishesWith, toList_ofRoot, List.replicate_succ', List.isSuffixOf_iff_suffix]
    have hjoin : join (ofRoot slashes []) q = ofRoot slashes [] ++ q := by
      rcases hends with h | h <;> simp [join, hq, h]
    rw [hjoin, List.nil_append]
    simp [ofRoot, ofSegments_segments]
  · rw [join_ofRoot slashes hne hsegs hq, ofRoot, ofRoot,
      ofSegments_append hne (segments_ne_nil q), ofSegments_segments]
    simp [String.append_assoc]

/-- Joining segments below a root with segments appends these. -/
theorem join_ofRoot_ofSegments {slashes : Nat} {segs others : List String}
    (hsegs : ∀ seg ∈ segs, IsName seg) (hothers : ∀ seg ∈ others, IsName seg)
    (hne : others ≠ []) :
    join (ofRoot slashes segs) (ofSegments others) = ofRoot slashes (segs ++ others) := by
  rw [join_ofRoot_segments slashes hsegs (isAbsolute_ofSegments hothers),
    segments_ofSegments hne fun seg hseg => (hothers seg hseg).2]

/-! ## Paths under a base -/

/-- Names below a root have no trailing slashes to strip. -/
theorem stripEnd_ofRoot (slashes : Nat) {segs : List String} (hne : segs ≠ [])
    (hsegs : ∀ seg ∈ segs, IsName seg) :
    stripEnd (· == '/') (ofRoot slashes segs).toList = (ofRoot slashes segs).toList := by
  obtain ⟨c, hc, hcslash⟩ := exists_getLast?_ofRoot slashes hne hsegs
  exact stripEnd_of_getLast? hc (by simpa using hcslash)

/-- A path under another has its root, and adds segments to its segments. -/
theorem exists_append_of_isUnder {slashes root : Nat} {segs base : List String}
    (hne : base ≠ []) (hslashes : slashes ≤ 2) (hroot : root ≤ 2)
    (hsegs : ∀ seg ∈ segs, IsName seg) (hbase : ∀ seg ∈ base, IsName seg)
    (h : isUnder (ofRoot slashes segs) (ofRoot root base) = true) :
    slashes = root ∧ ∃ below, segs = base ++ below := by
  have hleading := leadingSlashes_ofRoot hslashes hsegs
  have hfilter := filter_segments_ofRoot slashes hsegs
  rw [isUnder, stripEnd_ofRoot root hne hbase, String.ofList_toList, Bool.or_eq_true] at h
  rcases h with heq | hbegins
  · rw [eq_of_beq heq] at hleading hfilter
    rw [leadingSlashes_ofRoot hroot hbase] at hleading
    rw [filter_segments_ofRoot root hbase] at hfilter
    exact ⟨hleading.symm, [], by simp [hfilter]⟩
  · obtain ⟨rest, hrest⟩ := beginsWith_iff.1 hbegins
    have hpath : ofRoot slashes segs = ofRoot root base ++ "/" ++ .ofList rest := by
      apply String.toList_inj.1
      rw [← hrest]
      simp
    constructor
    · rw [← hleading, hpath]
      have hhead : ((ofSegments base).toList ++ '/' :: rest).head? ≠ some '/' := by
        obtain ⟨c, cs, hlist, hc⟩ := toList_ofSegments_eq_cons hne hbase
        simp [hlist, hc]
      exact leadingSlashes_of_toList (by simp [toList_ofRoot]) hroot hhead
    · rw [hpath, segments_append_slash, List.filter_append, filter_segments_ofRoot root hbase]
        at hfilter
      exact ⟨_, hfilter.symm⟩

/-! ## The way from one directory to another -/

/-- The common beginning of two lists begins both. -/
theorem exists_append_commonPrefix (xs ys : List String) :
    ∃ xs' ys', xs = commonPrefix xs ys ++ xs' ∧ ys = commonPrefix xs ys ++ ys' := by
  induction xs generalizing ys with
  | nil => exact ⟨[], ys, rfl, rfl⟩
  | cons x xs ih =>
    cases ys with
    | nil => exact ⟨x :: xs, [], rfl, rfl⟩
    | cons y ys =>
      by_cases hxy : x = y
      · obtain ⟨xs', ys', hxs, hys⟩ := ih ys
        refine ⟨xs', ys', ?_, ?_⟩
        · simp [commonPrefix, hxy, ← hxs]
        · simp [commonPrefix, hxy, ← hys]
      · exact ⟨x :: xs, y :: ys, by simp [commonPrefix, hxy], by simp [commonPrefix, hxy]⟩

/-- The absolute form of a canonical path has its segments. -/
theorem absoluteSegments_ofRoot (cwd : String) {slashes : Nat} {segs : List String}
    (hslashes : slashes = 1 ∨ slashes = 2) (h : ∀ seg ∈ segs, IsOrdinary seg) :
    absoluteSegments cwd (ofRoot slashes segs) = segs := by
  have habsolute : isAbsolute (ofRoot slashes segs) = true := by
    rw [isAbsolute_iff, toList_ofRoot]
    rcases hslashes with rfl | rfl <;> exact ⟨_, rfl⟩
  rw [absoluteSegments, absolute, if_pos habsolute, normalize_ofRoot hslashes h,
    filter_segments_ofRoot slashes (forall_isName h)]

/-- The way from a directory to a path climbs out of what they do not share and goes down along what
is left. -/
theorem relative_ofRoot (cwd : String) {slashes root : Nat} {here there up down : List String}
    (hslashes : slashes = 1 ∨ slashes = 2) (hroot : root = 1 ∨ root = 2)
    (hhere : ∀ seg ∈ here, IsOrdinary seg) (hthere : ∀ seg ∈ there, IsOrdinary seg)
    (hup : here = commonPrefix here there ++ up) (hdown : there = commonPrefix here there ++ down) :
    relative cwd (ofRoot slashes there) (ofRoot root here) =
      if up = [] ∧ down = [] then "." else ofSegments (List.replicate up.length ".." ++ down) := by
  have hstart := absoluteSegments_ofRoot cwd hroot hhere
  have hend := absoluteSegments_ofRoot cwd hslashes hthere
  have hlength : here.length - (commonPrefix here there).length = up.length := by
    have hlen := congrArg List.length hup
    rw [List.length_append] at hlen
    omega
  have hdrop := congrArg (List.drop (commonPrefix here there).length) hdown
  rw [List.drop_left] at hdrop
  simp only [relative, hstart, hend, hlength, hdrop]
  simp

theorem commonPrefix_append (xs ys : List String) : commonPrefix xs (xs ++ ys) = xs := by
  induction xs with
  | nil => rfl
  | cons x xs ih => simp [commonPrefix, ih]

/-- The way from a directory to a path under it goes down along what the path adds. -/
theorem relative_ofRoot_append (cwd : String) {slashes : Nat} {base below : List String}
    (hslashes : slashes = 1 ∨ slashes = 2) (hbase : ∀ seg ∈ base, IsOrdinary seg)
    (hbelow : ∀ seg ∈ below, IsOrdinary seg) (hne : below ≠ []) :
    relative cwd (ofRoot slashes (base ++ below)) (ofRoot slashes base) = ofSegments below := by
  have hall : ∀ seg ∈ base ++ below, IsOrdinary seg := List.forall_mem_append.2 ⟨hbase, hbelow⟩
  have hup : base = commonPrefix base (base ++ below) ++ [] := by simp [commonPrefix_append]
  have hdown : base ++ below = commonPrefix base (base ++ below) ++ below := by
    rw [commonPrefix_append]
  simpa [hne] using relative_ofRoot cwd hslashes hslashes hbase hall hup hdown

theorem commonPrefix_append_append (base xs ys : List String) :
    commonPrefix (base ++ xs) (base ++ ys) = base ++ commonPrefix xs ys := by
  induction base with
  | nil => rfl
  | cons b base ih => simp [commonPrefix, ih]

/-- Following the way from a directory to a path leads to that path, also from a directory that has
the same segments below another base. -/
theorem foldl_walkStep_relative (cwd : String) {slashes : Nat} {base here there : List String}
    (hslashes : slashes = 1 ∨ slashes = 2) (hbase : ∀ seg ∈ base, IsOrdinary seg)
    (hhere : ∀ seg ∈ here, IsOrdinary seg) (hthere : ∀ seg ∈ there, IsOrdinary seg)
    (trail : List String) :
    (segments (relative cwd (ofRoot slashes (base ++ there)) (ofRoot slashes (base ++ here)))).foldl
      (walkStep false) (here.reverse ++ trail) = there.reverse ++ trail := by
  obtain ⟨up, down, hup, hdown⟩ := exists_append_commonPrefix here there
  generalize hshared : commonPrefix here there = shared at hup hdown
  have hcommon : commonPrefix (base ++ here) (base ++ there) = base ++ shared := by
    rw [commonPrefix_append_append, hshared]
  have hup' : base ++ here = commonPrefix (base ++ here) (base ++ there) ++ up := by
    rw [hcommon, List.append_assoc, ← hup]
  have hdown' : base ++ there = commonPrefix (base ++ here) (base ++ there) ++ down := by
    rw [hcommon, List.append_assoc, ← hdown]
  have hway := relative_ofRoot cwd hslashes hslashes (List.forall_mem_append.2 ⟨hbase, hhere⟩)
    (List.forall_mem_append.2 ⟨hbase, hthere⟩) hup' hdown'
  have hups : ∀ seg ∈ up.reverse, IsOrdinary seg := by
    intro seg hseg
    exact hhere seg (by simp [hup, List.mem_reverse.1 hseg])
  have hdowns : ∀ seg ∈ down, IsOrdinary seg := by
    intro seg hseg
    exact hthere seg (by simp [hdown, hseg])
  rw [hway, hup, hdown]
  split
  · rename_i hboth
    simp [hboth, segments, splitAtChar, walkStep]
  · rename_i hboth
    have hdots : ∀ seg ∈ List.replicate up.length "..", '/' ∉ seg.toList := by
      intro seg hseg
      simp [List.eq_of_mem_replicate hseg]
    have hnames : ∀ seg ∈ List.replicate up.length ".." ++ down, '/' ∉ seg.toList :=
      List.forall_mem_append.2 ⟨hdots, fun seg hseg => (hdowns seg hseg).no_slash⟩
    have hne : List.replicate up.length ".." ++ down ≠ [] := by
      intro hnil
      exact hboth (by simpa using hnil)
    have hclimb := foldl_walkStep_dots false hups (shared.reverse ++ trail)
    rw [List.length_reverse] at hclimb
    rw [segments_ofSegments hne hnames, List.foldl_append, List.reverse_append, List.append_assoc,
      hclimb, foldl_walkStep_ordinary false hdowns, List.reverse_append, List.append_assoc]

/-! ## Characters of a canonical path -/

/-- Only slashes are added to the characters of the segments. -/
theorem mem_ofSegments {c : Char} {segs : List String} (h : c ∈ (ofSegments segs).toList) :
    c = '/' ∨ ∃ seg ∈ segs, c ∈ seg.toList := by
  induction segs with
  | nil => simp at h
  | cons seg segs ih =>
    by_cases hne : segs = []
    · subst hne
      exact .inr ⟨seg, by simp, by simpa using h⟩
    · rw [ofSegments_cons seg hne] at h
      simp only [String.toList_append, List.mem_append] at h
      rcases h with (h | h) | h
      · exact .inr ⟨seg, by simp, h⟩
      · exact .inl (by simpa using h)
      · rcases ih h with hslash | ⟨other, hother, hc⟩
        · exact .inl hslash
        · exact .inr ⟨other, by simp [hother], hc⟩

/-- The characters of a segment are characters of the path. -/
theorem mem_ofRoot_of_mem (slashes : Nat) {c : Char} {segs : List String}
    (hsegs : ∀ seg ∈ segs, IsName seg) {seg : String} (hseg : seg ∈ segs) (hc : c ∈ seg.toList) :
    c ∈ (ofRoot slashes segs).toList := by
  have hfilter := filter_segments_ofRoot slashes hsegs
  rw [← hfilter] at hseg
  exact mem_of_mem_segments (List.mem_filter.1 hseg).1 hc

/-- Normalising an absolute path brings in no character but slashes. -/
theorem not_mem_normalize {c : Char} {p : String} (habsolute : isAbsolute p = true)
    (hslash : c ≠ '/') (hc : c ∉ p.toList) : c ∉ (normalize p).toList := by
  have hleading := leadingSlashes_of_isAbsolute habsolute
  rw [normalize_eq_ofRoot (by omega), toList_ofRoot]
  intro hmem
  rcases List.mem_append.1 hmem with h | h
  · exact hslash (List.eq_of_mem_replicate h)
  · rcases mem_ofSegments h with h | ⟨seg, hseg, h⟩
    · exact hslash h
    · have hfrom := mem_walk_rooted (fun _ => not_mem_of_mem_segments) hseg
      exact hc (mem_of_mem_segments hfrom.2 h)

end DeclBundle.Path
