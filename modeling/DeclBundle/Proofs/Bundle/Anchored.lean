import DeclBundle.Proofs.Bundle.Planning
set_option autoImplicit false

/-!
# Where inputs are anchored

An input that is named from the working directory belongs to the base directory: it is the path that
its name has in the working directory, if that lies under the base directory, and the path that its
name has in the base directory otherwise (`anchored`).  Resolving an input does not ask whether a
path lies under the base directory but whether its text begins like that of the base directory.  The
two differ for paths that go on in the middle of a name (`Strays`) and, since two leading slashes are
a root of their own, for the base directory `//`.  These are all the differences
(`resolveInputs_eq_anchored_iff`).
-/

namespace DeclBundle.Path

open Text ModuleId

/-! ## Names without double dots -/

/-- The segments that a walk without double dots goes down. -/
def partsBelow (segs : List String) : List String :=
  segs.filter fun seg => seg != "" && seg != "."

theorem foldl_walkStep_down (rooted : Bool) {segs : List String} (h : ".." ∉ segs)
    (trail : List String) :
    segs.foldl (walkStep rooted) trail = (partsBelow segs).reverse ++ trail := by
  induction segs generalizing trail with
  | nil => rfl
  | cons seg segs ih =>
    obtain ⟨hseg, hsegs⟩ := List.ne_and_not_mem_of_not_mem_cons h
    rw [List.foldl_cons, ih hsegs]
    by_cases hstays : seg = "" ∨ seg = "."
    · rcases hstays with rfl | rfl <;> simp [walkStep, partsBelow]
    · simp only [not_or] at hstays
      simp [walkStep, partsBelow, hstays.1, hstays.2, Ne.symm hseg]

theorem isOrdinary_partsBelow {segs : List String} (hdots : ".." ∉ segs)
    (hslash : ∀ seg ∈ segs, '/' ∉ seg.toList) : ∀ seg ∈ partsBelow segs, IsOrdinary seg := by
  intro seg hseg
  obtain ⟨hmem, hkept⟩ := List.mem_filter.1 hseg
  simp only [Bool.and_eq_true, bne_iff_ne] at hkept
  exact ⟨hkept.1, hkept.2, fun heq => hdots (heq ▸ hmem), hslash seg hmem⟩

theorem partsBelow_append {segs : List String} (h : ∀ seg ∈ segs, IsOrdinary seg)
    (others : List String) : partsBelow (segs ++ others) = segs ++ partsBelow others := by
  have hself : partsBelow segs = segs :=
    List.filter_eq_self.2 fun seg hseg => by simp [(h seg hseg).ne_empty, (h seg hseg).ne_dot]
  rw [partsBelow, List.filter_append, ← partsBelow, hself, ← partsBelow]

section

variable {slashes : Nat} {segs : List String}

/-- The canonical form of a path without double dots. -/
theorem normalize_ofRoot_down (hslashes : slashes = 1 ∨ slashes = 2) (hne : segs ≠ [])
    (hhead : (ofSegments segs).toList.head? ≠ some '/') (hslash : ∀ seg ∈ segs, '/' ∉ seg.toList)
    (hdots : ".." ∉ segs) :
    normalize (ofRoot slashes segs) = ofRoot slashes (partsBelow segs) := by
  have hleading : leadingSlashes (ofRoot slashes segs) = slashes :=
    leadingSlashes_of_toList (toList_ofRoot slashes segs) (by omega) hhead
  have hsegments : segments (ofRoot slashes segs) = List.replicate slashes "" ++ segs := by
    rw [segments_ofRoot, segments_ofSegments hne hslash]
  have hall : ".." ∉ List.replicate slashes "" ++ segs := by
    simp [hdots]
  have hparts : partsBelow (List.replicate slashes "" ++ segs) = partsBelow segs := by
    simp [partsBelow]
  rw [normalize_eq_ofRoot (by omega), hleading, hsegments, walk, foldl_walkStep_down true hall,
    hparts, List.append_nil, List.reverse_reverse]

/-- A name without double dots that is seen from a directory leads below it. -/
theorem normalize_join_ofRoot {name : String} (hslashes : slashes = 1 ∨ slashes = 2)
    (hsegs : ∀ seg ∈ segs, IsOrdinary seg) (hname : isAbsolute name = false)
    (hdots : ".." ∉ segments name) :
    normalize (join (ofRoot slashes segs) name) =
      ofRoot slashes (segs ++ partsBelow (segments name)) := by
  have hhead : (ofSegments (segs ++ segments name)).toList.head? ≠ some '/' := by
    cases segs with
    | nil =>
      rw [List.nil_append, ofSegments_segments]
      intro hhead
      obtain ⟨rest, hrest⟩ := List.head?_eq_some_iff.1 hhead
      rw [isAbsolute_iff.2 ⟨rest, hrest⟩] at hname
      cases hname
    | cons seg segs =>
      obtain ⟨c, cs, hseg, hc⟩ := (hsegs seg List.mem_cons_self).isName.toList_eq_cons
      obtain ⟨rest, hrest⟩ := toList_ofSegments_cons seg (segs ++ segments name)
      rw [List.cons_append, hrest, hseg]
      simpa using hc
  rw [join_ofRoot_segments slashes (forall_isName hsegs) hname,
    normalize_ofRoot_down hslashes (by simp [segments_ne_nil]) hhead, partsBelow_append hsegs]
  · intro seg hseg
    rcases List.mem_append.1 hseg with hseg | hseg
    · exact (hsegs seg hseg).no_slash
    · exact not_mem_of_mem_segments hseg
  · intro hmem
    rcases List.mem_append.1 hmem with hmem | hmem
    · exact (hsegs ".." hmem).ne_dots rfl
    · exact hdots hmem

/-- What stands below a directory begins like it. -/
theorem beginsWith_ofRoot_append (slashes : Nat) (segs below : List String) :
    beginsWith (ofRoot slashes (segs ++ below)) (ofRoot slashes segs) = true := by
  rw [beginsWith_iff, toList_ofRoot, toList_ofRoot]
  apply (List.prefix_append_right_inj _).2
  by_cases hbelow : below = []
  · simp [hbelow]
  by_cases hsegs : segs = []
  · simp [hsegs]
  rw [ofSegments_append hsegs hbelow, String.append_assoc, String.toList_append]
  exact List.prefix_append _ _

/-- What stands below a directory lies under it. -/
theorem isUnder_ofRoot_append {below : List String} (hslashes : slashes ≠ 0)
    (hsegs : ∀ seg ∈ segs, IsName seg) (hbelow : ∀ seg ∈ below, IsName seg) :
    isUnder (ofRoot slashes (segs ++ below)) (ofRoot slashes segs) = true := by
  have hself : isUnder (ofRoot slashes segs) (ofRoot slashes segs) = true :=
    isUnder_iff.2 (.inl rfl)
  by_cases hne : below = []
  · rwa [hne, List.append_nil]
  · rw [← join_ofRoot_ofSegments hsegs hbelow hne]
    exact isUnder_join (ofRoot_ne_empty hslashes segs) hself (isAbsolute_ofSegments hbelow)

end

/-- A name without double dots that is seen from a base directory both begins like it and lies under
it. -/
theorem beginsWith_isUnder_normalize_join {base name : String} (habsolute : isAbsolute base = true)
    (hcanonical : normalize base = base) (hname : isAbsolute name = false)
    (hdots : ".." ∉ segments name) :
    beginsWith (normalize (join base name)) base = true ∧
      isUnder (normalize (join base name)) base = true := by
  obtain ⟨slashes, segs, hslashes, hsegs, rfl⟩ := exists_ofRoot_of_normalize_eq habsolute hcanonical
  have hbelow := isOrdinary_partsBelow hdots fun seg hseg => not_mem_of_mem_segments hseg
  rw [normalize_join_ofRoot hslashes hsegs hname hdots]
  exact ⟨beginsWith_ofRoot_append slashes segs _,
    isUnder_ofRoot_append (by omega) (forall_isName hsegs) (forall_isName hbelow)⟩

/-! ## Paths that begin like a base directory -/

/-- Whether a path begins like a base directory, but goes on in the middle of a name: it leads into
another directory beside it. -/
def Strays (path base : String) : Prop :=
  finishesWith base "/" = false ∧ ∃ c cs, path.toList = base.toList ++ c :: cs ∧ c ≠ '/'

theorem stripped_eq_self {base : String} (h : finishesWith base "/" = false) :
    stripped base = base := by
  obtain ⟨slashes, hsplit, hslashes⟩ := exists_stripped_append base
  rcases List.eq_nil_or_concat slashes.toList with hnil | ⟨init, last, hlast⟩
  · rw [String.toList_eq_nil_iff.1 hnil, String.append_empty] at hsplit
    exact hsplit.symm
  · have hslash : last = '/' := hslashes last (by simp [hlast])
    have hends : finishesWith base "/" = true := by
      refine finishesWith_iff.2 ⟨(stripped base).toList ++ init, ?_⟩
      have hlist := congrArg String.toList hsplit
      rw [String.toList_append, hlast, hslash] at hlist
      simpa using hlist.symm
    rw [h] at hends
    cases hends

/-- What begins like a directory with a trailing slash lies under it. -/
theorem isUnder_of_finishesWith {path base : String} (hends : finishesWith base "/" = true)
    (hbegins : beginsWith path base = true) : isUnder path base = true := by
  obtain ⟨front, hfront⟩ := finishesWith_iff.1 hends
  have hsplit : base = .ofList front ++ ("/" ++ "") := by
    apply String.toList_inj.1
    simp [← hfront]
  have hstripped := beginsWith_stripped_slash (.ofList front) ""
  rw [← hsplit] at hstripped
  have hsame : stripped base = stripped (.ofList front) := by
    rw [hsplit]
    exact stripped_append _ isSlashes_slash
  rw [← hsame] at hstripped
  exact isUnder_iff.2 (.inr (beginsWith_iff.2
    ((beginsWith_iff.1 hstripped).trans (beginsWith_iff.1 hbegins))))

/-- Paths that go astray begin like the base directory without being under it. -/
theorem strays_iff {path base : String} :
    Strays path base ↔ beginsWith path base = true ∧ isUnder path base = false := by
  constructor
  · rintro ⟨hends, c, cs, hpath, hc⟩
    refine ⟨beginsWith_iff.2 ⟨c :: cs, hpath.symm⟩, Bool.eq_false_iff.2 fun hunder => ?_⟩
    rcases isUnder_iff.1 hunder with rfl | hbegins
    · simp at hpath
    · rw [stripped_eq_self hends, beginsWith_iff, hpath, String.toList_append] at hbegins
      obtain ⟨rest, hrest⟩ := (List.prefix_append_right_inj _).1 hbegins
      exact hc (List.cons_eq_cons.1 hrest).1.symm
  · rintro ⟨hbegins, hunder⟩
    have hends : finishesWith base "/" = false := by
      rw [Bool.eq_false_iff]
      intro hends
      rw [isUnder_of_finishesWith hends hbegins] at hunder
      cases hunder
    obtain ⟨rest, hrest⟩ := beginsWith_iff.1 hbegins
    have hnot : ¬ (path = base ∨ beginsWith path (stripped base ++ "/") = true) := by
      rw [← isUnder_iff, hunder]
      exact Bool.false_ne_true
    rw [stripped_eq_self hends] at hnot
    cases rest with
    | nil => exact absurd (.inl (String.toList_inj.1 (by simpa using hrest.symm))) hnot
    | cons c cs =>
      refine ⟨hends, c, cs, hrest.symm, ?_⟩
      rintro rfl
      exact hnot (.inr (beginsWith_iff.2 ⟨cs, by simp [← hrest]⟩))

instance (path base : String) : Decidable (Strays path base) :=
  decidable_of_iff _ strays_iff.symm

/-- What lies under a directory without a trailing slash begins like it. -/
theorem beginsWith_of_isUnder {path base : String} (hends : finishesWith base "/" = false)
    (hunder : isUnder path base = true) : beginsWith path base = true := by
  rcases isUnder_iff.1 hunder with rfl | hbegins
  · exact beginsWith_iff.2 (List.prefix_refl _)
  · rw [stripped_eq_self hends, beginsWith_iff, String.toList_append] at hbegins
    exact beginsWith_iff.2 ((List.prefix_append _ _).trans hbegins)

/-- Only below the root of two slashes lie paths that do not begin like it: those with one. -/
theorem isUnder_not_beginsWith_iff {path base : String} (hpath : isAbsolute path = true)
    (hpath_canonical : normalize path = path) (hbase : isAbsolute base = true)
    (hbase_canonical : normalize base = base) :
    (isUnder path base = true ∧ beginsWith path base = false) ↔
      base = "//" ∧ leadingSlashes path = 1 := by
  obtain ⟨slashes, segs, hslashes, hsegs, hpath_eq⟩ :=
    exists_ofRoot_of_normalize_eq hpath hpath_canonical
  have hnames : ∀ seg ∈ segs, IsName seg := forall_isName hsegs
  have hleading : leadingSlashes path = slashes := by
    rw [hpath_eq]
    exact leadingSlashes_ofRoot (by omega) hnames
  have hlist : path.toList = List.replicate slashes '/' ++ (ofSegments segs).toList := by
    rw [hpath_eq, toList_ofRoot]
  constructor
  · rintro ⟨hunder, hbegins⟩
    obtain ⟨root, parts, hroot, hparts, rfl⟩ := exists_ofRoot_of_normalize_eq hbase hbase_canonical
    have hnil : parts = [] := by
      by_contra hne
      obtain ⟨c, hlast, hc⟩ := exists_getLast?_ofRoot root hne (forall_isName hparts)
      have hends : finishesWith (ofRoot root parts) "/" = false := by
        rw [Bool.eq_false_iff]
        intro hends
        obtain ⟨front, hfront⟩ := finishesWith_iff.1 hends
        rw [← hfront] at hlast
        exact hc (Option.some.inj (hlast.symm.trans List.getLast?_concat))
      rw [beginsWith_of_isUnder hends hunder] at hbegins
      cases hbegins
    have hshort : slashes < root := by
      by_contra hle
      have hprefix : (ofRoot root parts).toList <+: path.toList := by
        rw [hnil, toList_ofRoot, hlist]
        refine ⟨List.replicate (slashes - root) '/' ++ (ofSegments segs).toList, ?_⟩
        rw [ofSegments_nil, String.toList_empty, List.append_nil, ← List.append_assoc,
          List.replicate_append_replicate, Nat.add_sub_cancel' (by omega)]
      rw [beginsWith_iff.2 hprefix] at hbegins
      cases hbegins
    obtain ⟨rfl, rfl⟩ : root = 2 ∧ slashes = 1 := by omega
    exact ⟨by rw [hnil]; rfl, hleading⟩
  · rintro ⟨rfl, hone⟩
    rw [hleading] at hone
    subst hone
    refine ⟨isUnder_iff.2 (.inr ?_), ?_⟩
    · have hroot : stripped "//" ++ "/" = "/" := rfl
      rw [hroot]
      exact hpath
    · rw [Bool.eq_false_iff]
      intro hbegins
      obtain ⟨rest, hrest⟩ := beginsWith_iff.1 hbegins
      have hlist_one : path.toList = '/' :: (ofSegments segs).toList := hlist
      rw [hlist_one] at hrest
      obtain ⟨-, hsecond⟩ := List.cons_eq_cons.1 hrest
      exact head?_ofSegments hnames (by rw [← hsecond]; rfl)

end DeclBundle.Path

namespace DeclBundle.Bundle

open Text DeclBundle.Path

/-! ## Inputs -/

/-- Where an input belongs: the path that its name has in the working directory, if that lies under
the base directory, and the path that its name has in the base directory otherwise. -/
def anchored (workingDirectory base file : String) : String :=
  if isUnder (absolute workingDirectory file) base then absolute workingDirectory file
  else normalize (join base file)

/-- Whether a file is named from a directory, and its name does not climb out of it. -/
structure IsRelativeName (file : String) : Prop where
  relative : isAbsolute file = false
  noClimb : ".." ∉ segments file

section

variable {workingDirectory base : String} (hplace : isAbsolute workingDirectory = true)
  (habsolute : isAbsolute base = true) (hcanonical : normalize base = base)

include habsolute hcanonical

/-- What an input is resolved to lies under the base directory unless it goes astray. -/
theorem isUnder_resolveInput_iff {file : String} (hfile : IsRelativeName file) :
    isUnder (resolveInput workingDirectory base file) base = true ↔
      ¬ Strays (absolute workingDirectory file) base := by
  have hjoined := beginsWith_isUnder_normalize_join habsolute hcanonical hfile.relative hfile.noClimb
  rw [strays_iff, resolveInput]
  split
  · rename_i hbegins
    simp [hbegins]
  · rename_i hbegins
    simp [hbegins, hjoined.2]

include hplace

/-- Where the path in the working directory begins like the base directory just if it lies under it,
an input is resolved to where it belongs, and nowhere else. -/
theorem resolveInput_eq_anchored_iff {file : String} (hfile : IsRelativeName file) :
    resolveInput workingDirectory base file = anchored workingDirectory base file ↔
      ¬ Strays (absolute workingDirectory file) base ∧
        ¬ (base = "//" ∧ leadingSlashes (absolute workingDirectory file) = 1) := by
  have hjoined := beginsWith_isUnder_normalize_join habsolute hcanonical hfile.relative hfile.noClimb
  have hpath := isAbsolute_absolute hplace file
  rw [strays_iff, ← isUnder_not_beginsWith_iff hpath (normalize_normalize _) habsolute hcanonical,
    resolveInput, anchored]
  -- the path in the base directory passes both tests, so it is another path where they differ
  cases hbegins : beginsWith (absolute workingDirectory file) base <;>
    cases hunder : isUnder (absolute workingDirectory file) base
  · simp
  · have hne : normalize (join base file) ≠ absolute workingDirectory file := by
      intro heq
      rw [← heq, hjoined.1] at hbegins
      cases hbegins
    simp [hne]
  · have hne : absolute workingDirectory file ≠ normalize (join base file) := by
      intro heq
      rw [heq, hjoined.2] at hunder
      cases hunder
    simp [hne]
  · simp

/-- Inputs are resolved to where they belong, in order, just if none of them goes astray and none has
one leading slash where the base directory is the root of two; and all of them lie under the base
directory just if none goes astray. -/
theorem resolveInputs_eq_anchored_iff {files : List String}
    (hfiles : ∀ file ∈ files, IsRelativeName file) :
    (resolveInputs workingDirectory base files = files.map (anchored workingDirectory base) ↔
      ∀ file ∈ files, ¬ Strays (absolute workingDirectory file) base ∧
        ¬ (base = "//" ∧ leadingSlashes (absolute workingDirectory file) = 1)) ∧
    ((∀ path ∈ resolveInputs workingDirectory base files, isUnder path base = true) ↔
      ∀ file ∈ files, ¬ Strays (absolute workingDirectory file) base) := by
  constructor
  · rw [resolveInputs, List.map_inj_left]
    exact forall₂_congr fun file hfile =>
      resolveInput_eq_anchored_iff hplace habsolute hcanonical (hfiles file hfile)
  · rw [resolveInputs, List.forall_mem_map]
    exact forall₂_congr fun file hfile =>
      isUnder_resolveInput_iff habsolute hcanonical (hfiles file hfile)

end

instance (file : String) : Decidable (IsRelativeName file) :=
  decidable_of_iff (isAbsolute file = false ∧ ".." ∉ segments file)
    ⟨fun h => ⟨h.1, h.2⟩, fun h => ⟨h.relative, h.noClimb⟩⟩

/-- Files of the base directory, one of them named from the directory above it. -/
theorem resolveInputs_eq_anchored :
    resolveInputs "/w" "/w/src" ["a.ts", "src/b.ts"] = ["/w/src/a.ts", "/w/src/b.ts"] := by
  have hfiles : ∀ file ∈ ["a.ts", "src/b.ts"], IsRelativeName file := by decide +kernel
  have hplace : isAbsolute "/w" = true := by decide +kernel
  have hbase : isAbsolute "/w/src" = true ∧ normalize "/w/src" = "/w/src" := by decide +kernel
  have hresolve := (resolveInputs_eq_anchored_iff hplace hbase.1 hbase.2 hfiles).1.2
    (by decide +kernel)
  rw [hresolve]
  decide +kernel

/-- A file beside the base directory, in a directory whose name begins like the base directory, is
resolved to itself: not to where it belongs, and not under the base directory. -/
theorem resolveInputs_beside :
    resolveInputs "/w" "/w/src" ["src2/a.ts"] = ["/w/src2/a.ts"] ∧
      isUnder "/w/src2/a.ts" "/w/src" = false ∧
      anchored "/w" "/w/src" "src2/a.ts" = "/w/src/src2/a.ts" := by
  decide +kernel

end DeclBundle.Bundle
