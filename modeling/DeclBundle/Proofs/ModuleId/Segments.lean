import DeclBundle.ModuleId
import DeclBundle.Proofs.Path.Relative
import DeclBundle.Proofs.Path.Trailing
set_option autoImplicit false

/-!
# Module identifiers as segments

The identifier of a file below a base directory is made of the segments of the package and those
that the file adds to the base (`ofFile_ofRoot`).  A relative specifier is a walk that starts from
the directory of the module (`resolve_ofSegments`).
-/

namespace DeclBundle.ModuleId

open Text DeclBundle.Path

/-! ## Suffixes -/

/-- A suffix without slashes belongs to what follows the last slash. -/
theorem finishesWith_append {before last suffix : String}
    (hbefore : before.toList = [] ∨ before.toList.getLast? = some '/')
    (hsuffix : '/' ∉ suffix.toList) :
    finishesWith (before ++ last) suffix = finishesWith last suffix := by
  rw [Bool.eq_iff_iff, finishesWith_iff, finishesWith_iff, String.toList_append]
  constructor
  · intro h
    rcases List.suffix_or_suffix_of_suffix h (List.suffix_append _ _) with hle | ⟨rest, hrest⟩
    · exact hle
    · -- a suffix longer than `last` would take the slash before it along
      rw [← hrest, List.suffix_append_self_iff] at h
      rcases List.eq_nil_or_concat rest with rfl | ⟨init, c, rfl⟩
      · exact ⟨[], hrest.symm⟩
      · obtain ⟨front, hfront⟩ := h
        have hlast : before.toList.getLast? = some c := by simp [← hfront]
        rcases hbefore with hnil | hslash
        · simp [hnil] at hlast
        · have hc : c = '/' := by simpa [hslash] using hlast.symm
          exact absurd (by simp [← hrest, hc]) hsuffix
  · intro h
    exact h.trans (List.suffix_append _ _)

/-- Taking a suffix without slashes off a path takes it off the last segment. -/
theorem withoutSuffix_ofRoot (slashes : Nat) (segs : List String) (last : String) {suffix : String}
    (hsuffix : '/' ∉ suffix.toList) :
    withoutSuffix (ofRoot slashes (segs ++ [last])) suffix =
      ofRoot slashes (segs ++ [withoutSuffix last suffix]) := by
  rw [ofRoot_append_singleton, ofRoot_append_singleton]
  simp only [withoutSuffix, finishesWith_append (getLast?_openPath slashes segs) hsuffix]
  split
  · rename_i hends
    have hle := (finishesWith_iff.1 hends).length_le
    apply String.toList_inj.1
    simp only [withoutLast, String.toList_append, String.toList_ofList, List.length_append]
    rw [Nat.add_sub_assoc hle, List.take_length_add_append]
  · rfl

theorem withoutSuffix_append (s suffix : String) : withoutSuffix (s ++ suffix) suffix = s := by
  have hends : finishesWith (s ++ suffix) suffix = true := by
    rw [finishesWith_iff, String.toList_append]
    exact List.suffix_append _ _
  apply String.toList_inj.1
  simp [withoutSuffix, hends, withoutLast]

theorem mem_of_mem_withoutSuffix {c : Char} {s suffix : String}
    (h : c ∈ (withoutSuffix s suffix).toList) : c ∈ s.toList := by
  unfold withoutSuffix at h
  split at h
  · rw [withoutLast, String.toList_ofList] at h
    exact List.mem_of_mem_take h
  · exact h

/-! ## Identifiers of files -/

theorem withSlashes_eq_self {p : String} (h : '\\' ∉ p.toList) : withSlashes p = p := by
  have hmap : (p.toList.map fun c => if c = '\\' then '/' else c) = p.toList := by
    calc p.toList.map (fun c => if c = '\\' then '/' else c)
        = p.toList.map id := List.map_congr_left fun c hc => by
          have hne : c ≠ '\\' := fun heq => h (heq ▸ hc)
          simp [hne]
      _ = p.toList := List.map_id _
  rw [withSlashes, hmap, String.ofList_toList]

/-- The path that goes on behind a base directory. -/
def beneath (base rest : String) : String :=
  .ofList (stripEnd (· == '/') base.toList) ++ "/" ++ rest

/-- Segments beneath segments below a root. -/
theorem beneath_ofRoot {root : Nat} {base below : List String} (hroot : base = [] → root = 1)
    (hbase : ∀ seg ∈ base, IsName seg) (hne : below ≠ []) :
    beneath (ofRoot root base) (ofSegments below) = ofRoot root (base ++ below) := by
  unfold beneath
  by_cases hnil : base = []
  · have hone := hroot hnil
    subst hnil hone
    rfl
  · rw [stripEnd_ofRoot root hnil hbase, String.ofList_toList, ofRoot, ofRoot,
      ofSegments_append hnil hne, String.append_assoc, String.append_assoc, String.append_assoc]

/-- The identifier of a file beneath a base directory. -/
theorem ofFile_beneath (base package rest : String) (hbase : '\\' ∉ base.toList)
    (hrest : '\\' ∉ rest.toList) :
    ofFile base package (beneath base rest) =
      .ok (package ++ withoutSuffix ("/" ++ rest) declarationSuffix) := by
  have hstrip : '\\' ∉ (stripEnd (· == '/') base.toList) := by
    intro h
    have hmem : '\\' ∈ base.toList.reverse :=
      (List.dropWhile_sublist _).subset (List.mem_reverse.1 h)
    exact hbase (List.mem_reverse.1 hmem)
  unfold beneath
  generalize hroot : String.ofList (stripEnd (· == '/') base.toList) = root
  have hroot' : '\\' ∉ root.toList := by simpa [← hroot] using hstrip
  have hfile : withSlashes (root ++ "/" ++ rest) = root ++ "/" ++ rest :=
    withSlashes_eq_self (by simp [hroot', hrest])
  have hbegins : beginsWith (root ++ "/" ++ rest) (root ++ "/") = true := by
    rw [beginsWith_iff]
    exact ⟨rest.toList, by simp⟩
  have hdrop : String.ofList ((root ++ "/" ++ rest).toList.drop root.toList.length) =
      "/" ++ rest := by
    apply String.toList_inj.1
    simp
  simp only [ofFile, withSlashes_eq_self hbase, hroot, hfile, hbegins, hdrop]
  simp

/-- The identifier of a file below a base directory: the package and the segments that the file
adds to the base, the last one without the declaration suffix. -/
theorem ofFile_ofRoot {root : Nat} {base below : List String} {last : String} (package : String)
    (hroot : base = [] → root = 1) (hbase : ∀ seg ∈ base, IsName seg)
    (hslashes : '\\' ∉ (ofRoot root base).toList)
    (hbelow : '\\' ∉ (ofSegments (below ++ [last])).toList) :
    ofFile (ofRoot root base) package (ofRoot root (base ++ (below ++ [last]))) =
      .ok (package ++ "/" ++ ofSegments (below ++ [withoutSuffix last declarationSuffix])) := by
  have hone (segs : List String) : "/" ++ ofSegments segs = ofRoot 1 segs := rfl
  have hsuffix : '/' ∉ declarationSuffix.toList := by decide
  rw [← beneath_ofRoot hroot hbase (by simp), ofFile_beneath _ package _ hslashes hbelow, hone,
    withoutSuffix_ofRoot 1 _ _ hsuffix, ← hone, String.append_assoc]

/-! ## Resolving -/

theorem isAbsolute_of_isRelative {specifier : String} (h : isRelative specifier = true) :
    isAbsolute specifier = false := by
  obtain ⟨rest, hrest⟩ := beginsWith_iff.1 h
  rw [Bool.eq_false_iff]
  intro habsolute
  obtain ⟨others, hothers⟩ := isAbsolute_iff.1 habsolute
  rw [hothers] at hrest
  simp at hrest

/-- The directory of what stands behind a path is the path without its trailing slashes. -/
theorem directory_append_slash {front name : String} {c : Char} {cs : List Char}
    (hfront : front.toList = c :: cs) (hc : c ≠ '/') (hname : '/' ∉ name.toList) :
    directory (front ++ "/" ++ name) = stripped front := by
  have hlist : (front ++ "/" ++ name).toList = (front ++ "/").toList ++ name.toList :=
    String.toList_append
  have hslash : (front ++ "/").toList.all (· == '/') = false := by
    rw [List.all_eq_false]
    exact ⟨c, by simp [hfront], by simpa using hc⟩
  rw [directory, splitLast_of_toList hlist hname (.inr (by simp)), dropTrailingSlashes,
    String.toList_ofList, hslash, if_neg Bool.false_ne_true]
  exact stripped_append front isSlashes_slash

/-- Resolving a relative specifier walks along the segments before the last slash of the module and
then along its own. -/
theorem resolve_append_slash {front name specifier : String} {c : Char} {cs : List Char}
    (hfront : front.toList = c :: cs) (hc : c ≠ '/') (hname : '/' ∉ name.toList)
    (hrelative : isRelative specifier = true) :
    resolve (front ++ "/" ++ name) specifier =
      let way := ofSegments (walk false (segments front ++ segments specifier))
      if way = "" then "." else way := by
  obtain ⟨slashes, hsplit, hslashes⟩ := exists_stripped_append front
  obtain ⟨ds, hds⟩ := toList_stripped_eq_cons hfront hc
  have hne : stripped front ≠ "" := by
    intro hempty
    rw [hempty] at hds
    cases hds
  have hjoin : join (stripped front) specifier = stripped front ++ "/" ++ specifier := by
    rw [join, if_neg (by simp [isAbsolute_of_isRelative hrelative]),
      if_neg (by simp [hne, finishesWith_stripped])]
  have hleading : leadingSlashes (stripped front ++ "/" ++ specifier) = 0 := by
    have hp : (stripped front ++ "/" ++ specifier).toList =
        List.replicate 0 '/' ++ c :: (ds ++ '/' :: specifier.toList) := by simp [hds]
    exact leadingSlashes_of_toList hp (by omega) (by simpa using hc)
  have hwalk : walk false (segments (stripped front ++ "/" ++ specifier)) =
      walk false (segments front ++ segments specifier) := by
    have hfilter := filter_segments_append (stripped front) hslashes
    rw [← hsplit] at hfilter
    rw [walk, walk, ← foldl_walkStep_filter, ← foldl_walkStep_filter false (_ ++ _),
      segments_append_slash, List.filter_append, List.filter_append, hfilter]
  simp only [resolve, hrelative, if_true, directory_append_slash hfront hc hname, hjoin,
    Path.normalize, hleading]
  simp [hwalk]

/-- Resolving a relative specifier walks along its segments from the directory of the module, where
empty segments do not count. -/
theorem resolve_ofSegments {first name specifier : String} {others dirs : List String}
    (hfirst : IsName first) (hothers : ∀ seg ∈ others, '/' ∉ seg.toList)
    (hfilter : (first :: others).filter (· != "") = dirs) (hdirs : ∀ seg ∈ dirs, IsOrdinary seg)
    (hname : '/' ∉ name.toList) (hrelative : isRelative specifier = true) :
    resolve (ofSegments (first :: others ++ [name])) specifier =
      let way := ofSegments
        ((segments specifier).foldl (walkStep false) dirs.reverse).reverse
      if way = "" then "." else way := by
  obtain ⟨c, cs, hlist, hc⟩ := hfirst.toList_eq_cons
  obtain ⟨rest, hrest⟩ := toList_ofSegments_cons first others
  have hfront : (ofSegments (first :: others)).toList = c :: (cs ++ rest) := by
    rw [hrest, hlist, List.cons_append]
  have hslashes : ∀ seg ∈ first :: others, '/' ∉ seg.toList :=
    List.forall_mem_cons.2 ⟨hfirst.2, hothers⟩
  rw [ofSegments_append (List.cons_ne_nil _ _) (List.cons_ne_nil _ _), ofSegments_singleton,
    resolve_append_slash hfront hc hname hrelative,
    segments_ofSegments (List.cons_ne_nil _ _) hslashes, walk, List.foldl_append,
    ← foldl_walkStep_filter false (first :: others), hfilter, foldl_walkStep_ordinary false hdirs,
    List.append_nil]

end DeclBundle.ModuleId
