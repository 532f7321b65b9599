import DeclBundle.Proofs.ModuleId.Segments
import DeclBundle.Proofs.Path.Idempotent
import Mathlib.Data.List.Infix
set_option autoImplicit false

/-!
# Relative specifiers as walks

A relative specifier is a walk that starts in the directory of its module, and its segments are the
steps (`resolve_eq_path`).  A walk that never leaves more names than there are directories below the
package stays in the package, and then it leads to a module that no dot begins, which resolves to
itself wherever it is named.
-/

namespace DeclBundle.ModuleId

open Text DeclBundle.Path

/-! ## Walking -/

/-- Where a walk stands: so many directories above the one that holds all packages, and from there
down along names. -/
structure Spot where
  above : Nat := 0
  names : List String
  deriving DecidableEq, Repr

namespace Spot

/-- One step of a walk.  An empty segment and a single dot lead nowhere, a double dot leaves the last
name, or climbs where no name is left, and any other segment is a name that is entered. -/
def enter (s : Spot) (seg : String) : Spot :=
  if seg = "" ∨ seg = "." then s
  else if seg = ".." then
    if s.names = [] then { s with above := s.above + 1 }
    else { s with names := s.names.dropLast }
  else { s with names := s.names ++ [seg] }

/-- Where a walk along segments leads. -/
def follow (s : Spot) (segs : List String) : Spot :=
  segs.foldl enter s

/-- The path to a spot, with a double dot for each directory above.  Nothing is written as a dot. -/
def path (s : Spot) : String :=
  if climbed s.above s.names = [] then "." else ofSegments (climbed s.above s.names)

end Spot

/-- How many names a segment leaves. -/
def rise (seg : String) : Int :=
  if seg = "" ∨ seg = "." then 0 else if seg = ".." then 1 else -1

/-- How many names a walk along segments leaves, less those that it enters. -/
def netRise : List String → Int
  | [] => 0
  | seg :: segs => rise seg + netRise segs

/-! ## Spots and trails -/

namespace Spot

variable {s : Spot} {segs : List String}

/-- The names of a spot are entered one by one: none is a dot, a double dot or empty. -/
def IsProper (s : Spot) : Prop :=
  ∀ name ∈ s.names, IsOrdinary name

theorem IsProper.enter (h : s.IsProper) {seg : String} (hseg : '/' ∉ seg.toList) :
    (s.enter seg).IsProper := by
  unfold Spot.enter
  split
  · exact h
  · rename_i hskip
    split
    · split
      · exact h
      · exact fun name hname => h name (List.dropLast_subset _ hname)
    · rename_i hdots
      obtain ⟨hempty, hdot⟩ := not_or.1 hskip
      intro name hname
      rcases List.mem_append.1 hname with hname | hname
      · exact h name hname
      · rw [List.mem_singleton.1 hname]
        exact ⟨hempty, hdot, hdots, hseg⟩

/-- The trail of a walk to a spot, the last segment first. -/
def trail (s : Spot) : List String :=
  (climbed s.above s.names).reverse

theorem walkStep_trail (h : s.IsProper) (seg : String) :
    walkStep false s.trail seg = (s.enter seg).trail := by
  obtain ⟨above, names⟩ := s
  unfold walkStep enter trail climbed
  by_cases hskip : seg = "" ∨ seg = "."
  · simp [hskip]
  by_cases hdots : seg = ".."
  · subst hdots
    rcases List.eq_nil_or_concat names with rfl | ⟨init, last, rfl⟩
    · cases above <;> simp [List.replicate_succ, ← List.replicate_succ']
    · have hlast : last ≠ ".." := (h last (by simp)).ne_dots
      simp
  · simp only [not_or] at hskip
    simp [hskip, hdots]

/-- A walk along segments is a walk from spot to spot. -/
theorem foldl_walkStep_trail (h : s.IsProper) (hsegs : ∀ seg ∈ segs, '/' ∉ seg.toList) :
    segs.foldl (walkStep false) s.trail = (s.follow segs).trail ∧ (s.follow segs).IsProper := by
  induction segs generalizing s with
  | nil => exact ⟨rfl, h⟩
  | cons seg segs ih =>
    obtain ⟨hseg, hsegs⟩ := List.forall_mem_cons.1 hsegs
    rw [List.foldl_cons, walkStep_trail h]
    exact ih (h.enter hseg) hsegs

/-- The segments of the path to a spot, of which none is empty. -/
theorem segments_path (h : s.IsProper) :
    segments s.path = if climbed s.above s.names = [] then ["."] else climbed s.above s.names := by
  unfold path
  split
  · decide
  · rename_i hne
    exact segments_ofSegments hne fun seg hseg => (isName_climbed s.above h seg hseg).2

theorem ne_empty_of_mem_segments_path (h : s.IsProper) : ∀ seg ∈ segments s.path, seg ≠ "" := by
  rw [segments_path h]
  split
  · decide
  · exact fun seg hseg => (isName_climbed s.above h seg hseg).1

/-! ## Staying below a directory -/

/-- A step that leaves no more names than there are below the first ones leaves these alone. -/
theorem exists_names_enter (base : List String) {names : List String} {seg : String}
    (h : rise seg ≤ names.length) :
    ∃ below, (⟨0, base ++ names⟩ : Spot).enter seg = ⟨0, base ++ below⟩ ∧
      (below.length : Int) = names.length - rise seg := by
  by_cases hskip : seg = "" ∨ seg = "."
  · have hrise : rise seg = 0 := if_pos hskip
    exact ⟨names, if_pos hskip, by omega⟩
  by_cases hdots : seg = ".."
  · have hrise : rise seg = 1 := (if_neg hskip).trans (if_pos hdots)
    have hpos : names ≠ [] := by
      rintro rfl
      rw [hrise] at h
      simp at h
    have hlength := List.length_pos_iff.2 hpos
    refine ⟨names.dropLast, ?_, by rw [hrise, List.length_dropLast]; omega⟩
    rw [enter, if_neg hskip, if_pos hdots, if_neg (by simp [hpos]),
      List.dropLast_append_of_ne_nil hpos]
  · have hrise : rise seg = -1 := (if_neg hskip).trans (if_neg hdots)
    refine ⟨names ++ [seg], ?_, by rw [hrise, List.length_append, List.length_singleton]; omega⟩
    rw [enter, if_neg hskip, if_neg hdots, List.append_assoc]

/-- A walk that never leaves more names than there are below the first ones leaves these alone. -/
theorem exists_names_follow (base : List String) {names : List String}
    (h : ∀ front, front <+: segs → netRise front ≤ names.length) :
    ∃ below, (⟨0, base ++ names⟩ : Spot).follow segs = ⟨0, base ++ below⟩ := by
  induction segs generalizing names with
  | nil => exact ⟨names, rfl⟩
  | cons seg segs ih =>
    have hseg : rise seg ≤ names.length := by
      have hfirst := h [seg] (List.cons_prefix_cons.2 ⟨rfl, List.nil_prefix⟩)
      simpa [netRise] using hfirst
    obtain ⟨below, henter, hlength⟩ := exists_names_enter base hseg
    have hfollow : (⟨0, base ++ names⟩ : Spot).follow (seg :: segs) =
        (⟨0, base ++ below⟩ : Spot).follow segs := by
      rw [follow, List.foldl_cons, henter, follow]
    rw [hfollow]
    -- what the rest of the walk may leave is what the first step has not left
    refine ih fun front hfront => ?_
    have hrest := h (seg :: front) (List.cons_prefix_cons.2 ⟨rfl, hfront⟩)
    rw [netRise] at hrest
    omega

/-- The path to a spot below a directory begins with that of the directory. -/
theorem path_append {base : List String} (hne : base ≠ []) (below : List String) :
    (⟨0, base ++ below⟩ : Spot).path = ofSegments base ∨
      beginsWith (⟨0, base ++ below⟩ : Spot).path (ofSegments base ++ "/") = true := by
  have hpath : (⟨0, base ++ below⟩ : Spot).path = ofSegments (base ++ below) := by
    simp [path, climbed, hne]
  rw [hpath]
  by_cases hbelow : below = []
  · simp [hbelow]
  · right
    rw [ofSegments_append hne hbelow, beginsWith_iff, String.toList_append]
    exact ⟨(ofSegments below).toList, by simp⟩

end Spot

/-! ## Resolving -/

/-- Nothing that begins with a name that no dot begins is relative. -/
theorem isRelative_ofSegments {first : String} (hfirst : IsUndotted first) (others : List String) :
    isRelative (ofSegments (first :: others)) = false := by
  obtain ⟨rest, hrest⟩ := toList_ofSegments_cons first others
  obtain ⟨c, cs, hlist, -⟩ := hfirst.isOrdinary.isName.toList_eq_cons
  have hdot : c ≠ '.' := by
    rintro rfl
    have hbegins : beginsWith first "." = true := beginsWith_iff.2 ⟨cs, by rw [hlist]; rfl⟩
    rw [hfirst.no_dot] at hbegins
    cases hbegins
  rw [isRelative, Bool.eq_false_iff]
  intro hbegins
  obtain ⟨tail, htail⟩ := beginsWith_iff.1 hbegins
  rw [hrest, hlist] at htail
  exact hdot (List.cons.inj htail).1.symm

/-- In a module of a package, a relative specifier names the end of a walk that starts from the
directory of the module, written without empty segments.  If no beginning of the walk leaves more
names than there are directories between the package and the module, the walk ends in the package.
What is named then begins with no dots, and names the same in every module. -/
theorem resolve_eq_path {package dirs : List String} {stem specifier : String} (hne : package ≠ [])
    (hnames : ∀ seg ∈ package ++ dirs ++ [stem], IsUndotted seg)
    (hrelative : isRelative specifier = true) :
    let named := resolve (ofSegments (package ++ dirs ++ [stem])) specifier
    named = ((⟨0, package ++ dirs⟩ : Spot).follow (segments specifier)).path ∧
      (∀ seg ∈ segments named, seg ≠ "") ∧
      ((∀ front, front <+: segments specifier → netRise front ≤ dirs.length) →
        (named = ofSegments package ∨ beginsWith named (ofSegments package ++ "/") = true) ∧
          (∀ first, (segments named).head? = some first → first ≠ "." ∧ first ≠ "..") ∧
          ∀ other, resolve other named = named) := by
  intro named
  obtain ⟨hdirs, hstem⟩ := List.forall_mem_append.1 hnames
  have hordinary : ∀ seg ∈ package ++ dirs, IsOrdinary seg :=
    fun seg hseg => (hdirs seg hseg).isOrdinary
  have hproper : (⟨0, package ++ dirs⟩ : Spot).IsProper := hordinary
  obtain ⟨htrail, hend⟩ := Spot.foldl_walkStep_trail hproper (no_slash_segments specifier)
  obtain ⟨first, others, rfl⟩ := List.exists_cons_of_ne_nil hne
  have hnamed : named =
      ((⟨0, first :: others ++ dirs⟩ : Spot).follow (segments specifier)).path := by
    have hothers : ∀ seg ∈ others ++ dirs, '/' ∉ seg.toList :=
      fun seg hseg => (hdirs seg (List.mem_cons_of_mem first hseg)).no_slash
    have hresolve := resolve_ofSegments (hdirs first (by simp)).isOrdinary.isName hothers
      (filter_eq_self_of_isOrdinary hordinary) hordinary (hstem stem (by simp)).no_slash hrelative
    have hstart : (first :: others ++ dirs).reverse =
        (⟨0, first :: others ++ dirs⟩ : Spot).trail := by simp [Spot.trail, climbed]
    rw [List.cons_append] at hstart
    simp only [hstart, List.cons_append] at hresolve htrail hend ⊢
    rw [htrail, Spot.trail, List.reverse_reverse] at hresolve
    simp only [named, List.cons_append, hresolve, Spot.path]
    generalize Spot.follow _ _ = s at hend ⊢
    by_cases hnil : climbed s.above s.names = []
    · simp [hnil]
    · obtain ⟨c, cs, hlist, -⟩ := toList_ofSegments_eq_cons hnil (isName_climbed s.above hend)
      rw [if_neg hnil, if_neg]
      intro hempty
      rw [hempty] at hlist
      cases hlist
  refine ⟨hnamed, ?_, fun hrise => ?_⟩
  · rw [hnamed]
    exact Spot.ne_empty_of_mem_segments_path hend
  · obtain ⟨below, hbelow⟩ := Spot.exists_names_follow (first :: others) hrise
    rw [hbelow] at hnamed hend
    have hpath : named = ofSegments (first :: (others ++ below)) := by
      rw [hnamed]
      simp [Spot.path, climbed]
    have hfirst : IsUndotted first := hdirs first (by simp)
    refine ⟨?_, ?_, fun other => ?_⟩
    · rw [hnamed]
      exact Spot.path_append (List.cons_ne_nil _ _) below
    · have hsegments : segments named = first :: (others ++ below) := by
        rw [hpath]
        exact segments_ofSegments (List.cons_ne_nil _ _) fun seg hseg => (hend seg hseg).no_slash
      intro head hhead
      rw [hsegments, List.head?_cons, Option.some_inj] at hhead
      subst hhead
      exact ⟨hfirst.isOrdinary.ne_dot, hfirst.isOrdinary.ne_dots⟩
    · rw [hpath]
      exact resolve_of_not_isRelative _ _ (isRelative_ofSegments hfirst _)

/-- A walk with repeated slashes, dots and a name that a dot begins stays in a package of two
segments, though it leaves all directories below it on the way. -/
theorem resolve_eq_path_hidden :
    let specifier := "./..//.../../../x/.hidden/"
    isRelative specifier = true ∧
      (∀ seg ∈ ["scope", "lib"] ++ ["a", "b"] ++ ["m"], IsUndotted seg) ∧
      (∀ front, front <+: segments specifier → netRise front ≤ 2) ∧
      resolve "scope/lib/a/b/m" specifier = "scope/lib/x/.hidden" ∧
      beginsWith (resolve "scope/lib/a/b/m" specifier) "scope/lib/" = true ∧
      resolve "other/n" (resolve "scope/lib/a/b/m" specifier) = "scope/lib/x/.hidden" := by
  intro specifier
  have hrelative : isRelative specifier = true := by decide
  have hnames : ∀ seg ∈ ["scope", "lib"] ++ ["a", "b"] ++ ["m"], IsUndotted seg := by decide
  have hsegments : segments specifier =
      [".", "..", "", "...", "..", "..", "x", ".hidden", ""] := by decide
  have hrise : ∀ front, front <+: segments specifier → netRise front ≤ 2 := by
    intro front hfront
    rw [← List.mem_inits, hsegments] at hfront
    revert front
    decide
  have hmodule : ofSegments (["scope", "lib"] ++ ["a", "b"] ++ ["m"]) = "scope/lib/a/b/m" := by
    decide
  obtain ⟨hnamed, -, hstays⟩ := resolve_eq_path (by simp) hnames hrelative
  obtain ⟨hbegins, -, hagain⟩ := hstays hrise
  rw [hmodule] at hnamed hbegins hagain
  have hpath : resolve "scope/lib/a/b/m" specifier = "scope/lib/x/.hidden" := by
    rw [hnamed, hsegments]
    decide
  refine ⟨hrelative, hnames, hrise, hpath, ?_, ?_⟩
  · refine hbegins.resolve_left ?_
    rw [hpath]
    decide
  · rw [hagain, hpath]

end DeclBundle.ModuleId
