import DeclBundle.Files.Glob
import DeclBundle.Proofs.Files.Pattern
import DeclBundle.Proofs.Path.Relative
set_option autoImplicit false

/-!
# What expanding a pattern finds

Every path that expanding a pattern finds fits the pattern segment by segment, where a `**` may
stand for no segment at all (`Globe.exists_of_mem_expandUpTo`).  Only a `**` at the end that stands
for none leaves a slash at the end of the path.
-/

namespace DeclBundle.Files

open DeclBundle.Path (IsName ofRoot openPath)

/-- Whether the names on the ways of a tree are such: none is empty, and none holds a slash. -/
def FileTree.HasNames (t : FileTree) : Prop :=
  ∀ entry ∈ t.entries, ∀ name ∈ entry.1, IsName name

/-! ## Joining behind a directory -/

section

variable {slashes : Nat} {segs others : List String}

/-- A path that ends with a slash, or is none, is only appended to. -/
theorem join_openPath (hslashes : slashes ≠ 0) {q : String} (hq : Path.isAbsolute q = false) :
    Path.join (openPath slashes segs) q = openPath slashes segs ++ q := by
  have hends : Text.finishesWith (openPath slashes segs) "/" = true := by
    apply Text.finishesWith_iff.2
    rcases Path.getLast?_openPath slashes segs with hnil | hlast
    · cases slashes with
      | zero => exact absurd rfl hslashes
      | succ slashes =>
        unfold openPath at hnil
        split at hnil <;> simp [Path.toList_ofRoot, List.replicate_succ] at hnil
    · obtain ⟨init, hinit⟩ := List.getLast?_eq_some_iff.1 hlast
      exact ⟨init, hinit.symm⟩
  simp [Path.join, hq, hends]

/-- Joining with nothing leaves a slash at the end. -/
theorem join_ofRoot_empty (hslashes : slashes ≠ 0) (hsegs : ∀ seg ∈ segs, IsName seg) :
    Path.join (ofRoot slashes segs) "" = openPath slashes segs := by
  by_cases hnil : segs = []
  · have hopen : openPath slashes segs = ofRoot slashes segs := by rw [openPath, if_pos hnil, hnil]
    rw [← hopen, join_openPath hslashes rfl, String.append_empty]
  · rw [Path.join_ofRoot slashes hnil hsegs rfl, String.append_empty, openPath, if_neg hnil]

/-- A slash at the end of a directory makes no difference for what is joined. -/
theorem join_openPath_eq (hslashes : slashes ≠ 0) (hsegs : ∀ seg ∈ segs, IsName seg)
    (hothers : ∀ seg ∈ others, IsName seg) :
    Path.join (openPath slashes segs) (Path.ofSegments others) =
      Path.join (ofRoot slashes segs) (Path.ofSegments others) := by
  rw [join_openPath hslashes (Path.isAbsolute_ofSegments hothers)]
  by_cases hnil : segs = []
  · have hopen : openPath slashes segs = ofRoot slashes segs := by rw [openPath, if_pos hnil, hnil]
    rw [← hopen, join_openPath hslashes (Path.isAbsolute_ofSegments hothers)]
  · rw [Path.join_ofRoot slashes hnil hsegs (Path.isAbsolute_ofSegments hothers), openPath,
      if_neg hnil]

/-- What is joined to a directory stands below it, perhaps with a slash at the end. -/
theorem join_ofRoot_cases (hslashes : slashes ≠ 0) (hsegs : ∀ seg ∈ segs, IsName seg)
    (hothers : ∀ seg ∈ others, IsName seg) :
    Path.join (ofRoot slashes segs) (Path.ofSegments others) =
      if others = [] then openPath slashes (segs ++ others)
      else ofRoot slashes (segs ++ others) := by
  split
  · next hnil =>
    subst hnil
    rw [List.append_nil]
    exact join_ofRoot_empty hslashes hsegs
  · next hne => exact Path.join_ofRoot_ofSegments hsegs hothers hne

end

/-! ## Patterns below a root -/

/-- A path is a pattern if one of its segments is. -/
theorem isPattern_ofRoot (slashes : Nat) {segs : List String} (hsegs : ∀ seg ∈ segs, IsName seg) :
    isPattern (ofRoot slashes segs) = false ↔ ∀ seg ∈ segs, isPattern seg = false := by
  simp only [isPattern, List.any_eq_false]
  constructor
  · exact fun h seg hseg c hc => h c (Path.mem_ofRoot_of_mem slashes hsegs hseg hc)
  · intro h c hc
    rw [Path.toList_ofRoot] at hc
    rcases List.mem_append.1 hc with hslash | hc
    · rw [List.eq_of_mem_replicate hslash]
      decide
    · rcases Path.mem_ofSegments hc with rfl | ⟨seg, hseg, hc⟩
      · decide
      · exact h seg hseg c hc

namespace Globe

variable {g : Globe}

/-- The names in a directory are names. -/
theorem isName_of_mem_namesIn (htree : g.tree.HasNames) {directory : String}
    {onlyDirectories : Bool} {name : String} (h : name ∈ g.namesIn directory onlyDirectories) :
    IsName name := by
  have hlist := (List.mem_filter.1 h).1
  unfold FileTree.list at hlist
  split at hlist
  · split at hlist
    · obtain ⟨entry, hentry, hname⟩ := List.mem_filterMap.1 hlist
      obtain ⟨-, hlast⟩ := Option.ite_none_right_eq_some.1 hname
      exact htree entry hentry name (List.mem_of_getLast? hlast)
    · cases hlist
  · cases hlist

theorem under_ofSegments {name : String} {names : List String} (hname : IsName name)
    (hne : names ≠ []) (hnames : ∀ other ∈ names, IsName other) :
    under name (Path.ofSegments names) = Path.ofSegments (name :: names) := by
  have hpath : Path.ofSegments names ≠ "" := by
    obtain ⟨c, cs, hlist, -⟩ := Path.toList_ofSegments_eq_cons hne hnames
    intro hempty
    simp [hempty] at hlist
  have hjoin := @Path.join_ofRoot_ofSegments 0 [name] names (by simpa using hname) hnames hne
  simp only [Path.ofRoot_zero, Path.ofSegments_singleton] at hjoin
  simpa [under, hname.1, hpath] using hjoin

/-- What lies below a directory is reached by names. -/
theorem exists_of_mem_below (htree : g.tree.HasNames) {onlyDirectories : Bool} {depth : Nat}
    {directory found : String} (h : found ∈ g.below onlyDirectories depth directory) :
    ∃ names, names ≠ [] ∧ (∀ name ∈ names, IsName name) ∧ found = Path.ofSegments names := by
  induction depth generalizing directory found with
  | zero => cases h
  | succ depth ih =>
    obtain ⟨name, hname, hfound⟩ := List.mem_flatMap.1 h
    have hisName := isName_of_mem_namesIn htree hname
    split at hfound
    · cases hfound
    · rcases List.mem_cons.1 hfound with rfl | hbelow
      · exact ⟨[found], by simp, by simpa using hisName, by simp⟩
      · obtain ⟨rest, hrest, rfl⟩ := List.mem_map.1 hbelow
        obtain ⟨names, hne, hnames, rfl⟩ := ih hrest
        refine ⟨name :: names, by simp, List.forall_mem_cons.2 ⟨hisName, hnames⟩, ?_⟩
        exact under_ofSegments hisName hne hnames

/-- A directory finds itself as the empty path, if at all. -/
theorem eq_empty_of_mem_itself {directory found : String} (h : found ∈ g.itself directory) :
    found = "" := by
  unfold itself at h
  split at h
  · exact List.mem_singleton.1 h
  · cases h

/-- What one segment finds in a directory fits it. -/
theorem exists_of_mem_inDirectory (htree : g.tree.HasNames) {onlyDirectories : Bool}
    {directory segment found : String} (hsegment : IsName segment)
    (h : found ∈ g.inDirectory onlyDirectories directory segment) :
    ∃ names, (∀ name ∈ names, IsName name) ∧ FitsSegments 0 [segment] names ∧
      found = Path.ofSegments names := by
  unfold inDirectory at h
  split at h
  · next hruns =>
    subst hruns
    have hany : ∀ names : List String, FitsSegments 0 ["**"] names := fun names => by
      simpa using FitsSegments.many (Nat.zero_le names.length) FitsSegments.nil
    rcases List.mem_append.1 h with hitself | hbelow
    · exact ⟨[], by simp, hany [], eq_empty_of_mem_itself hitself⟩
    · obtain ⟨names, -, hnames, rfl⟩ := exists_of_mem_below htree hbelow
      exact ⟨names, hnames, hany names, rfl⟩
  · next hruns =>
    split at h
    · obtain ⟨hname, hmatches⟩ := List.mem_filter.1 h
      rw [Bool.and_eq_true] at hmatches
      exact ⟨[found], by simpa using isName_of_mem_namesIn htree hname,
        .one hruns hmatches.2 .nil, by simp⟩
    · next hplain =>
      rw [if_neg hsegment.1] at h
      split at h
      · obtain rfl := List.mem_singleton.1 h
        exact ⟨[found], by simpa using hsegment,
          .refl (by simpa using hplain), by simp⟩
      · cases h

/-- What a pattern below a root finds fits it: the last segment finds something in a directory that
fits the others. -/
theorem exists_of_mem_expandUpTo (htree : g.tree.HasNames) {slashes : Nat}
    (hslashes : slashes ≠ 0) {bound : Nat} {onlyDirectories : Bool} {segs : List String}
    {last path : String} (hsegs : ∀ seg ∈ segs, IsName seg) (hlast : IsName last)
    (h : path ∈ g.expandUpTo bound onlyDirectories (ofRoot slashes (segs ++ [last]))) :
    ∃ names others, (∀ name ∈ names, IsName name) ∧ (∀ name ∈ others, IsName name) ∧
      FitsSegments 0 segs names ∧ FitsSegments 0 [last] others ∧
      path = Path.join (ofRoot slashes names) (Path.ofSegments others) := by
  -- the directories for the last segment are what the pattern without it finds
  induction bound generalizing onlyDirectories segs last path with
  | zero => cases h
  | succ bound ih =>
    have hsplit := Path.splitLast_ofRoot slashes segs hlast.2
    have hdirectory : Path.dropTrailingSlashes (openPath slashes segs) = ofRoot slashes segs := by
      have hdrop := Path.directory_ofRoot slashes hsegs hlast.2
      rwa [Path.directory, hsplit] at hdrop
    have hnonempty := Path.ofRoot_ne_empty hslashes segs
    have hlastNames : ∀ name ∈ [last], IsName name := by simpa using hlast
    unfold expandUpTo at h
    simp only [hsplit, hdirectory, hnonempty, if_false] at h
    split at h
    · next hplain =>
      have hplain := (isPattern_ofRoot slashes
        (List.forall_mem_append.2 ⟨hsegs, hlastNames⟩)).1 (by simpa using hplain)
      obtain ⟨hsegsPlain, hlastPlain⟩ := List.forall_mem_append.1 hplain
      have hpath : path = ofRoot slashes (segs ++ [last]) := by
        simp only [bne_iff_ne, ne_eq, hlast.1, not_false_eq_true, if_true] at h
        split at h
        · exact List.mem_singleton.1 h
        · cases h
      refine ⟨segs, [last], hsegs, hlastNames, .refl hsegsPlain, .refl hlastPlain, ?_⟩
      rw [hpath, join_ofRoot_cases hslashes hsegs hlastNames, if_neg (by simp)]
    · obtain ⟨d, hd, hpath⟩ := List.mem_flatMap.1 h
      obtain ⟨found, hfound, rfl⟩ := List.mem_map.1 hpath
      obtain ⟨others, hothers, hfits, rfl⟩ := exists_of_mem_inDirectory htree hlast hfound
      -- a directory that fits all segments but the last, perhaps with a slash at its end
      obtain ⟨names, hnames, hsegsFits, hjoin⟩ : ∃ names, (∀ name ∈ names, IsName name) ∧
          FitsSegments 0 segs names ∧ (d = ofRoot slashes names ∨ d = openPath slashes names) := by
        split at hd
        · next hpattern =>
          rcases List.eq_nil_or_concat segs with rfl | ⟨init, before, rfl⟩
          · have hroot := (isPattern_ofRoot slashes hsegs).2 (by simp)
            exact absurd hpattern (by simp [hroot])
          · rw [List.concat_eq_append] at hsegs hd ⊢
            obtain ⟨hinit, hbefore⟩ := List.forall_mem_append.1 hsegs
            obtain ⟨names, rest, hnames, hrest, hinitFits, hrestFits, rfl⟩ :=
              ih hinit (hbefore before (by simp)) hd
            refine ⟨names ++ rest, List.forall_mem_append.2 ⟨hnames, hrest⟩,
              hinitFits.append hrestFits, ?_⟩
            rw [join_ofRoot_cases hslashes hnames hrest]
            split
            · exact .inr rfl
            · exact .inl rfl
        · next hplain =>
          obtain rfl := List.mem_singleton.1 hd
          exact ⟨segs, hsegs, .refl ((isPattern_ofRoot slashes hsegs).1 (by simpa using hplain)),
            .inl rfl⟩
      refine ⟨names, others, hnames, hothers, hsegsFits, hfits, ?_⟩
      rcases hjoin with rfl | rfl
      · rfl
      · exact join_openPath_eq hslashes hnames hothers

theorem mem_expandUpTo_of_mem_expand {pattern path : String} (h : path ∈ g.expand pattern) :
    path ∈ g.expandUpTo (pattern.toList.length + 1) false pattern := by
  unfold expand at h
  dsimp only at h
  split at h
  · split at h
    · next heq =>
      rw [heq]
      exact List.mem_cons_of_mem _ h
    · exact h
  · exact h

/-- A path without patterns finds itself alone. -/
theorem eq_of_mem_expand {pattern path : String} (hplain : isPattern pattern = false)
    (h : path ∈ g.expand pattern) : path = pattern := by
  have hmem := mem_expandUpTo_of_mem_expand h
  simp only [expandUpTo, hplain, Bool.not_false, if_true] at hmem
  split at hmem
  · split at hmem
    · exact List.mem_singleton.1 hmem
    · cases hmem
  · split at hmem
    · exact List.mem_singleton.1 hmem
    · cases hmem

end Globe

end DeclBundle.Files
