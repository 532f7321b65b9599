import DeclBundle.Proofs.Files.Standing
set_option autoImplicit false

/-!
# What stands beneath a directory

In a tree whose names are those that files can have, a `**` finds just what stands below a directory
at the end of a way without hidden names (`Globe.mem_below_iff`): no way in the tree is too long for
it.  So the pattern for everything beneath a directory finds just that
(`Globe.mem_expand_everything_iff`), and whatever a pattern below a root finds stands in the tree
(`Globe.exists_stands_of_mem_expandUpTo`).
-/

namespace DeclBundle.Files

open DeclBundle.Path (IsName IsOrdinary ofRoot openPath)

namespace FileTree

variable {t : FileTree} {slashes : Nat} {names : List String} {directory : String}

/-- What is joined to a directory stands in it, with or without a slash at its end. -/
theorem NamesDirectory.join_eq (h : NamesDirectory directory slashes names) (hslashes : slashes ≠ 0)
    (hnames : ∀ n ∈ names, IsName n) {name : String} (hname : IsName name) :
    Path.join directory name = ofRoot slashes (names ++ [name]) := by
  have hothers : ∀ n ∈ [name], IsName n := by simpa using hname
  have hjoin := @Path.join_ofRoot_ofSegments slashes names [name] hnames hothers (by simp)
  have hopen := @join_openPath_eq slashes names [name] hslashes hnames hothers
  rw [Path.ofSegments_singleton] at hjoin hopen
  rcases h with rfl | rfl
  · exact hjoin
  · rw [hopen, hjoin]

theorem NamesDirectory.ne_empty (h : NamesDirectory directory slashes names)
    (hslashes : slashes ≠ 0) :
    directory ≠ "" := by
  rcases h with rfl | rfl
  · exact Path.ofRoot_ne_empty hslashes names
  · unfold openPath
    split
    · exact Path.ofRoot_ne_empty hslashes []
    · intro hempty
      rw [String.append_eq_empty_iff] at hempty
      exact absurd hempty.2 (by decide)

theorem NamesDirectory.under_eq (h : NamesDirectory directory slashes names) (hslashes : slashes ≠ 0)
    (hnames : ∀ n ∈ names, IsName n) {name : String} (hname : IsName name) :
    Globe.under directory name = ofRoot slashes (names ++ [name]) := by
  rw [Globe.under, if_neg (by simp [h.ne_empty hslashes, hname.1]), h.join_eq hslashes hnames hname]

end FileTree

namespace Globe

open FileTree (NamesDirectory)

variable {g : Globe} {slashes : Nat} {names : List String} {directory path : String}
  {onlyDirectories : Bool}

/-! ## Below a directory -/

/-- The names that are found in a directory are those of what stands in it. -/
theorem mem_namesIn_iff (htree : g.tree.HasFileNames) (hslashes : slashes ≠ 0)
    (hnames : ∀ n ∈ names, IsOrdinary n) (hdirectory : NamesDirectory directory slashes names)
    {name : String} :
    name ∈ g.namesIn directory onlyDirectories ↔
      ∃ e, g.tree.Stands (names ++ [name]) e ∧ (onlyDirectories = true → e = .directory) := by
  have hlist := @FileTree.mem_list_iff g.tree g.place slashes names name htree hslashes hnames
    directory hdirectory
  have hordinary {e : Entry} (h : g.tree.Stands (names ++ [name]) e) : IsOrdinary name :=
    h.isOrdinary htree name (by simp)
  have hjoin {e : Entry} (h : g.tree.Stands (names ++ [name]) e) :
      Path.join directory name = ofRoot slashes (names ++ [name]) :=
    hdirectory.join_eq hslashes (Path.forall_isName hnames) (hordinary h).isName
  have hisDirectory {e : Entry} (h : g.tree.Stands (names ++ [name]) e) :
      g.tree.isDirectory g.place (Path.join directory name) = true ↔
        g.tree.Stands (names ++ [name]) .directory := by
    rw [hjoin h]
    exact NamesDirectory.isDirectory_iff (.inl rfl) hslashes
      (List.forall_mem_append.2 ⟨hnames, by simpa using hordinary h⟩)
  rw [namesIn, List.mem_filter, hlist]
  cases onlyDirectories with
  | false => simp
  | true =>
    constructor
    · rintro ⟨⟨e, he⟩, hkept⟩
      exact ⟨.directory, (hisDirectory he).1 (by simpa using hkept), fun _ => rfl⟩
    · rintro ⟨e, he, hdir⟩
      obtain rfl := hdir rfl
      exact ⟨⟨_, he⟩, by simpa using (hisDirectory he).2 he⟩

/-- What lies below a directory and is not hidden is what stands there at the end of a way without
hidden names. -/
theorem mem_below_iff (htree : g.tree.HasFileNames) (hslashes : slashes ≠ 0)
    (hnames : ∀ n ∈ names, IsOrdinary n) (hdirectory : NamesDirectory directory slashes names)
    {depth : Nat} :
    path ∈ g.below onlyDirectories depth directory ↔
      ∃ below e, below ≠ [] ∧ below.length ≤ depth ∧ (∀ n ∈ below, isHidden n = false) ∧
        path = Path.ofSegments below ∧ g.tree.Stands (names ++ below) e ∧
        (onlyDirectories = true → e = .directory) := by
  induction depth generalizing names directory path with
  | zero =>
    constructor
    · exact fun h => by cases h
    · rintro ⟨below, e, hne, hlength, -⟩
      exact absurd (List.length_eq_zero_iff.1 (Nat.le_zero.1 hlength)) hne
  | succ depth ih =>
    -- what lies below a name in the directory, for a name that stands there
    have hbelow {name : String} (hname : IsOrdinary name) {found : String} :=
      @ih (names ++ [name]) (under directory name) found
        (List.forall_mem_append.2 ⟨hnames, by simpa using hname⟩)
        (.inl (hdirectory.under_eq hslashes (Path.forall_isName hnames) hname.isName))
    rw [below, List.mem_flatMap]
    constructor
    · rintro ⟨name, hname, hpath⟩
      obtain ⟨e, he, honly⟩ := (mem_namesIn_iff htree hslashes hnames hdirectory).1 hname
      have hordinary : IsOrdinary name := he.isOrdinary htree name (by simp)
      split at hpath
      · cases hpath
      · rename_i hvisible
        have hvisible : isHidden name = false := by simpa using hvisible
        rcases List.mem_cons.1 hpath with rfl | hpath
        · exact ⟨[path], e, by simp, by simp, by simpa using hvisible, by simp, he, honly⟩
        · obtain ⟨rest, hrest, rfl⟩ := List.mem_map.1 hpath
          obtain ⟨others, e, hne, hlength, hothers, rfl, hstands, honly⟩ := (hbelow hordinary).1 hrest
          rw [List.append_assoc, List.singleton_append] at hstands
          have hordinaries := (List.forall_mem_append.1 (hstands.isOrdinary htree)).2
          refine ⟨name :: others, e, by simp, by simpa using hlength,
            List.forall_mem_cons.2 ⟨hvisible, hothers⟩, ?_, hstands, honly⟩
          exact under_ofSegments hordinary.isName hne
            fun n hn => (hordinaries n (List.mem_cons_of_mem _ hn)).isName
    · rintro ⟨below, e, hne, hlength, hvisible, rfl, hstands, honly⟩
      obtain ⟨name, others, rfl⟩ := List.exists_cons_of_ne_nil hne
      obtain ⟨hname, hothers⟩ := List.forall_mem_cons.1 hvisible
      have hordinaries := (List.forall_mem_append.1 (hstands.isOrdinary htree)).2
      have hordinary := hordinaries name List.mem_cons_self
      have hsplit : names ++ name :: others = names ++ [name] ++ others := by simp
      by_cases hnil : others = []
      · subst hnil
        refine ⟨name, (mem_namesIn_iff htree hslashes hnames hdirectory).2 ⟨e, hstands, honly⟩, ?_⟩
        simp [hname]
      · rw [hsplit] at hstands
        refine ⟨name, (mem_namesIn_iff htree hslashes hnames hdirectory).2
          ⟨.directory, hstands.of_append htree hnil, fun _ => rfl⟩, ?_⟩
        rw [if_neg (by simp [hname])]
        refine List.mem_cons_of_mem _ (List.mem_map.2 ⟨Path.ofSegments others, ?_, ?_⟩)
        · exact (hbelow hordinary).2 ⟨others, e, hnil, by simpa using hlength, hothers, rfl, hstands,
            honly⟩
        · exact under_ofSegments hordinary.isName hnil
            fun n hn => (hordinaries n (List.mem_cons_of_mem _ hn)).isName

/-- No way in the tree is longer than the bound. -/
theorem length_le_depthBound {way : Way} {e : Entry} (h : (way, e) ∈ g.tree.entries) :
    way.length ≤ g.depthBound := by
  have hmax : ∀ (lengths : List Nat) (start n : Nat), n ≤ start ∨ n ∈ lengths →
      n ≤ lengths.foldl max start := by
    intro lengths
    induction lengths with
    | nil => simp
    | cons first lengths ih =>
      intro start n hn
      refine ih (max start first) n ?_
      rcases hn with hn | hn
      · exact .inl (by omega)
      · rcases List.mem_cons.1 hn with rfl | hn
        · exact .inl (by omega)
        · exact .inr hn
  have hway : way.length ∈ g.tree.entries.map (·.1.length) := List.mem_map_of_mem h
  exact Nat.le_succ_of_le (hmax _ 0 _ (.inr hway))

theorem length_le_of_stands {below : List String} {e : Entry} (hne : below ≠ [])
    (h : g.tree.Stands (names ++ below) e) : below.length ≤ g.depthBound := by
  have hentry := FileTree.mem_entries_of_entry_eq (by simp [hne]) h.entry_eq
  have hlength := g.length_le_depthBound hentry
  rw [List.length_append] at hlength
  omega

/-- A directory of names below a root finds itself just if it stands, where that is looked up. -/
theorem mem_itself_iff (hslashes : slashes ≠ 0) (hnames : ∀ n ∈ names, IsOrdinary n)
    (hdirectory : NamesDirectory directory slashes names) :
    path ∈ g.itself directory ↔
      path = "" ∧ (g.place.looksFirst = true → g.tree.Stands names .directory) := by
  have hstands : g.tree.isDirectory g.place directory = true ↔ g.tree.Stands names .directory :=
    hdirectory.isDirectory_iff hslashes hnames
  have hnonempty := hdirectory.ne_empty hslashes
  rw [itself, List.mem_ite_nil_right]
  cases g.place.looksFirst <;> simp [hnonempty, hstands, and_comm]

/-- What `**` finds in a directory is the directory itself and all that is not hidden below it. -/
theorem mem_inDirectory_runs_iff (htree : g.tree.HasFileNames) (hslashes : slashes ≠ 0)
    (hnames : ∀ n ∈ names, IsOrdinary n) (hdirectory : NamesDirectory directory slashes names) :
    path ∈ g.inDirectory onlyDirectories directory "**" ↔
      path = "" ∧ (g.place.looksFirst = true → g.tree.Stands names .directory) ∨
        ∃ below e, below ≠ [] ∧ (∀ n ∈ below, isHidden n = false) ∧
          path = Path.ofSegments below ∧ g.tree.Stands (names ++ below) e ∧
          (onlyDirectories = true → e = .directory) := by
  rw [inDirectory, if_pos rfl, List.mem_append, mem_itself_iff hslashes hnames hdirectory,
    mem_below_iff htree hslashes hnames hdirectory]
  refine or_congr_right ⟨?_, ?_⟩
  · rintro ⟨below, e, hne, -, hrest⟩
    exact ⟨below, e, hne, hrest⟩
  · rintro ⟨below, e, hne, hvisible, hpath, hstands, honly⟩
    exact ⟨below, e, hne, length_le_of_stands hne hstands, hvisible, hpath, hstands, honly⟩

/-! ## Segment by segment -/

/-- What a segment finds in a directory stands there, if it is not the directory itself. -/
theorem exists_stands_of_mem_inDirectory (htree : g.tree.HasFileNames) (hslashes : slashes ≠ 0)
    (hnames : ∀ n ∈ names, IsOrdinary n) (hdirectory : NamesDirectory directory slashes names)
    {segment : String} (hsegment : IsOrdinary segment)
    (h : path ∈ g.inDirectory onlyDirectories directory segment) :
    ∃ others, path = Path.ofSegments others ∧ (∀ n ∈ others, IsOrdinary n) ∧
      (others ≠ [] → ∃ e, g.tree.Stands (names ++ others) e) := by
  by_cases hruns : segment = "**"
  · subst hruns
    rcases (mem_inDirectory_runs_iff htree hslashes hnames hdirectory).1 h with
      ⟨rfl, -⟩ | ⟨below, e, -, -, rfl, hstands, -⟩
    · exact ⟨[], rfl, by simp, fun hne => absurd rfl hne⟩
    · exact ⟨below, rfl, (List.forall_mem_append.1 (hstands.isOrdinary htree)).2,
        fun _ => ⟨e, hstands⟩⟩
  · rw [inDirectory, if_neg hruns, if_neg hsegment.ne_empty] at h
    split at h
    · obtain ⟨hname, -⟩ := List.mem_filter.1 h
      obtain ⟨e, hstands, -⟩ := (mem_namesIn_iff htree hslashes hnames hdirectory).1 hname
      exact ⟨[path], by simp, (List.forall_mem_append.1 (hstands.isOrdinary htree)).2,
        fun _ => ⟨e, hstands⟩⟩
    · split at h
      · rename_i hpresent
        obtain rfl := List.mem_singleton.1 h
        have hordinary : ∀ n ∈ [path], IsOrdinary n := by simpa using hsegment
        rw [hdirectory.under_eq hslashes (Path.forall_isName hnames) hsegment.isName,
          FileTree.isPresent_ofRoot_iff hslashes (List.forall_mem_append.2 ⟨hnames, hordinary⟩)]
          at hpresent
        exact ⟨[path], by simp, hordinary, fun _ => hpresent⟩
      · cases h

variable {segs : List String} {last : String} {bound : Nat}

/-- A pattern below a root that is none finds itself if it stands in the tree. -/
theorem expandUpTo_of_not_isPattern (hbase : g.base = "") (hlast : IsName last)
    (hplain : isPattern (ofRoot slashes (segs ++ [last])) = false) :
    g.expandUpTo (bound + 1) onlyDirectories (ofRoot slashes (segs ++ [last])) =
      if g.tree.isPresent g.place (ofRoot slashes (segs ++ [last]))
        then [ofRoot slashes (segs ++ [last])] else [] := by
  have hwithin : g.within (ofRoot slashes (segs ++ [last])) = ofRoot slashes (segs ++ [last]) := by
    simp [within, under, hbase]
  rw [expandUpTo, Path.splitLast_ofRoot slashes segs hlast.2]
  simp only [hplain, Bool.not_false, if_true, bne_iff_ne, ne_eq, hlast.1, not_false_eq_true,
    hwithin]

/-- The last segment of a pattern below a root is looked for in what the others find. -/
theorem expandUpTo_of_isPattern (hbase : g.base = "") (hslashes : slashes ≠ 0)
    (hsegs : ∀ seg ∈ segs, IsName seg) (hlast : IsName last)
    (hpattern : isPattern (ofRoot slashes (segs ++ [last])) = true) :
    g.expandUpTo (bound + 1) onlyDirectories (ofRoot slashes (segs ++ [last])) =
      (if isPattern (ofRoot slashes segs) then g.expandUpTo bound true (ofRoot slashes segs)
        else [ofRoot slashes segs]).flatMap fun d =>
          (g.inDirectory onlyDirectories d last).map (Path.join d ·) := by
  have hsplit := Path.splitLast_ofRoot slashes segs hlast.2
  have hdirectory : Path.dropTrailingSlashes (openPath slashes segs) = ofRoot slashes segs := by
    have hdrop := Path.directory_ofRoot slashes hsegs hlast.2
    rwa [Path.directory, hsplit] at hdrop
  have hwithin : ∀ d, g.within d = d := fun d => by simp [within, under, hbase]
  rw [expandUpTo, hsplit]
  simp only [hpattern, Bool.not_true, Bool.false_eq_true, if_false, hdirectory,
    Path.ofRoot_ne_empty hslashes segs, hwithin]

/-- What a pattern below a root finds stands in the tree, but for a slash at its end. -/
theorem exists_stands_of_mem_expandUpTo (htree : g.tree.HasFileNames) (hbase : g.base = "")
    (hslashes : slashes ≠ 0) (hsegs : ∀ seg ∈ segs, IsOrdinary seg) (hlast : IsOrdinary last)
    (h : path ∈ g.expandUpTo bound onlyDirectories (ofRoot slashes (segs ++ [last]))) :
    ∃ names, (∀ n ∈ names, IsOrdinary n) ∧
      (path = openPath slashes names ∨
        path = ofRoot slashes names ∧ ∃ e, g.tree.Stands names e) := by
  induction bound generalizing onlyDirectories segs last path with
  | zero => cases h
  | succ bound ih =>
    have hlastName : ∀ n ∈ [last], IsOrdinary n := by simpa using hlast
    cases hpattern : isPattern (ofRoot slashes (segs ++ [last])) with
    | false =>
      rw [expandUpTo_of_not_isPattern hbase hlast.isName hpattern] at h
      split at h
      · rename_i hpresent
        have hall := List.forall_mem_append.2 ⟨hsegs, hlastName⟩
        exact ⟨segs ++ [last], hall, .inr ⟨List.mem_singleton.1 h,
          (FileTree.isPresent_ofRoot_iff hslashes hall).1 hpresent⟩⟩
      · cases h
    | true =>
      rw [expandUpTo_of_isPattern hbase hslashes (Path.forall_isName hsegs) hlast.isName hpattern,
        List.mem_flatMap] at h
      obtain ⟨d, hd, hpath⟩ := h
      -- the directory, perhaps with a slash at its end
      obtain ⟨names, hnames, hdirectory⟩ : ∃ names, (∀ n ∈ names, IsOrdinary n) ∧
          NamesDirectory d slashes names := by
        split at hd
        · rename_i hsegsPattern
          rcases List.eq_nil_or_concat segs with rfl | ⟨init, before, rfl⟩
          · have hroot := (isPattern_ofRoot slashes (Path.forall_isName hsegs)).2 (by simp)
            exact absurd hsegsPattern (by simp [hroot])
          · rw [List.concat_eq_append] at hsegs hd
            obtain ⟨hinit, hbefore⟩ := List.forall_mem_append.1 hsegs
            obtain ⟨names, hnames, hfound⟩ := ih hinit (hbefore before (by simp)) hd
            exact ⟨names, hnames, hfound.symm.imp_left And.left⟩
        · exact ⟨segs, hsegs, .inl (List.mem_singleton.1 hd)⟩
      obtain ⟨found, hfound, rfl⟩ := List.mem_map.1 hpath
      obtain ⟨others, rfl, hothers, hstands⟩ :=
        exists_stands_of_mem_inDirectory htree hslashes hnames hdirectory hlast hfound
      have hjoin : Path.join d (Path.ofSegments others) =
          if others = [] then openPath slashes (names ++ others)
          else ofRoot slashes (names ++ others) := by
        rw [← join_ofRoot_cases hslashes (Path.forall_isName hnames) (Path.forall_isName hothers)]
        rcases hdirectory with rfl | rfl
        · rfl
        · exact join_openPath_eq hslashes (Path.forall_isName hnames) (Path.forall_isName hothers)
      refine ⟨names ++ others, List.forall_mem_append.2 ⟨hnames, hothers⟩, ?_⟩
      rw [hjoin]
      split
      · exact .inl rfl
      · rename_i hne
        exact .inr ⟨rfl, hstands hne⟩

/-! ## Everything beneath a directory -/

theorem isPattern_ofRoot_of_mem (hsegs : ∀ seg ∈ segs, IsName seg) {seg : String}
    (hseg : seg ∈ segs) (h : isPattern seg = true) : isPattern (ofRoot slashes segs) = true := by
  rw [← Bool.not_eq_false, isPattern_ofRoot slashes hsegs]
  intro hplain
  rw [hplain seg hseg] at h
  cases h

/-- A pattern below a root is expanded segment by segment. -/
theorem expand_ofRoot (g : Globe) (hslashes : slashes ≠ 0) (segs : List String) :
    ∃ bound, g.expand (ofRoot slashes segs) =
      g.expandUpTo (bound + 2) false (ofRoot slashes segs) := by
  obtain ⟨rest, hrest⟩ := Path.isAbsolute_iff.1 (Path.isAbsolute_ofRoot hslashes segs)
  refine ⟨rest.length, ?_⟩
  have hbegins : Text.beginsWith (ofRoot slashes segs) "**" = false := by
    rw [Bool.eq_false_iff]
    intro hbegins
    obtain ⟨tail, htail⟩ := Text.beginsWith_iff.1 hbegins
    rw [hrest] at htail
    exact absurd (List.cons.inj htail).1 (by decide)
  rw [expand, hrest, hbegins]
  simp [Path.ofRoot_ne_empty hslashes segs]

theorem matchesPattern_star (name : String) : matchesPattern "*" name = true := by
  rw [matchesPattern_eq]
  exact fromSomewhere_iff.2 ⟨name.toList, [], by simp, rfl⟩

/-- What `*` finds in a directory are the names in it that are not hidden. -/
theorem mem_inDirectory_star_iff (htree : g.tree.HasFileNames) (hslashes : slashes ≠ 0)
    (hnames : ∀ n ∈ names, IsOrdinary n) (hdirectory : NamesDirectory directory slashes names) :
    path ∈ g.inDirectory false directory "*" ↔
      isHidden path = false ∧ ∃ e, g.tree.Stands (names ++ [path]) e := by
  have hstar : isPattern "*" = true := by decide
  have hshown : isHidden "*" = false := by decide
  rw [inDirectory, if_neg (by decide), if_pos hstar, List.mem_filter,
    mem_namesIn_iff htree hslashes hnames hdirectory]
  simp [hshown, matchesPattern_star, and_comm]

/-- What a `**` behind a directory finds is the directory with a slash at its end, if it stands where
that is looked up, and the directories that stand beneath it. -/
theorem mem_expandUpTo_runs_iff (htree : g.tree.HasFileNames) (hbase : g.base = "")
    (hslashes : slashes ≠ 0) (hnames : ∀ n ∈ names, IsOrdinary n)
    (hplain : isPattern (ofRoot slashes names) = false) :
    path ∈ g.expandUpTo (bound + 1) true (ofRoot slashes (names ++ ["**"])) ↔
      path = openPath slashes names ∧
          (g.place.looksFirst = true → g.tree.Stands names .directory) ∨
        ∃ below, below ≠ [] ∧ (∀ n ∈ below, isHidden n = false) ∧
          path = ofRoot slashes (names ++ below) ∧ g.tree.Stands (names ++ below) .directory := by
  have hsegs := Path.forall_isName hnames
  have hpattern : isPattern (ofRoot slashes (names ++ ["**"])) = true :=
    isPattern_ofRoot_of_mem (List.forall_mem_append.2 ⟨hsegs, by simp [IsName]⟩)
      (List.mem_append_right names List.mem_cons_self) (by decide)
  rw [expandUpTo_of_isPattern hbase hslashes hsegs ⟨by decide, by decide⟩ hpattern, hplain]
  simp only [Bool.false_eq_true, if_false, List.flatMap_cons, List.flatMap_nil, List.append_nil,
    List.mem_map, mem_inDirectory_runs_iff htree hslashes hnames (.inl rfl)]
  have hjoin {below : List String} (hne : below ≠ [])
      (h : g.tree.Stands (names ++ below) .directory) :
      Path.join (ofRoot slashes names) (Path.ofSegments below) =
        ofRoot slashes (names ++ below) := by
    have hbelow := Path.forall_isName (List.forall_mem_append.1 (h.isOrdinary htree)).2
    rw [join_ofRoot_cases hslashes hsegs hbelow, if_neg hne]
  constructor
  · rintro ⟨found, ⟨rfl, hstands⟩ | ⟨below, e, hne, hvisible, rfl, hstands, honly⟩, rfl⟩
    · exact .inl ⟨join_ofRoot_empty hslashes hsegs, hstands⟩
    · obtain rfl := honly trivial
      exact .inr ⟨below, hne, hvisible, hjoin hne hstands, hstands⟩
  · rintro (⟨rfl, hstands⟩ | ⟨below, hne, hvisible, rfl, hstands⟩)
    · exact ⟨"", .inl ⟨rfl, hstands⟩, join_ofRoot_empty hslashes hsegs⟩
    · exact ⟨_, .inr ⟨below, .directory, hne, hvisible, rfl, hstands, fun _ => rfl⟩,
        hjoin hne hstands⟩

/-- The pattern for everything beneath a directory finds what stands there at the end of a way
without hidden names. -/
theorem mem_expand_everything_iff (htree : g.tree.HasFileNames) (hbase : g.base = "")
    (hslashes : slashes ≠ 0) (hnames : ∀ n ∈ names, IsOrdinary n)
    (hplain : isPattern (ofRoot slashes names) = false) :
    path ∈ g.expand (ofRoot slashes ((names ++ ["**"]) ++ ["*"])) ↔
      ∃ below e, below ≠ [] ∧ (∀ n ∈ below, isHidden n = false) ∧
        path = ofRoot slashes (names ++ below) ∧ g.tree.Stands (names ++ below) e := by
  have hruns : ∀ seg ∈ names ++ ["**"], IsName seg :=
    List.forall_mem_append.2 ⟨Path.forall_isName hnames, by simp [IsName]⟩
  have hstar : ∀ seg ∈ (names ++ ["**"]) ++ ["*"], IsName seg :=
    List.forall_mem_append.2 ⟨hruns, by simp [IsName]⟩
  have hrunsPattern : isPattern (ofRoot slashes (names ++ ["**"])) = true :=
    isPattern_ofRoot_of_mem hruns (List.mem_append_right names List.mem_cons_self) (by decide)
  have hpattern : isPattern (ofRoot slashes ((names ++ ["**"]) ++ ["*"])) = true :=
    isPattern_ofRoot_of_mem hstar (List.mem_append_right _ List.mem_cons_self) (by decide)
  obtain ⟨bound, hexpand⟩ := g.expand_ofRoot hslashes ((names ++ ["**"]) ++ ["*"])
  rw [hexpand, expandUpTo_of_isPattern hbase hslashes hruns ⟨by decide, by decide⟩ hpattern,
    hrunsPattern, if_pos rfl, List.mem_flatMap]
  simp only [mem_expandUpTo_runs_iff htree hbase hslashes hnames hplain, List.mem_map]
  constructor
  · rintro ⟨d, hd, name, hname, rfl⟩
    -- the directory in which the last name stands, as a way from the first one
    obtain ⟨dirs, hdirs, hvisible, hdirectory⟩ : ∃ dirs : List String,
        (∀ n ∈ names ++ dirs, IsOrdinary n) ∧ (∀ n ∈ dirs, isHidden n = false) ∧
          NamesDirectory d slashes (names ++ dirs) := by
      rcases hd with ⟨rfl, -⟩ | ⟨below, -, hvisible, rfl, hstands⟩
      · exact ⟨[], by simpa using hnames, by simp, .inr (by simp)⟩
      · exact ⟨below, hstands.isOrdinary htree, hvisible, .inl rfl⟩
    obtain ⟨hshown, e, hstands⟩ := (mem_inDirectory_star_iff htree hslashes hdirs hdirectory).1 hname
    have hordinary : IsOrdinary name := hstands.isOrdinary htree name (by simp)
    rw [hdirectory.join_eq hslashes (Path.forall_isName hdirs) hordinary.isName]
    rw [List.append_assoc] at hstands ⊢
    exact ⟨dirs ++ [name], e, by simp,
      List.forall_mem_append.2 ⟨hvisible, by simpa using hshown⟩, rfl, hstands⟩
  · rintro ⟨below, e, hne, hvisible, rfl, hstands⟩
    rcases List.eq_nil_or_concat below with rfl | ⟨dirs, name, rfl⟩
    · exact absurd rfl hne
    rw [List.concat_eq_append] at hvisible hstands ⊢
    obtain ⟨hdirsVisible, hshown⟩ := List.forall_mem_append.1 hvisible
    rw [← List.append_assoc] at hstands ⊢
    have hordinary := hstands.isOrdinary htree
    obtain ⟨hdirs, hname⟩ := List.forall_mem_append.1 hordinary
    have hlast {d : String} (hdirectory : NamesDirectory d slashes (names ++ dirs)) :
        ∃ found, found ∈ g.inDirectory false d "*" ∧
          Path.join d found = ofRoot slashes (names ++ dirs ++ [name]) :=
      ⟨name, (mem_inDirectory_star_iff htree hslashes hdirs hdirectory).2
        ⟨hshown name (by simp), e, hstands⟩,
        hdirectory.join_eq hslashes (Path.forall_isName hdirs) (hname name (by simp)).isName⟩
    have hdirectory : g.tree.Stands (names ++ dirs) .directory :=
      hstands.of_append htree (List.cons_ne_nil _ _)
    by_cases hnil : dirs = []
    · subst hnil
      exact ⟨openPath slashes names, .inl ⟨rfl, fun _ => by simpa using hdirectory⟩,
        hlast (.inr (by simp))⟩
    · exact ⟨ofRoot slashes (names ++ dirs), .inr ⟨dirs, hnil, hdirsVisible, rfl, hdirectory⟩,
        hlast (.inl rfl)⟩

end Globe

end DeclBundle.Files
