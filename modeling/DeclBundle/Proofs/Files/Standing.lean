import DeclBundle.Proofs.Files.Entry
import DeclBundle.Proofs.Files.Globbing
import DeclBundle.Proofs.Files.Way
set_option autoImplicit false

/-!
# What stands in a tree

An entry stands at the end of a way if the way leads through directories that are there
(`FileTree.Stands`).  In a tree whose names are those that files can have, all that looking up a path
below a root, listing a directory and asking for directories give is said in terms of it.
-/

namespace DeclBundle.Files

open DeclBundle.Path (IsName IsOrdinary ofRoot openPath)

namespace FileTree

/-! ## Names of files -/

/-- Whether the names in a tree are those that files can have: none is empty, a dot or two, holds a
slash, or is longer than a name may be. -/
def HasFileNames (t : FileTree) : Prop :=
  ∀ entry ∈ t.entries, ∀ name ∈ entry.1,
    IsOrdinary name ∧ (Utf8.encode name.toList).length ≤ nameLimit

instance (t : FileTree) : Decidable t.HasFileNames :=
  inferInstanceAs (Decidable (∀ entry ∈ t.entries, ∀ name ∈ entry.1, _ ∧ _))

variable {t : FileTree} {place : Place} {slashes : Nat} {names : List String} {name : String}
  {e : Entry}

theorem mem_entries_of_entry_eq (hne : names ≠ []) (h : t.entry? names = some e) :
    (names, e) ∈ t.entries := by
  rw [ entry?, if_neg hne] at h
  obtain ⟨entry, hfound, rfl⟩ := Option.map_eq_some_iff.1 h
  have hway : entry.1 = names := by simpa using List.find?_some hfound
  exact hway ▸ List.mem_of_find?_eq_some hfound

theorem exists_entry?_of_mem (h : (names, e) ∈ t.entries) :
    ∃ found, t.entry? names = some found := by
  by_cases hnil : names = []
  · exact ⟨.directory, if_pos hnil⟩
  · have hsome : (t.entries.find? (·.1 == names)).isSome = true := by
      rw [List.find?_isSome]
      exact ⟨_, h, by simp⟩
    obtain ⟨entry, hentry⟩ := Option.isSome_iff_exists.1 hsome
    exact ⟨entry.2, by rw [ entry?, if_neg hnil, hentry]; rfl⟩

/-- The names on a way to an entry are those that files can have. -/
theorem HasFileNames.of_entry_eq (h : t.HasFileNames) (hentry : t.entry? names = some e) :
    ∀ name ∈ names, IsOrdinary name ∧ (Utf8.encode name.toList).length ≤ nameLimit := by
  by_cases hnil : names = []
  · simp [hnil]
  · exact h _ (mem_entries_of_entry_eq hnil hentry)

/-! ## Standing entries -/

/-- Whether an entry stands at the end of a way that leads through directories. -/
structure Stands (t : FileTree) (names : Way) (e : Entry) : Prop where
  follow_eq : t.follow [] names = .ok names
  entry_eq : t.entry? names = some e

theorem follow_eq_self {last : Way} (hnames : ∀ name ∈ names, IsOrdinary name)
    (h : t.follow [] names = .ok last) : last = names := by
  have hlast := follow_ordinary (fun name hname => .inr (hnames name hname)) h
  rwa [List.nil_append, List.filter_eq_self.2 fun name hname => by
    simpa using (hnames name hname).ne_empty] at hlast

theorem follow_singleton (hname : IsOrdinary name) (hdirectory : t.entry? names = some .directory) :
    t.follow names [name] =
      if nameLimit < (Utf8.encode name.toList).length then .error .nameTooLong
      else .ok (names ++ [name]) := by
  rw [follow, hdirectory]
  simp only [hname.ne_empty, hname.ne_dot, hname.ne_dots, decide_false, Bool.or_self,
    Bool.false_eq_true, if_false]
  rfl

/-- An entry stands in a directory that stands. -/
theorem stands_append_iff (hnames : ∀ n ∈ names, IsOrdinary n) (hname : IsOrdinary name)
    (hlength : (Utf8.encode name.toList).length ≤ nameLimit) :
    t.Stands (names ++ [name]) e ↔
      t.Stands names .directory ∧ t.entry? (names ++ [name]) = some e := by
  constructor
  · rintro ⟨hfollow, hentry⟩
    obtain ⟨way, hway, -, hdirectory⟩ := exists_follow_of_append hfollow (List.cons_ne_nil _ _)
    obtain rfl := follow_eq_self hnames hway
    exact ⟨⟨hway, hdirectory⟩, hentry⟩
  · rintro ⟨⟨hfollow, hdirectory⟩, hentry⟩
    refine ⟨?_, hentry⟩
    rw [follow_append, hfollow]
    exact (follow_singleton hname hdirectory).trans (if_neg (Nat.not_lt.2 hlength))

theorem Stands.isOrdinary (h : t.Stands names e) (htree : t.HasFileNames) :
    ∀ name ∈ names, IsOrdinary name :=
  fun name hname => (htree.of_entry_eq h.entry_eq name hname).1

/-- What stands below a directory stands in directories. -/
theorem Stands.of_append {below : List String} (h : t.Stands (names ++ below) e)
    (htree : t.HasFileNames) (hne : below ≠ []) : t.Stands names .directory := by
  obtain ⟨way, hway, -, hdirectory⟩ := exists_follow_of_append h.follow_eq hne
  have hnames : ∀ name ∈ names, IsOrdinary name :=
    (List.forall_mem_append.1 (h.isOrdinary htree)).1
  obtain rfl := follow_eq_self hnames hway
  exact ⟨hway, hdirectory⟩

/-! ## Looking up -/

theorem follow_replicate (count : Nat) (segs : List String) :
    t.follow [] (List.replicate count "" ++ segs) = t.follow [] segs := by
  induction count with
  | zero => rfl
  | succ count ih =>
    rw [List.replicate_succ, List.cons_append, follow, t.entry?_nil]
    exact ih

/-- A path of names below a root is followed name by name. -/
theorem way_ofRoot (hslashes : slashes ≠ 0) (hnames : ∀ n ∈ names, IsName n) :
    t.way place (ofRoot slashes names) = t.follow [] names := by
  rw [way, Path.join, if_pos (Path.isAbsolute_ofRoot hslashes names), Path.segments_ofRoot,
    follow_replicate]
  by_cases hnil : names = []
  · subst hnil
    exact follow_filler (.inl rfl) t.entry?_nil
  · rw [Path.segments_ofSegments hnil fun n hn => (hnames n hn).2]

theorem way_openPath (hslashes : slashes ≠ 0) (hnames : ∀ n ∈ names, IsName n) :
    t.way place (openPath slashes names) =
      (t.follow [] names >>= fun way => t.follow way [""]) := by
  by_cases hnil : names = []
  · subst hnil
    have hroot : t.follow [] [""] = .ok [] := follow_filler (.inl rfl) t.entry?_nil
    rw [openPath, if_pos rfl, way_ofRoot hslashes hnames]
    exact hroot.symm
  · have habsolute : Path.isAbsolute (openPath slashes names) = true := by
      obtain ⟨rest, hrest⟩ := Path.isAbsolute_iff.1 (Path.isAbsolute_ofRoot hslashes names)
      refine Path.isAbsolute_iff.2 ⟨rest ++ ['/'], ?_⟩
      rw [openPath, if_neg hnil, String.toList_append, hrest]
      rfl
    have hsegments : Path.segments (openPath slashes names) =
        List.replicate slashes "" ++ (names ++ [""]) := by
      have hsplit := Path.segments_append_slash (ofRoot slashes names) ""
      rw [String.append_empty] at hsplit
      rw [openPath, if_neg hnil, hsplit, Path.segments_ofRoot,
        Path.segments_ofSegments hnil fun n hn => (hnames n hn).2, List.append_assoc]
      rfl
    rw [way, Path.join, if_pos habsolute, hsegments, follow_replicate, follow_append]

/-- Looking up a path of names below a root gives what stands there. -/
theorem lookup_ofRoot_iff (hslashes : slashes ≠ 0) (hnames : ∀ n ∈ names, IsOrdinary n) :
    t.lookup place (ofRoot slashes names) = .ok e ↔ t.Stands names e := by
  simp only [lookup, way_ofRoot hslashes (Path.forall_isName hnames), bind, Except.bind]
  constructor
  · intro h
    cases hfollow : t.follow [] names with
    | error reason => simp [hfollow] at h
    | ok last =>
      obtain rfl := follow_eq_self hnames hfollow
      simp only [hfollow] at h
      split at h
      · rename_i found hfound
        obtain rfl := Except.ok.inj h
        exact ⟨hfollow, hfound⟩
      · cases h
  · rintro ⟨hfollow, hentry⟩
    simp only [hfollow, hentry]

theorem isPresent_ofRoot_iff (hslashes : slashes ≠ 0) (hnames : ∀ n ∈ names, IsOrdinary n) :
    t.isPresent place (ofRoot slashes names) = true ↔ ∃ e, t.Stands names e := by
  unfold isPresent
  constructor
  · intro h
    split at h
    · rename_i e he
      exact ⟨e, (lookup_ofRoot_iff hslashes hnames).1 he⟩
    · cases h
  · rintro ⟨e, he⟩
    rw [(lookup_ofRoot_iff hslashes hnames).2 he]

/-! ## Listing -/

theorem mem_names_iff : name ∈ t.names names ↔ ∃ e, (names ++ [name], e) ∈ t.entries := by
  simp only [FileTree.names, List.mem_filterMap, Option.ite_none_right_eq_some, Bool.and_eq_true,
    decide_eq_true_eq, List.isPrefixOf_iff_prefix]
  constructor
  · rintro ⟨⟨way, e⟩, hmem, ⟨hlength, rest, rfl⟩, hlast⟩
    obtain ⟨n, rfl⟩ := List.length_eq_one_iff.1 (show rest.length = 1 by simpa using hlength)
    obtain rfl : n = name := by simpa using hlast
    exact ⟨e, hmem⟩
  · rintro ⟨e, hmem⟩
    exact ⟨_, hmem, ⟨by simp, List.prefix_append _ _⟩, by simp⟩

/-- Whether a path names a directory of names below a root, perhaps with a slash at its end. -/
def NamesDirectory (directory : String) (slashes : Nat) (names : List String) : Prop :=
  directory = ofRoot slashes names ∨ directory = openPath slashes names

/-- A path of a directory leads to it if it stands in the tree. -/
theorem NamesDirectory.way_eq {directory : String} (h : NamesDirectory directory slashes names)
    (hslashes : slashes ≠ 0) (hnames : ∀ n ∈ names, IsName n) (hstands : t.Stands names .directory) :
    t.way place directory = .ok names := by
  rcases h with rfl | rfl
  · rw [way_ofRoot hslashes hnames, hstands.follow_eq]
  · rw [way_openPath hslashes hnames, hstands.follow_eq]
    exact follow_filler (.inl rfl) hstands.entry_eq

/-- A path of a directory leads nowhere else. -/
theorem NamesDirectory.stands_of_way {directory : String} {last : Way}
    (h : NamesDirectory directory slashes names) (hslashes : slashes ≠ 0)
    (hnames : ∀ n ∈ names, IsOrdinary n) (hway : t.way place directory = .ok last)
    (hentry : t.entry? last = some .directory) : last = names ∧ t.Stands names .directory := by
  rcases h with rfl | rfl
  · rw [way_ofRoot hslashes (Path.forall_isName hnames)] at hway
    obtain rfl := follow_eq_self hnames hway
    exact ⟨rfl, hway, hentry⟩
  · rw [way_openPath hslashes (Path.forall_isName hnames), ← follow_append] at hway
    obtain ⟨mid, hmid, hlast, hdirectory⟩ := exists_follow_of_append hway (List.cons_ne_nil _ _)
    obtain rfl := follow_eq_self hnames hmid
    rw [follow_filler (.inl rfl) hdirectory] at hlast
    exact ⟨(Except.ok.inj hlast).symm, hmid, hdirectory⟩

/-- A path of a directory leads to a directory just if it stands in the tree. -/
theorem NamesDirectory.isDirectory_iff {directory : String}
    (h : NamesDirectory directory slashes names) (hslashes : slashes ≠ 0)
    (hnames : ∀ n ∈ names, IsOrdinary n) :
    t.isDirectory place directory = true ↔ t.Stands names .directory := by
  unfold isDirectory lookup
  constructor
  · intro hdirectory
    cases hway : t.way place directory with
    | error reason => simp [hway, bind, Except.bind] at hdirectory
    | ok last =>
      cases hentry : t.entry? last with
      | none => simp [hway, hentry, bind, Except.bind] at hdirectory
      | some e =>
        cases e with
        | file content => simp [hway, hentry, bind, Except.bind, Entry.isDirectory] at hdirectory
        | directory => exact (h.stands_of_way hslashes hnames hway hentry).2
  · intro hstands
    simp [h.way_eq hslashes (Path.forall_isName hnames) hstands, hstands.entry_eq, bind,
      Except.bind, Entry.isDirectory]

/-- What is listed of a directory are the names that the tree has there, if it stands. -/
theorem mem_list_iff_names (hslashes : slashes ≠ 0) (hnames : ∀ n ∈ names, IsOrdinary n)
    {directory : String} (hdirectory : NamesDirectory directory slashes names) :
    name ∈ t.list place directory ↔
      t.Stands names .directory ∧ ∃ e, (names ++ [name], e) ∈ t.entries := by
  unfold list
  constructor
  · intro h
    split at h
    · rename_i last hlast
      split at h
      · rename_i hentry
        obtain ⟨e, he, hisDirectory⟩ := (Option.any_eq_true _ _).1 hentry
        cases e with
        | directory =>
          obtain ⟨rfl, hstands⟩ := hdirectory.stands_of_way hslashes hnames hlast he
          exact ⟨hstands, mem_names_iff.1 h⟩
        | file content => cases hisDirectory
      · cases h
    · cases h
  · rintro ⟨hstands, hmem⟩
    simp only [hdirectory.way_eq hslashes (Path.forall_isName hnames) hstands, hstands.entry_eq]
    exact mem_names_iff.2 hmem

/-- The names in a directory are those of the entries that stand in it. -/
theorem mem_list_iff (htree : t.HasFileNames) (hslashes : slashes ≠ 0)
    (hnames : ∀ n ∈ names, IsOrdinary n) {directory : String}
    (hdirectory : NamesDirectory directory slashes names) :
    name ∈ t.list place directory ↔ ∃ e, t.Stands (names ++ [name]) e := by
  rw [mem_list_iff_names hslashes hnames hdirectory]
  constructor
  · rintro ⟨hstands, e, hmem⟩
    obtain ⟨found, hfound⟩ := exists_entry?_of_mem hmem
    obtain ⟨hname, hlength⟩ := htree _ hmem name (by simp)
    exact ⟨found, (stands_append_iff hnames hname hlength).2 ⟨hstands, hfound⟩⟩
  · rintro ⟨e, hstands⟩
    exact ⟨hstands.of_append htree (List.cons_ne_nil _ _), e,
      mem_entries_of_entry_eq (by simp) hstands.entry_eq⟩

end FileTree

end DeclBundle.Files
