import DeclBundle.Files.Glob
import DeclBundle.Proofs.Files.Entry
set_option autoImplicit false

/-!
# Trees that differ in one file

Two trees that are alike but for what one file holds agree in everything that only asks what stands
where: where paths lead, which names a directory has, what a pattern finds.  Reading tells them apart
in that file alone, and once it is emptied they are the same tree (`Alike.put_eq`).
-/

namespace DeclBundle.Files

namespace FileTree

variable {t t' : FileTree} {out way : Way} {place : Place} {path : String}

/-! ## Putting an entry in place of a file -/

theorem eq_of_entries (h : t.entries = t'.entries) : t = t' := by
  cases t
  cases t'
  exact congrArg FileTree.mk h

/-- Whether a file stands at the end of a way. -/
def HasFile (t : FileTree) (way : Way) : Prop :=
  ∃ content, t.entry? way = some (.file content)

theorem HasFile.ne_nil (h : t.HasFile out) : out ≠ [] := by
  rintro rfl
  obtain ⟨content, hcontent⟩ := h
  rw [ entry?, if_pos rfl] at hcontent
  cases hcontent

/-- An entry that is put in place of a file stands where the file stood. -/
theorem HasFile.entries_put (h : t.HasFile out) (e : Entry) :
    (t.put out e).entries = t.entries.map (replaced out e) := by
  have hne := h.ne_nil
  obtain ⟨content, hcontent⟩ := h
  rw [ entry?, if_neg hne] at hcontent
  obtain ⟨found, hfound, -⟩ := Option.map_eq_some_iff.1 hcontent
  have hany : t.entries.any (·.1 == out) = true :=
    List.any_eq_true.2 ⟨found, List.mem_of_find?_eq_some hfound, by
      simpa using List.find?_some hfound⟩
  exact entries_put_of_any hany e

theorem HasFile.ways_put (h : t.HasFile out) (e : Entry) :
    (t.put out e).entries.map (·.1) = t.entries.map (·.1) := by
  rw [h.entries_put, List.map_map]
  exact List.map_congr_left fun entry _ => replaced_fst out e entry

theorem HasFile.put (h : t.HasFile out) (content : List UInt8) :
    (t.put out (.file content)).HasFile out :=
  ⟨content, t.entry?_put_self h.ne_nil _⟩

theorem HasFile.put_put (h : t.HasFile out) (content : List UInt8) (e : Entry) :
    (t.put out (.file content)).put out e = t.put out e := by
  apply eq_of_entries
  rw [(h.put content).entries_put, h.entries_put, h.entries_put, List.map_map]
  refine List.map_congr_left fun entry _ => ?_
  by_cases hkey : entry.1 = out <;> simp [replaced, hkey]

/-! ## What stands where -/

/-- Whether a directory stands at the end of a way, if anything does. -/
def kind? (t : FileTree) (way : Way) : Option Bool :=
  (t.entry? way).map Entry.isDirectory

/-- Whether two trees have directories and files at the same places. -/
def SameKinds (t t' : FileTree) : Prop :=
  ∀ way, t'.kind? way = t.kind? way

theorem SameKinds.cases (h : SameKinds t t') (way : Way) :
    (t.entry? way = none ∧ t'.entry? way = none) ∨
      (t.entry? way = some .directory ∧ t'.entry? way = some .directory) ∨
      ∃ content content', t.entry? way = some (.file content) ∧
        t'.entry? way = some (.file content') := by
  have hkind := h way
  unfold kind? at hkind
  cases hentry : t.entry? way with
  | none =>
    rw [hentry] at hkind
    exact .inl ⟨rfl, Option.map_eq_none_iff.1 hkind⟩
  | some e =>
    rw [hentry] at hkind
    obtain ⟨e', hentry', hsame⟩ := Option.map_eq_some_iff.1 hkind
    cases e with
    | directory =>
      cases e' with
      | directory => exact .inr (.inl ⟨rfl, hentry'⟩)
      | file content' => cases hsame
    | file content =>
      cases e' with
      | directory => cases hsame
      | file content' => exact .inr (.inr ⟨content, content', rfl, hentry'⟩)

/-- Paths lead the same way where directories and files stand at the same places. -/
theorem SameKinds.follow_eq (h : SameKinds t t') (way : Way) (segs : List String) :
    t'.follow way segs = t.follow way segs := by
  induction segs generalizing way with
  | nil => rfl
  | cons seg segs ih =>
    rw [follow, follow]
    rcases h.cases way with ⟨ht, ht'⟩ | ⟨ht, ht'⟩ | ⟨content, content', ht, ht'⟩ <;>
      simp only [ht, ht', ih]

theorem SameKinds.way_eq (h : SameKinds t t') (place : Place) (path : String) :
    t'.way place path = t.way place path :=
  h.follow_eq _ _

theorem SameKinds.lookup_cases (h : SameKinds t t') (place : Place) (path : String) :
    (∃ reason, t.lookup place path = .error reason ∧ t'.lookup place path = .error reason) ∨
      (t.lookup place path = .ok .directory ∧ t'.lookup place path = .ok .directory) ∨
      ∃ content content', t.lookup place path = .ok (.file content) ∧
        t'.lookup place path = .ok (.file content') := by
  simp only [lookup, h.way_eq, bind, Except.bind]
  cases t.way place path with
  | error reason => exact .inl ⟨reason, rfl, rfl⟩
  | ok way =>
    rcases h.cases way with ⟨ht, ht'⟩ | ⟨ht, ht'⟩ | ⟨content, content', ht, ht'⟩ <;>
      simp [ht, ht']

theorem SameKinds.isPresent_eq (h : SameKinds t t') (place : Place) (path : String) :
    t'.isPresent place path = t.isPresent place path := by
  unfold isPresent
  rcases h.lookup_cases place path with ⟨reason, ht, ht'⟩ | ⟨ht, ht'⟩ | ⟨content, content', ht, ht'⟩ <;>
    simp only [ht, ht']

theorem SameKinds.isDirectory_eq (h : SameKinds t t') (place : Place) (path : String) :
    t'.isDirectory place path = t.isDirectory place path := by
  unfold isDirectory
  rcases h.lookup_cases place path with ⟨reason, ht, ht'⟩ | ⟨ht, ht'⟩ | ⟨content, content', ht, ht'⟩ <;>
    simp only [ht, ht', Entry.isDirectory]

theorem SameKinds.probe_cases (h : SameKinds t t') (place : Place) (path : String) :
    (∃ fault, t.probe place path = .error fault ∧ t'.probe place path = .error fault) ∨
      (t.probe place path = .ok none ∧ t'.probe place path = .ok none) ∨
      ∃ e e', t.probe place path = .ok (some e) ∧ t'.probe place path = .ok (some e') ∧
        e'.isDirectory = e.isDirectory := by
  unfold probe
  rcases h.lookup_cases place path with ⟨reason, ht, ht'⟩ | ⟨ht, ht'⟩ | ⟨content, content', ht, ht'⟩
  · rw [ht, ht']
    cases reason <;> simp
  · rw [ht, ht']
    exact .inr (.inr ⟨_, _, rfl, rfl, rfl⟩)
  · rw [ht, ht']
    exact .inr (.inr ⟨_, _, rfl, rfl, rfl⟩)

theorem SameKinds.isFile_eq (h : SameKinds t t') (place : Place) (path : String) :
    t'.isFile place path = t.isFile place path := by
  unfold isFile
  rcases h.probe_cases place path with ⟨fault, ht, ht'⟩ | ⟨ht, ht'⟩ | ⟨e, e', ht, ht', hsame⟩
  · rw [ht, ht']
  · rw [ht, ht']
  · rw [ht, ht']
    simp [Except.map, hsame]

/-! ## Trees that are alike -/

/-- Whether two trees have a file in common and are alike but for what it holds. -/
structure Alike (out : Way) (t t' : FileTree) : Prop where
  hasFile : t.HasFile out
  eq_put : ∃ content, t' = t.put out (.file content)

theorem HasFile.alike_put (h : t.HasFile out) (content : List UInt8) :
    Alike out t (t.put out (.file content)) :=
  ⟨h, content, rfl⟩

theorem Alike.entry?_eq (h : Alike out t t') (hway : way ≠ out) : t'.entry? way = t.entry? way := by
  obtain ⟨hfile, content, rfl⟩ := h
  exact t.entry?_put_of_ne hway _

theorem Alike.hasFile' (h : Alike out t t') : t'.HasFile out := by
  obtain ⟨hfile, content, rfl⟩ := h
  exact hfile.put content

theorem Alike.sameKinds (h : Alike out t t') : SameKinds t t' := by
  intro way
  by_cases hway : way = out
  · subst hway
    obtain ⟨content, hcontent⟩ := h.hasFile
    obtain ⟨content', hcontent'⟩ := h.hasFile'
    rw [kind?, kind?, hcontent, hcontent']
    rfl
  · rw [kind?, kind?, h.entry?_eq hway]

theorem Alike.trans {t'' : FileTree} (h : Alike out t t') (h' : Alike out t' t'') :
    Alike out t t'' := by
  obtain ⟨hfile, content, rfl⟩ := h
  obtain ⟨-, content', rfl⟩ := h'
  exact ⟨hfile, content', hfile.put_put content _⟩

/-- Once something else is put in place of the file, nothing tells the trees apart. -/
theorem Alike.put_eq (h : Alike out t t') (e : Entry) : t'.put out e = t.put out e := by
  obtain ⟨hfile, content, rfl⟩ := h
  exact hfile.put_put content e

theorem Alike.ways_eq (h : Alike out t t') : t'.entries.map (·.1) = t.entries.map (·.1) := by
  obtain ⟨hfile, content, rfl⟩ := h
  exact hfile.ways_put _

theorem Alike.length_eq (h : Alike out t t') : t'.entries.length = t.entries.length := by
  simpa using congrArg List.length h.ways_eq

/-- Names are read off the ways alone. -/
theorem Alike.names_eq (h : Alike out t t') (way : Way) : t'.names way = t.names way := by
  have hnames : ∀ t : FileTree, t.names way = (t.entries.map (·.1)).filterMap fun w =>
      if w.length = way.length + 1 && way.isPrefixOf w then w.getLast? else none := by
    intro t
    rw [List.filterMap_map]
    rfl
  rw [hnames, hnames, h.ways_eq]

theorem Alike.list_eq (h : Alike out t t') (place : Place) (path : String) :
    t'.list place path = t.list place path := by
  unfold list
  rw [h.sameKinds.way_eq]
  cases t.way place path with
  | error reason => rfl
  | ok way =>
    have hkind : ∀ t : FileTree, (t.entry? way).any Entry.isDirectory = (t.kind? way).any id := by
      intro t
      simp [kind?, Option.any_map]
    simp only [hkind, h.sameKinds way, h.names_eq]

/-- A file that is not the one that differs is read the same. -/
theorem Alike.read_eq (h : Alike out t t') (hpath : t.way place path ≠ .ok out) :
    t'.read place path = t.read place path := by
  have hlookup : t'.lookup place path = t.lookup place path := by
    simp only [lookup, h.sameKinds.way_eq, bind, Except.bind]
    cases hway : t.way place path with
    | error reason => rfl
    | ok way =>
      have hne : way ≠ out := by
        rintro rfl
        exact hpath hway
      simp only [h.entry?_eq hne]
  rw [read, read, hlookup]

/-! ## Writing -/

/-- Writing changes what a file holds, or nothing if there is no file. -/
theorem alike_writeAt (t : FileTree) (way : Way) (offset : Nat) (bytes : List UInt8) :
    t.writeAt way offset bytes = t ∨ Alike way t (t.writeAt way offset bytes) := by
  unfold writeAt
  split
  · rename_i content hcontent
    exact .inr (HasFile.alike_put ⟨content, hcontent⟩ _)
  · exact .inl rfl

theorem sameKinds_writeAt (t : FileTree) (way : Way) (offset : Nat) (bytes : List UInt8) :
    SameKinds t (t.writeAt way offset bytes) := by
  rcases t.alike_writeAt way offset bytes with hsame | halike
  · rw [hsame]
    exact fun _ => rfl
  · exact halike.sameKinds

/-- Entries at different places can be put there in any order. -/
theorem HasFile.put_comm (hout : t.HasFile out) (hway : t.HasFile way) (hne : way ≠ out)
    (content content' : List UInt8) :
    (t.put out (.file content)).put way (.file content') =
      (t.put way (.file content')).put out (.file content) := by
  obtain ⟨c, hc⟩ := id hout
  obtain ⟨c', hc'⟩ := id hway
  have hway' : (t.put out (.file content)).HasFile way :=
    ⟨c', (t.entry?_put_of_ne hne _).trans hc'⟩
  have hout' : (t.put way (.file content')).HasFile out :=
    ⟨c, (t.entry?_put_of_ne (Ne.symm hne) _).trans hc⟩
  apply eq_of_entries
  rw [hway'.entries_put, hout'.entries_put, hout.entries_put, hway.entries_put, List.map_map,
    List.map_map]
  refine List.map_congr_left fun entry _ => ?_
  by_cases hkey : entry.1 = out
  · have hkey' : entry.1 ≠ way := fun heq => hne (heq.symm.trans hkey)
    simp [replaced, hkey, Ne.symm hne]
  · by_cases hkey' : entry.1 = way <;> simp [replaced, hkey, hkey', hne]

/-- Writing to the same place in trees that are alike leaves them alike. -/
theorem Alike.writeAt (h : Alike out t t') (way : Way) (offset : Nat) (bytes : List UInt8) :
    Alike out (t.writeAt way offset bytes) (t'.writeAt way offset bytes) := by
  by_cases hway : way = out
  · subst hway
    obtain ⟨content, hcontent⟩ := h.hasFile
    obtain ⟨content', hcontent'⟩ := h.hasFile'
    simp only [FileTree.writeAt, hcontent, hcontent', h.put_eq]
    refine ⟨h.hasFile.put _, writtenAt content' offset bytes, ?_⟩
    exact (h.hasFile.put_put _ _).symm
  · simp only [FileTree.writeAt, h.entry?_eq hway]
    split
    · rename_i content hcontent
      have hfile : t.HasFile way := ⟨content, hcontent⟩
      obtain ⟨hout, old, rfl⟩ := h
      obtain ⟨c, hc⟩ := id hout
      have hout' : (t.put way (.file (writtenAt content offset bytes))).HasFile out :=
        ⟨c, (t.entry?_put_of_ne (Ne.symm hway) _).trans hc⟩
      exact ⟨hout', old, hout.put_comm hfile hway _ _⟩
    · exact h

end FileTree

/-! ## Patterns -/

namespace Globe

variable {t t' : FileTree} {out : Way} {place : Place} {base : String}

theorem namesIn_eq (h : t.Alike out t') (directory : String) (onlyDirectories : Bool) :
    namesIn ⟨t', place, base⟩ directory onlyDirectories =
      namesIn ⟨t, place, base⟩ directory onlyDirectories := by
  simp only [namesIn, h.list_eq, h.sameKinds.isDirectory_eq]

theorem below_eq (h : t.Alike out t') (onlyDirectories : Bool) (depth : Nat) (directory : String) :
    below ⟨t', place, base⟩ onlyDirectories depth directory =
      below ⟨t, place, base⟩ onlyDirectories depth directory := by
  induction depth generalizing directory with
  | zero => rfl
  | succ depth ih => simp only [below, namesIn_eq h, ih]

theorem depthBound_eq (h : t.Alike out t') :
    depthBound ⟨t', place, base⟩ = depthBound ⟨t, place, base⟩ := by
  have hlengths : ∀ t : FileTree, t.entries.map (·.1.length) = (t.entries.map (·.1)).map (·.length) := by
    intro t
    rw [List.map_map]
    rfl
  simp only [depthBound, hlengths, h.ways_eq]

theorem inDirectory_eq (h : t.Alike out t') (onlyDirectories : Bool) (directory segment : String) :
    inDirectory ⟨t', place, base⟩ onlyDirectories directory segment =
      inDirectory ⟨t, place, base⟩ onlyDirectories directory segment := by
  simp only [inDirectory, itself, below_eq h, depthBound_eq h, namesIn_eq h,
    h.sameKinds.isDirectory_eq, h.sameKinds.isPresent_eq]

theorem expandUpTo_eq (h : t.Alike out t') (bound : Nat) (onlyDirectories : Bool)
    (pattern : String) :
    expandUpTo ⟨t', place, base⟩ bound onlyDirectories pattern =
      expandUpTo ⟨t, place, base⟩ bound onlyDirectories pattern := by
  induction bound generalizing onlyDirectories pattern with
  | zero => rfl
  | succ bound ih =>
    simp only [expandUpTo, within, inDirectory_eq h, h.sameKinds.isDirectory_eq,
      h.sameKinds.isPresent_eq, ih]
    rfl

/-- A pattern finds the same paths in trees that are alike. -/
theorem expand_eq (h : t.Alike out t') (pattern : String) :
    expand ⟨t', place, base⟩ pattern = expand ⟨t, place, base⟩ pattern := by
  simp only [expand, expandUpTo_eq h]

end Globe

end DeclBundle.Files
