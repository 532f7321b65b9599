import DeclBundle.Proofs.Configuration.Entries
import DeclBundle.Proofs.Files.Globbing
import DeclBundle.Proofs.Json.Commented
set_option autoImplicit false

/-!
# What a project excludes

A path that an entry of the excluded ones would find, were it one of the included ones, is no input
of the project (`Project.load_excludes`), with two exceptions: a path that the entry finds only with
a `**` that stands for no directory, and an entry with a class that holds a slash.  Included entries
are expanded directory by directory, and excluded ones are compared with whole paths, where a `**`
with slashes around it has to hold a directory between them.
-/

namespace DeclBundle.Configuration

open Text Data
open DeclBundle.Path (IsName ofRoot openPath)

/-- Whether a path fits a pattern, but only with a `**` that stands for no segment. -/
def NeedsEmptyRun (pattern path : String) : Prop :=
  Files.FitsSegments 0 (Path.segments pattern) (Path.segments path) ∧
    ¬ Files.FitsSegments 1 (Path.segments pattern) (Path.segments path)

/-! ## Single entries -/

section

variable {slashes : Nat} {segs : List String}

/-- The segments of a path below a root, with those of the root. -/
theorem segments_of_names (hne : segs ≠ []) (hsegs : ∀ seg ∈ segs, IsName seg) :
    Path.segments (ofRoot slashes segs) = List.replicate slashes "" ++ segs := by
  rw [Path.segments_ofRoot, Path.segments_ofSegments hne fun seg hseg => (hsegs seg hseg).2]

/-- What is below a root fits if the segments of the root are left out. -/
theorem fitsSegments_ofRoot {least : Nat} {names : List String} (hne : segs ≠ [])
    (hnames_ne : names ≠ []) (hsegs : ∀ seg ∈ segs, IsName seg)
    (hnames : ∀ name ∈ names, IsName name) (h : Files.FitsSegments least segs names) :
    Files.FitsSegments least (Path.segments (ofRoot slashes segs))
      (Path.segments (ofRoot slashes names)) := by
  rw [segments_of_names hne hsegs, segments_of_names hnames_ne hnames]
  refine Files.FitsSegments.append (.refl fun seg hseg => ?_) h
  rw [List.eq_of_mem_replicate hseg]
  rfl

/-- What stands below a directory is excluded with it. -/
theorem isExcluded_below (hslashes : slashes ≠ 0) (hsegs : ∀ seg ∈ segs, IsName seg)
    {below : List String} (hne : below ≠ []) :
    isExcluded (ofRoot slashes (segs ++ below)) (ofRoot slashes segs) = true := by
  have hbegins : beginsWith (ofRoot slashes (segs ++ below))
      (.ofList (stripEnd (· == '/') (ofRoot slashes segs).toList) ++ "/") = true := by
    apply beginsWith_iff.2
    by_cases hnil : segs = []
    · subst hnil
      obtain ⟨n, rfl⟩ := Nat.exists_eq_succ_of_ne_zero hslashes
      have hstrip : stripEnd (· == '/') (ofRoot (n + 1) []).toList = [] := by
        simp [Path.toList_ofRoot, stripEnd]
      rw [hstrip]
      simp [Path.toList_ofRoot, List.replicate_succ]
    · rw [Path.stripEnd_ofRoot slashes hnil hsegs, ofRoot, ofRoot, Path.ofSegments_append hnil hne]
      simp [List.append_assoc]
  simp [isExcluded, hbegins]

/-- A path of names is excluded by itself. -/
theorem isExcluded_self (hne : segs ≠ []) (hsegs : ∀ seg ∈ segs, IsName seg) :
    isExcluded (ofRoot slashes segs) (ofRoot slashes segs) = true := by
  simp [isExcluded, Path.stripEnd_ofRoot slashes hne hsegs]

/-- What a pattern matches is excluded by it. -/
theorem isExcluded_of_matchesPattern (hne : segs ≠ []) (hsegs : ∀ seg ∈ segs, IsName seg)
    {path : String} (h : Files.matchesPattern (ofRoot slashes segs) path = true) :
    isExcluded path (ofRoot slashes segs) = true := by
  simp [isExcluded, Path.stripEnd_ofRoot slashes hne hsegs, h]

end

/-- No source file has a slash at its end. -/
theorem not_isSource_openPath (slashes : Nat) (segs : List String) :
    isSource (openPath slashes segs) = false := by
  have hends : ∀ tail : String, tail.toList.getLast? ≠ none → tail.toList.getLast? ≠ some '/' →
      finishesWith (openPath slashes segs) tail = false := by
    intro tail hsome hslash
    rw [Bool.eq_false_iff]
    intro hfinishes
    obtain ⟨front, hfront⟩ := finishesWith_iff.1 hfinishes
    have hlast := congrArg List.getLast? hfront
    rw [List.getLast?_append] at hlast
    rcases Path.getLast?_openPath slashes segs with hnil | hopen
    · rw [hnil] at hfront
      exact hsome (by rw [(List.append_eq_nil_iff.1 hfront).2]; rfl)
    · rw [hopen] at hlast
      cases htail : tail.toList.getLast? with
      | none => exact hsome htail
      | some c =>
        rw [htail] at hlast hslash
        exact hslash hlast
  rw [isSource, hends ".ts" (by decide) (by decide), hends ".tsx" (by decide) (by decide)]
  rfl

namespace Merged

variable {files : Files.FileTree} {place : Files.Place} {entry path : String}

theorem mem_found {pattern : String} (h : path ∈ found files place pattern) :
    path ∈ Files.Globe.expand ⟨files, place, ""⟩
      (if !Files.isPattern pattern && files.isDirectory place pattern then everythingIn pattern
        else pattern) :=
  (List.mergeSort_perm _ _).mem_iff.1 h

/-- A source file that a pattern finds fits it, and the last segment stands for something. -/
theorem exists_of_mem_expand (htree : files.HasNames) {slashes : Nat} (hslashes : slashes ≠ 0)
    {segs : List String} {last : String} (hsegs : ∀ seg ∈ segs, IsName seg) (hlast : IsName last)
    (hsource : isSource path = true)
    (h : path ∈ Files.Globe.expand ⟨files, place, ""⟩ (ofRoot slashes (segs ++ [last]))) :
    ∃ names others, (∀ name ∈ names, IsName name) ∧ (∀ name ∈ others, IsName name) ∧
      others ≠ [] ∧ Files.FitsSegments 0 segs names ∧ Files.FitsSegments 0 [last] others ∧
      path = ofRoot slashes (names ++ others) := by
  obtain ⟨names, others, hnames, hothers, hfits, hlastFits, rfl⟩ :=
    Files.Globe.exists_of_mem_expandUpTo htree hslashes hsegs hlast
      (Files.Globe.mem_expandUpTo_of_mem_expand h)
  rw [Files.join_ofRoot_cases hslashes hnames hothers] at hsource ⊢
  by_cases hnil : others = []
  · rw [if_pos hnil, not_isSource_openPath] at hsource
    cases hsource
  · exact ⟨names, others, hnames, hothers, hnil, hfits, hlastFits, if_neg hnil⟩

/-- The pattern for everything beneath a directory. -/
theorem everythingIn_ofRoot (slashes : Nat) {segs : List String}
    (hsegs : ∀ seg ∈ segs, IsName seg) :
    everythingIn (ofRoot slashes segs) = ofRoot slashes ((segs ++ ["**"]) ++ ["*"]) := by
  have hruns : ∀ seg ∈ ["**"], IsName seg := by simp [IsName]
  have hrun : ∀ seg ∈ ["*"], IsName seg := by simp [IsName]
  have hjoin := @Path.join_ofRoot_ofSegments slashes segs ["**"] hsegs hruns (by simp)
  have hjoin' := @Path.join_ofRoot_ofSegments slashes (segs ++ ["**"]) ["*"]
    (List.forall_mem_append.2 ⟨hsegs, hruns⟩) hrun (by simp)
  rw [Path.ofSegments_singleton] at hjoin hjoin'
  rw [everythingIn, hjoin, hjoin']

/-- What an entry finds is excluded by it, if the entry is no pattern. -/
theorem isExcluded_of_not_isPattern (htree : files.HasNames) (hentry : IsRooted entry)
    (hplain : Files.isPattern entry = false) (hsource : isSource path = true)
    (h : path ∈ found files place entry) : isExcluded path entry = true := by
  obtain ⟨slashes, segs, hslashes, hsegs, rfl⟩ := hentry
  have hmem := mem_found h
  rw [hplain, Bool.not_false, Bool.true_and] at hmem
  split at hmem
  · rw [everythingIn_ofRoot slashes hsegs] at hmem
    have hruns : ∀ seg ∈ segs ++ ["**"], IsName seg :=
      List.forall_mem_append.2 ⟨hsegs, by simp [IsName]⟩
    obtain ⟨names, others, -, -, hne, hfits, -, rfl⟩ :=
      exists_of_mem_expand htree hslashes hruns ⟨by decide, by decide⟩ hsource hmem
    obtain ⟨between, rfl, -⟩ :=
      hfits.exists_append ((Files.isPattern_ofRoot slashes hsegs).1 hplain)
    rw [List.append_assoc]
    exact isExcluded_below hslashes hsegs (by simp [hne])
  · obtain rfl := Files.Globe.eq_of_mem_expand hplain hmem
    refine isExcluded_self ?_ hsegs
    rintro rfl
    have hroot : ofRoot slashes [] = openPath slashes [] := by simp [openPath]
    rw [hroot, not_isSource_openPath] at hsource
    cases hsource

/-- What an entry finds is excluded by it, if the entry is a pattern without slashes in classes and
finds it with a segment for every `**`.  A `**` at the end always stands for a segment. -/
theorem isExcluded_of_isPattern (htree : files.HasNames) (hentry : IsRooted entry)
    (hpattern : Files.isPattern entry = true) (hclass : Files.hasSlashInClass entry = false)
    (hsource : isSource path = true) (h : path ∈ found files place entry) :
    isExcluded path entry = true ∨
      (NeedsEmptyRun entry path ∧ "**" ∈ (Path.segments entry).dropLast) := by
  obtain ⟨slashes, segs, hslashes, hsegs, rfl⟩ := hentry
  have hmem := mem_found h
  simp only [hpattern, Bool.not_true, Bool.false_and, Bool.false_eq_true, if_false] at hmem
  rcases List.eq_nil_or_concat segs with rfl | ⟨init, last, rfl⟩
  · have hroot := (Files.isPattern_ofRoot slashes hsegs).2 (by simp)
    exact absurd hpattern (by simp [hroot])
  · rw [List.concat_eq_append] at hsegs hpattern hclass hmem ⊢
    obtain ⟨hinit, hlast⟩ := List.forall_mem_append.1 hsegs
    obtain ⟨names, others, hnames, hothers, hne, hfits, hlastFits, rfl⟩ :=
      exists_of_mem_expand htree hslashes hinit (hlast last (by simp)) hsource hmem
    have hpathFits : ∀ {least}, Files.FitsSegments least (init ++ [last]) (names ++ others) →
        Files.FitsSegments least (Path.segments (ofRoot slashes (init ++ [last])))
          (Path.segments (ofRoot slashes (names ++ others))) :=
      fitsSegments_ofRoot (by simp) (by simp [hne]) hsegs
        (List.forall_mem_append.2 ⟨hnames, hothers⟩)
    by_cases hone : Files.FitsSegments 1 (Path.segments (ofRoot slashes (init ++ [last])))
        (Path.segments (ofRoot slashes (names ++ others)))
    · exact .inl (isExcluded_of_matchesPattern (by simp) hsegs
        (Files.matchesPattern_of_fitsSegments hclass hone))
    · -- if no `**` stood before the last segment, nothing of the pattern could stand for nothing
      refine .inr ⟨⟨hpathFits (hfits.append hlastFits), hone⟩, ?_⟩
      rw [segments_of_names (by simp) hsegs, ← List.append_assoc, List.dropLast_concat]
      refine List.mem_append_right _ (Classical.byContradiction fun hnone => hone (hpathFits ?_))
      exact (hfits.of_not_mem hnone 1).append (hlastFits.of_names_ne_nil hne)

/-! ## Whole projects -/

/-- The paths that the patterns of a project add to its files. -/
def contributed (m : Merged) (files : Files.FileTree) (place : Files.Place) (directory : Location)
    (outDir : Option String) : List String :=
  (m.includePatterns directory).flatMap fun pattern =>
    (found files place pattern).filter fun path =>
      isSource path && !(m.excludePatterns directory outDir).any (isExcluded path)

theorem mem_contributed {m : Merged} {directory : Location} {outDir : Option String} :
    path ∈ m.contributed files place directory outDir ↔
      (∃ pattern ∈ m.includePatterns directory, path ∈ found files place pattern) ∧
        isSource path = true ∧
        ∀ entry ∈ m.excludePatterns directory outDir, isExcluded path entry = false := by
  simp only [contributed, List.mem_flatMap, List.mem_filter, Bool.and_eq_true, Bool.not_eq_true',
    List.any_eq_false, Bool.not_eq_true]
  constructor
  · rintro ⟨pattern, hpattern, hfound, hkept⟩
    exact ⟨⟨pattern, hpattern, hfound⟩, hkept⟩
  · rintro ⟨⟨pattern, hpattern, hfound⟩, hkept⟩
    exact ⟨pattern, hpattern, hfound, hkept⟩

/-- All entries that exclude are rooted, those that hold where a project says nothing as well. -/
theorem isRooted_excludePatterns {m : Merged} (h : m.HasRootedPaths) {directory : Location}
    (hdirectory : IsLocated directory) {entry : String}
    (hentry : entry ∈ m.excludePatterns directory (Value.memberText? m.compilerOptions "outDir")) :
    IsRooted entry := by
  unfold excludePatterns at hentry
  split at hentry
  · next patterns hpatterns => exact h.excludes patterns hpatterns entry hentry
  · rcases List.mem_append.1 hentry with hpackage | hout
    · obtain ⟨name, hname, rfl⟩ := List.mem_map.1 hpackage
      refine hdirectory.isRooted.join ?_
      simp only [packageDirectories, List.mem_cons, List.not_mem_nil, or_false] at hname
      rcases hname with rfl | rfl | rfl <;> exact ⟨by decide, by decide⟩
    · obtain ⟨hgiven, hne⟩ := Option.filter_eq_some_iff.1 (Option.mem_toList.1 hout)
      rcases h.outDir entry hgiven with rfl | hrooted
      · simp at hne
      · exact hrooted

/-- What a project adds to its files is found by no entry that it excludes, but with a `**` that
stands for no segment, or by an entry with a slash in a class. -/
theorem not_mem_found_of_contributed {m : Merged} (htree : files.HasNames) (h : m.HasRootedPaths)
    {directory : Location} (hdirectory : IsLocated directory)
    (hpath : path ∈ m.contributed files place directory
      (Value.memberText? m.compilerOptions "outDir"))
    (hentry : entry ∈ m.excludePatterns directory (Value.memberText? m.compilerOptions "outDir"))
    (hfound : path ∈ found files place entry) :
    Files.hasSlashInClass entry = true ∨
      (NeedsEmptyRun entry path ∧ "**" ∈ (Path.segments entry).dropLast) := by
  obtain ⟨-, hsource, hkept⟩ := mem_contributed.1 hpath
  have hrooted := isRooted_excludePatterns h hdirectory hentry
  have hnot : isExcluded path entry ≠ true := by
    rw [hkept entry hentry]
    exact Bool.false_ne_true
  cases hclass : Files.hasSlashInClass entry with
  | true => exact .inl rfl
  | false =>
    right
    cases hpattern : Files.isPattern entry with
    | false =>
      exact absurd (isExcluded_of_not_isPattern htree hrooted hpattern hsource hfound) hnot
    | true =>
      exact (isExcluded_of_isPattern htree hrooted hpattern hclass hsource hfound).resolve_left hnot

end Merged

/-- No input of a project is one that an entry of the excluded ones finds, if it is not listed: but
for paths that the entry finds only with a `**` that stands for no segment, and for entries with a
slash in a class.  So a project that lists no files, and excludes what it includes, has no inputs,
if no entry has a `**` in front of another segment or a slash in a class. -/
theorem Project.load_excludes {files : Files.FileTree} (htree : files.HasNames)
    {place : Files.Place} {l : Location} {project : Project}
    (h : Project.load files place l = .ok project) :
    ∃ merged, Merged.read files place project.file = .ok merged ∧
      project.inputs = withoutRepetitions ((merged.files.getD [] ++
        merged.contributed files place project.file.parent project.outDir).map fun path =>
          (Files.resolve place path).path) ∧
      (∀ path ∈ merged.contributed files place project.file.parent project.outDir,
        ∀ entry ∈ merged.excludePatterns project.file.parent project.outDir,
          path ∈ Merged.found files place entry →
            Files.hasSlashInClass entry = true ∨ NeedsEmptyRun entry path) ∧
      (∀ entries, merged.includes = some entries → merged.excludes = some entries →
        merged.files.getD [] = [] →
        (∀ entry ∈ entries, Files.hasSlashInClass entry = false ∧
          "**" ∉ (Path.segments entry).dropLast) →
        project.inputs = []) := by
  simp only [Project.load, bind, Except.bind] at h
  split at h
  · cases h
  · next merged hread =>
    cases h
    have hfile := isLocated_resolve place l.path
    have hrooted := Merged.hasRootedPaths_of_read hfile hread
    have hfound := fun path entry => @Merged.not_mem_found_of_contributed files place entry path
      merged htree hrooted _ hfile.parent
    refine ⟨merged, hread, rfl, fun path hpath entry hentry hmem => ?_, ?_⟩
    · exact (hfound path entry hpath hentry hmem).imp_right And.left
    · intro entries hincludes hexcludes hfiles hplain
      have hnone : merged.contributed files place (Files.resolve place l.path).parent
          (Value.memberText? merged.compilerOptions "outDir") = [] := by
        refine List.eq_nil_iff_forall_not_mem.2 fun path hpath => ?_
        obtain ⟨⟨entry, hentry, hmem⟩, -⟩ := Merged.mem_contributed.1 hpath
        rw [Merged.includePatterns, hincludes] at hentry
        have hexcluded : entry ∈ merged.excludePatterns (Files.resolve place l.path).parent
            (Value.memberText? merged.compilerOptions "outDir") := by
          rw [Merged.excludePatterns, hexcludes]
          exact hentry
        obtain ⟨hclass, hruns⟩ := hplain entry hentry
        rcases hfound path entry hpath hexcluded hmem with hslash | ⟨-, hinner⟩
        · rw [hclass] at hslash
          cases hslash
        · exact hruns hinner
      change withoutRepetitions ((merged.files.getD [] ++ merged.contributed files place
        (Files.resolve place l.path).parent
        (Value.memberText? merged.compilerOptions "outDir")).map _) = []
      rw [hfiles, hnone]
      rfl

/-- A list of one entry, as it is written. -/
def entryList (entry : List Char) : Json.Spelling :=
  .filled .array []
    (.last .element (.scalar ('"' :: (entry ++ ['"'])) (.text (.ofList entry))) [] none)

/-- A project file that excludes what it includes. -/
def selfExcludingFile (entry : List Char) : Json.Commented where
  spelling := .filled .object []
    (.more (.key ['i', 'n', 'c', 'l', 'u', 'd', 'e'] ['i', 'n', 'c', 'l', 'u', 'd', 'e'] [] [])
      (entryList entry) [] []
      (.last (.key ['e', 'x', 'c', 'l', 'u', 'd', 'e'] ['e', 'x', 'c', 'l', 'u', 'd', 'e'] [] [])
        (entryList entry) [] none))

/-- A directory with one source file and such a project file. -/
def selfExcluding (entry : List Char) : Files.FileTree where
  entries := [(["p"], .directory), (["p", "a.ts"], .file []),
    (["p", "tsconfig.json"], .file (Utf8.encode (selfExcludingFile entry).text))]

/-- Where the project file is. -/
def selfExcludingLocation : Location := ⟨1, ["p", "tsconfig.json"]⟩

theorem hasNames_selfExcluding (entry : List Char) : (selfExcluding entry).HasNames := by
  have hnames : ∀ name ∈ ["p", "a.ts", "tsconfig.json"], IsName name := by simp [IsName]
  have hways : ∀ e ∈ (selfExcluding entry).entries, e.1 ⊆ ["p", "a.ts", "tsconfig.json"] := by
    simp [selfExcluding]
  exact fun e he name hname => hnames name (hways e he hname)

theorem isProper_selfExcludingFile {entry : List Char} (h : Json.Literal entry entry) :
    (selfExcludingFile entry).IsProper := by
  have hnone : Json.Gap.IsProper [] := fun t ht => by cases ht
  have hlist : (entryList entry).IsProper :=
    ⟨hnone, rfl, .string h, hnone, fun g hg => by cases hg⟩
  have hincludes : Json.Literal ['i', 'n', 'c', 'l', 'u', 'd', 'e']
      ['i', 'n', 'c', 'l', 'u', 'd', 'e'] := Json.literal_of_plain (by simp)
  have hexcludes : Json.Literal ['e', 'x', 'c', 'l', 'u', 'd', 'e']
      ['e', 'x', 'c', 'l', 'u', 'd', 'e'] := Json.literal_of_plain (by simp)
  exact
    { before := hnone
      spelling := ⟨hnone, ⟨rfl, hincludes, hnone, hnone⟩, hlist, hnone, hnone,
        ⟨rfl, hexcludes, hnone, hnone⟩, hlist, hnone, fun g hg => by cases hg⟩
      after := hnone
      ending := fun comment hcomment => by cases hcomment }

theorem isTidy_selfExcludingFile (entry : List Char) :
    (selfExcludingFile entry).spelling.IsTidy := by
  have hnone : Json.Gap.HasJsonBlanks [] := fun c hc => by cases hc
  have hlist : (entryList entry).IsTidy :=
    ⟨hnone, trivial, trivial, hnone, fun g hg => by cases hg⟩
  exact ⟨hnone, ⟨hnone, hnone⟩, hlist, hnone, hnone, ⟨hnone, hnone⟩, hlist, hnone,
    fun g hg => by cases hg⟩

/-- What the project file says. -/
theorem read_selfExcluding {entry : List Char} (h : Json.Literal entry entry)
    (hlines : Text.unifyNewlines (selfExcludingFile entry).text = (selfExcludingFile entry).text)
    {path : String} (hpath : Merged.seenFrom ⟨1, ["p"]⟩ (.ofList entry) = path) :
    Merged.read (selfExcluding entry) atRoot selfExcludingLocation =
      .ok { includes := some [path], excludes := some [path] } := by
  have hparse := Json.parse_of_isTidy (isProper_selfExcludingFile h)
    (isTidy_selfExcludingFile entry)
  rw [← hlines] at hparse
  have hne : Json.withoutComments (Text.unifyNewlines (selfExcludingFile entry).text) ≠ [] := by
    intro hnil
    rw [hnil] at hparse
    cases hparse
  have hread : (selfExcluding entry).read atRoot selfExcludingLocation.path =
      .ok (Utf8.encode (selfExcludingFile entry).text) := by
    rfl
  rw [Merged.read_of_members (projectMembers_of_text hread hne hparse) rfl, ← hpath]
  rfl

/-- The project of such a file. -/
theorem load_selfExcluding {entry : List Char} {path : String}
    (hread : Merged.read (selfExcluding entry) atRoot selfExcludingLocation =
      .ok { includes := some [path], excludes := some [path] }) :
    Project.load (selfExcluding entry) atRoot selfExcludingLocation =
      .ok { file := selfExcludingLocation
            inputs := Merged.inputs { includes := some [path], excludes := some [path] }
              (selfExcluding entry) atRoot ⟨1, ["p"]⟩ none } := by
  have hfile : Files.resolve atRoot selfExcludingLocation.path = selfExcludingLocation := by decide
  simp only [Project.load, hfile, hread, bind, Except.bind]
  rfl

/-- A project that excludes what it includes has no inputs. -/
theorem Project.load_excludes_star :
    Project.load (selfExcluding ['*', '.', 't', 's']) atRoot selfExcludingLocation =
      .ok { file := selfExcludingLocation, inputs := [] } := by
  have hread : Merged.read (selfExcluding ['*', '.', 't', 's']) atRoot selfExcludingLocation =
      .ok { includes := some ["/p/*.ts"], excludes := some ["/p/*.ts"] } :=
    read_selfExcluding (Json.literal_of_plain (by simp)) (by decide) (by decide)
  have hload := load_selfExcluding hread
  obtain ⟨merged, hmerged, -, -, hnone⟩ := Project.load_excludes (hasNames_selfExcluding _) hload
  rw [hread] at hmerged
  obtain rfl := Except.ok.inj hmerged
  have hinputs := hnone ["/p/*.ts"] rfl rfl rfl (by decide)
  dsimp only at hinputs
  rw [hload, hinputs]

/-- A `**` that stands for no directory finds what it does not exclude. -/
theorem Project.load_excludes_fails :
    Project.load (selfExcluding ['*', '*', '/', '*', '.', 't', 's']) atRoot selfExcludingLocation =
        .ok { file := selfExcludingLocation, inputs := ["/p/a.ts"] } ∧
      Merged.read (selfExcluding ['*', '*', '/', '*', '.', 't', 's']) atRoot
          selfExcludingLocation =
        .ok { includes := some ["/p/**/*.ts"], excludes := some ["/p/**/*.ts"] } ∧
      "/p/a.ts" ∈ Merged.found (selfExcluding ['*', '*', '/', '*', '.', 't', 's']) atRoot
        "/p/**/*.ts" := by
  have hread : Merged.read (selfExcluding ['*', '*', '/', '*', '.', 't', 's']) atRoot
      selfExcludingLocation =
      .ok { includes := some ["/p/**/*.ts"], excludes := some ["/p/**/*.ts"] } :=
    read_selfExcluding (Json.literal_of_plain (by simp)) (by decide) (by decide)
  have hexpand : Files.Globe.expand ⟨selfExcluding ['*', '*', '/', '*', '.', 't', 's'], atRoot, ""⟩
      "/p/**/*.ts" = ["/p/a.ts"] := by
    decide
  generalize ['*', '*', '/', '*', '.', 't', 's'] = entry at hread hexpand ⊢
  have hfound : Merged.found (selfExcluding entry) atRoot "/p/**/*.ts" = ["/p/a.ts"] := by
    have hpattern : Files.isPattern "/p/**/*.ts" = true := by decide
    simp only [Merged.found, hpattern, Bool.not_true, Bool.false_and, Bool.false_eq_true, if_false,
      hexpand, List.mergeSort_singleton]
  have hinputs : Merged.inputs { includes := some ["/p/**/*.ts"], excludes := some ["/p/**/*.ts"] }
      (selfExcluding entry) atRoot ⟨1, ["p"]⟩ none = ["/p/a.ts"] := by
    have hkept : isExcluded "/p/a.ts" "/p/**/*.ts" = false := by decide
    have hsource : isSource "/p/a.ts" = true := by decide
    have hresolve : (Files.resolve atRoot "/p/a.ts").path = "/p/a.ts" := by decide
    simp [Merged.inputs, Merged.includePatterns, Merged.excludePatterns, hfound, hkept, hsource,
      hresolve, withoutRepetitions]
  refine ⟨?_, hread, ?_⟩
  · rw [load_selfExcluding hread, hinputs]
  · rw [hfound]
    exact List.mem_singleton_self _

end DeclBundle.Configuration
