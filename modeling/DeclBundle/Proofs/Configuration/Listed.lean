import DeclBundle.Proofs.Configuration.Descent
import DeclBundle.Proofs.Configuration.Excludes
import DeclBundle.Proofs.Configuration.Inheritance
import DeclBundle.Proofs.Files.Beneath
import DeclBundle.Proofs.Path.Idempotent
set_option autoImplicit false

/-!
# The list of inputs

The inputs of a project are the files that it lists, in the order in which they come up first, and
behind them what its patterns add (`Project.load_inputs`).  What they add stands in the tree, and no
entry excludes it or a directory above it.  What they find and no entry excludes is an input.
-/

namespace DeclBundle.Configuration

open Text Data
open DeclBundle.Path (IsName IsOrdinary ofRoot openPath)

/-! ## Leaving out repetitions -/

/-- Whether a list holds what another one holds, each element once and in the order in which the
elements come up first. -/
structure IsFirsts (firsts xs : List String) : Prop where
  nodup : firsts.Nodup
  mem_iff : ∀ x, x ∈ firsts ↔ x ∈ xs
  ordered : firsts.Pairwise fun a b => xs.idxOf a < xs.idxOf b

theorem withoutRepetitions_concat (xs : List String) (x : String) :
    withoutRepetitions (xs ++ [x]) =
      if (withoutRepetitions xs).contains x then withoutRepetitions xs
      else withoutRepetitions xs ++ [x] := by
  rw [withoutRepetitions, List.foldl_append]
  rfl

/-- Leaving out repetitions leaves the first of equal elements where it stands. -/
theorem isFirsts_withoutRepetitions (xs : List String) : IsFirsts (withoutRepetitions xs) xs := by
  induction xs using List.reverseRecOn with
  | nil => exact ⟨.nil, fun _ => .rfl, .nil⟩
  | append_singleton xs x ih =>
    -- an element of the list before comes up where it came up there
    have hbefore : (withoutRepetitions xs).Pairwise fun a b =>
        (xs ++ [x]).idxOf a < (xs ++ [x]).idxOf b := by
      refine ih.ordered.imp_of_mem fun ha hb hlt => ?_
      rwa [List.idxOf_append_of_mem ((ih.mem_iff _).1 ha),
        List.idxOf_append_of_mem ((ih.mem_iff _).1 hb)]
    rw [withoutRepetitions_concat]
    split
    · rename_i hseen
      have hx : x ∈ xs := (ih.mem_iff x).1 (List.contains_iff_mem.1 hseen)
      refine ⟨ih.nodup, fun y => ?_, hbefore⟩
      rw [ih.mem_iff, List.mem_append, List.mem_singleton]
      exact ⟨.inl, fun h => h.elim id (· ▸ hx)⟩
    · rename_i hnew
      have hnew : x ∉ withoutRepetitions xs := by simpa using hnew
      have hx : x ∉ xs := fun h => hnew ((ih.mem_iff x).2 h)
      refine ⟨?_, fun y => ?_, ?_⟩
      · exact ih.nodup.append (List.nodup_singleton x) (by simpa using hnew)
      · rw [List.mem_append, List.mem_append, ih.mem_iff]
      · refine List.pairwise_append.2 ⟨hbefore, List.pairwise_singleton _ _, fun a ha b hb => ?_⟩
        obtain rfl := List.mem_singleton.1 hb
        have ha := (ih.mem_iff a).1 ha
        rw [List.idxOf_append_of_mem ha, List.idxOf_append_of_notMem hx]
        exact Nat.lt_add_right _ (List.idxOf_lt_length_of_mem ha)

theorem sublist_withoutRepetitions (xs : List String) : (withoutRepetitions xs).Sublist xs := by
  induction xs using List.reverseRecOn with
  | nil => exact .slnil
  | append_singleton xs x ih =>
    rw [withoutRepetitions_concat]
    split
    · exact ih.trans (List.sublist_append_left xs [x])
    · exact ih.append (.refl [x])

/-- What stands behind other elements stays behind them. -/
theorem exists_withoutRepetitions_append (xs ys : List String) :
    ∃ further, withoutRepetitions (xs ++ ys) = withoutRepetitions xs ++ further ∧ further ⊆ ys := by
  induction ys using List.reverseRecOn with
  | nil => exact ⟨[], by simp, by simp⟩
  | append_singleton ys y ih =>
    obtain ⟨further, heq, hsubset⟩ := ih
    rw [← List.append_assoc, withoutRepetitions_concat, heq]
    split
    · exact ⟨further, rfl, List.subset_append_of_subset_left _ hsubset⟩
    · refine ⟨further ++ [y], List.append_assoc .., ?_⟩
      exact List.append_subset.2 ⟨List.subset_append_of_subset_left _ hsubset,
        List.subset_append_right ys [y]⟩

/-! ## What is excluded nowhere above -/

/-- Whether none of some entries excludes a path, nor a directory above it. -/
def IsClear (entries : List String) (path : String) : Prop :=
  ∀ entry ∈ entries, isExcluded path entry = false ∧
    ∀ above ∈ (Location.ofPath path).ancestors, isExcluded above.path entry = false

/-- What rooted entries do not exclude stands below no directory that they exclude. -/
theorem isClear_of_forall {entries : List String} (hentries : ∀ entry ∈ entries, IsRooted entry)
    {names : List String} (hnames : ∀ n ∈ names, IsOrdinary n)
    (h : ∀ entry ∈ entries, isExcluded (ofRoot 1 names) entry = false) :
    IsClear entries (ofRoot 1 names) := by
  intro entry hentry
  refine ⟨h entry hentry, fun above habove => ?_⟩
  rw [Location.ofPath_ofRoot hnames] at habove
  obtain ⟨n, -, rfl⟩ := List.mem_map.1 habove
  rw [Location.path_eq_ofRoot Nat.one_ne_zero]
  generalize names.length - 1 - n = count
  rw [Bool.eq_false_iff]
  intro hexcluded
  have hbelow := isExcluded_descends (hentries entry hentry) hexcluded (names.drop count)
  rw [List.take_append_drop, h entry hentry] at hbelow
  cases hbelow

/-! ## What patterns add -/

namespace Merged

variable {files : Files.FileTree} {place : Files.Place} {file : Location} {merged : Merged}
  {path : String}

/-- Patterns that are kept of project files are in canonical form. -/
theorem normalize_of_mem_includes (hplace : Path.isAbsolute place.workingDirectory = true)
    (hread : Merged.read files place file = .ok merged) {patterns : List String}
    (hpatterns : merged.includes = some patterns) {pattern : String}
    (hpattern : pattern ∈ patterns) :
    Path.normalize pattern = pattern := by
  have hyields : Yields files place (files.fileWays.card + 1) [] file (.ok merged) :=
    hread ▸ yields_read hplace file
  obtain ⟨lineage, -, hflat⟩ := hyields.descends
  rw [hflat.includes] at hpatterns
  obtain ⟨f, -, hf⟩ := List.exists_of_findSome?_eq_some hpatterns
  obtain ⟨v, -, rfl⟩ := Option.map_eq_some_iff.1 hf
  obtain ⟨given, -, rfl⟩ := List.mem_map.1 hpattern
  exact Path.normalize_normalize _

/-- Patterns are ordinary segments below the root, if none begins with two slashes. -/
theorem exists_ofRoot_of_mem_includePatterns
    (hplace : Path.isAbsolute place.workingDirectory = true) (hfile : IsLocated file)
    (hread : Merged.read files place file = .ok merged)
    (hroots : ∀ patterns, merged.includes = some patterns →
      ∀ pattern ∈ patterns, beginsWith pattern "//" = false) {directory : Location}
    (hdirectory : directory.IsCanonical) {pattern : String}
    (hpattern : pattern ∈ merged.includePatterns directory) :
    ∃ segs, (∀ seg ∈ segs, IsOrdinary seg) ∧ pattern = ofRoot 1 segs := by
  unfold includePatterns at hpattern
  split at hpattern
  · rename_i patterns hpatterns
    have hrooted := (hasRootedPaths_of_read hfile hread).includes patterns hpatterns pattern hpattern
    obtain ⟨slashes, segs, hslashes, hsegs, rfl⟩ :=
      Path.exists_ofRoot_of_normalize_eq hrooted.isAbsolute
        (normalize_of_mem_includes hplace hread hpatterns hpattern)
    rcases hslashes with rfl | rfl
    · exact ⟨segs, hsegs, rfl⟩
    · have htwo : beginsWith (ofRoot 2 segs) "//" = true :=
        beginsWith_iff.2 ⟨_, (Path.toList_ofRoot 2 segs).symm⟩
      rw [hroots patterns hpatterns _ hpattern] at htwo
      cases htwo
  · split at hpattern
    · obtain rfl := List.mem_singleton.1 hpattern
      rw [hdirectory.path_eq, everythingIn_ofRoot 1 (Path.forall_isName hdirectory.parts)]
      exact ⟨_, List.forall_mem_append.2 ⟨List.forall_mem_append.2 ⟨hdirectory.parts, by decide⟩,
        by decide⟩, rfl⟩
    · cases hpattern

/-- A source file that a pattern finds stands in the tree. -/
theorem exists_stands_of_mem_found (htree : files.HasFileNames) {segs : List String}
    (hsegs : ∀ seg ∈ segs, IsOrdinary seg) (hsource : isSource path = true)
    (h : path ∈ found files place (ofRoot 1 segs)) :
    ∃ names, (∀ n ∈ names, IsOrdinary n) ∧ path = ofRoot 1 names ∧ ∃ e, files.Stands names e := by
  have hnames := Path.forall_isName hsegs
  -- what a pattern with a last segment finds
  have hlast {init : List String} {last : String} (hinit : ∀ seg ∈ init, IsOrdinary seg)
      (hordinary : IsOrdinary last)
      (hmem : path ∈ Files.Globe.expand ⟨files, place, ""⟩ (ofRoot 1 (init ++ [last]))) :
      ∃ names, (∀ n ∈ names, IsOrdinary n) ∧ path = ofRoot 1 names ∧ ∃ e, files.Stands names e := by
    obtain ⟨names, hnames, rfl | ⟨rfl, hstands⟩⟩ :=
      Files.Globe.exists_stands_of_mem_expandUpTo htree rfl Nat.one_ne_zero hinit hordinary
        (Files.Globe.mem_expandUpTo_of_mem_expand hmem)
    · rw [not_isSource_openPath] at hsource
      cases hsource
    · exact ⟨names, hnames, rfl, hstands⟩
  have hmem := mem_found h
  split at hmem
  · rw [everythingIn_ofRoot 1 hnames] at hmem
    exact hlast (List.forall_mem_append.2 ⟨hsegs, by decide⟩) (by decide) hmem
  · rcases List.eq_nil_or_concat segs with rfl | ⟨init, last, rfl⟩
    · -- the root finds itself alone, which is no source file
      have hplain : Files.isPattern (ofRoot 1 []) = false := by decide
      have hroot : ofRoot 1 [] = openPath 1 [] := rfl
      rw [Files.Globe.eq_of_mem_expand hplain hmem, hroot, not_isSource_openPath] at hsource
      cases hsource
    · rw [List.concat_eq_append] at hsegs hmem
      obtain ⟨hinit, hordinary⟩ := List.forall_mem_append.1 hsegs
      exact hlast hinit (hordinary last (by simp)) hmem

end Merged

/-! ## Whole projects -/

variable {files : Files.FileTree} {place : Files.Place} {l : Location} {merged : Merged}

/-- Paths of names stay as they are when they are resolved. -/
theorem map_resolve_eq (place : Files.Place) {paths : List String}
    (h : ∀ path ∈ paths, ∃ names, (∀ n ∈ names, IsOrdinary n) ∧ path = ofRoot 1 names) :
    paths.map (fun path => (Files.resolve place path).path) = paths := by
  refine (List.map_congr_left fun path hpath => ?_).trans (List.map_id' _)
  obtain ⟨names, hnames, rfl⟩ := h path hpath
  rw [Files.resolve_ofRoot place hnames, Location.path_eq_ofRoot Nat.one_ne_zero]

/-- A project whose file can be read is loaded. -/
theorem Project.exists_load
    (hread : Merged.read files place (Files.resolve place l.path) = .ok merged) :
    ∃ project, Project.load files place l = .ok project ∧
      project.file = Files.resolve place l.path ∧
      project.outDir = Value.memberText? merged.compilerOptions "outDir" ∧
      project.inputs = withoutRepetitions ((merged.files.getD [] ++
        merged.contributed files place project.file.parent project.outDir).map fun path =>
          (Files.resolve place path).path) := by
  simp only [Project.load, hread, bind, Except.bind]
  exact ⟨_, rfl, rfl, rfl, rfl⟩

/-- The inputs of a project that can be read are the files that it lists, without repetitions and in
the order in which they come up first, and behind them what its patterns add.  What they add is a
source file that stands in the tree, and no entry excludes it or a directory above it.  Every source
file that they find is an input, unless an entry excludes it. -/
theorem Project.load_inputs (htree : files.HasFileNames)
    (hplace : Path.isAbsolute place.workingDirectory = true)
    (hread : Merged.read files place (Files.resolve place l.path) = .ok merged)
    (hroots : ∀ patterns, merged.includes = some patterns →
      ∀ pattern ∈ patterns, beginsWith pattern "//" = false) :
    ∃ project listed further, Project.load files place l = .ok project ∧
      project.inputs = listed ++ further ∧ project.inputs.Nodup ∧
      IsFirsts listed ((merged.files.getD []).map fun path => (Files.resolve place path).path) ∧
      (∀ path ∈ further, files.isPresent place path = true ∧ isSource path = true ∧
        IsClear (merged.excludePatterns project.file.parent project.outDir) path) ∧
      (∀ pattern ∈ merged.includePatterns project.file.parent,
        ∀ path ∈ Merged.found files place pattern, isSource path = true →
          (∀ entry ∈ merged.excludePatterns project.file.parent project.outDir,
            isExcluded path entry = false) → path ∈ project.inputs) := by
  obtain ⟨project, hload, hfile, houtDir, hinputs⟩ := Project.exists_load hread
  have hlocated : IsLocated project.file := hfile ▸ isLocated_resolve place l.path
  have hparent : project.file.parent.IsCanonical := by
    rw [hfile]
    exact (Files.isCanonical_resolve hplace l.path).parent
  rw [← hfile] at hread
  -- what patterns add stands in the tree, by names that are resolved to themselves
  have hstands : ∀ path ∈ merged.contributed files place project.file.parent project.outDir,
      ∃ names, (∀ n ∈ names, IsOrdinary n) ∧ path = ofRoot 1 names ∧ ∃ e, files.Stands names e := by
    intro path hpath
    obtain ⟨⟨pattern, hpattern, hfound⟩, hsource, -⟩ := Merged.mem_contributed.1 hpath
    obtain ⟨segs, hsegs, rfl⟩ := Merged.exists_ofRoot_of_mem_includePatterns hplace hlocated hread
      hroots hparent hpattern
    exact Merged.exists_stands_of_mem_found htree hsegs hsource hfound
  have hresolved := map_resolve_eq place fun path hpath => by
    obtain ⟨names, hnames, hpath, -⟩ := hstands path hpath
    exact ⟨names, hnames, hpath⟩
  rw [List.map_append, hresolved] at hinputs
  obtain ⟨further, hsplit, hfurther⟩ := exists_withoutRepetitions_append
    ((merged.files.getD []).map fun path => (Files.resolve place path).path)
    (merged.contributed files place project.file.parent project.outDir)
  have hfirsts := isFirsts_withoutRepetitions
    ((merged.files.getD []).map (fun path => (Files.resolve place path).path) ++
      merged.contributed files place project.file.parent project.outDir)
  rw [← hinputs] at hfirsts
  refine ⟨project, _, further, hload, hinputs.trans hsplit, hfirsts.nodup,
    isFirsts_withoutRepetitions _, fun path hpath => ?_, ?_⟩
  · have hcontributed := hfurther hpath
    obtain ⟨-, hsource, hkept⟩ := Merged.mem_contributed.1 hcontributed
    obtain ⟨names, hnames, rfl, hthere⟩ := hstands path hcontributed
    refine ⟨(Files.FileTree.isPresent_ofRoot_iff Nat.one_ne_zero hnames).2 hthere, hsource, ?_⟩
    refine isClear_of_forall (fun entry hentry => ?_) hnames hkept
    rw [houtDir] at hentry
    exact Merged.isRooted_excludePatterns (Merged.hasRootedPaths_of_read hlocated hread)
      hlocated.parent hentry
  · intro pattern hpattern path hfound hsource hkept
    exact (hfirsts.mem_iff path).2 (List.mem_append_right _
      (Merged.mem_contributed.2 ⟨⟨pattern, hpattern, hfound⟩, hsource, hkept⟩))

/-- A project that lists a file, includes a pattern and excludes a directory. -/
def listing : Files.FileTree where
  entries := [(["tsconfig.json"], fileOf
      "\x7b\"files\":[\"b.ts\"],\"include\":[\"**/*.ts\"],\"exclude\":[\"out\"]\x7d"),
    (["a.ts"], .file []), (["b.ts"], .file []), (["out"], .directory), (["out", "c.ts"], .file [])]

theorem read_listing : Merged.read listing atRoot (belowRoot "tsconfig.json") =
    .ok { files := some ["/b.ts"], includes := some ["/**/*.ts"], excludes := some ["/out"] } := by
  have hms : projectMembers listing atRoot (belowRoot "tsconfig.json") =
      .ok [(.text "files", .list [.text "b.ts"]), (.text "include", .list [.text "**/*.ts"]),
        (.text "exclude", .list [.text "out"])] := by
    cbv
  rw [Merged.read_of_members hms rfl]
  rfl

/-- The file that is listed comes first, and what lies in the directory that is excluded is no
input. -/
theorem Project.load_inputs_listing :
    ∃ project further, Project.load listing atRoot (belowRoot "tsconfig.json") = .ok project ∧
      project.inputs = "/b.ts" :: further ∧ "/a.ts" ∈ further ∧ "/out/c.ts" ∉ further := by
  have hfile : Files.resolve atRoot (belowRoot "tsconfig.json").path = belowRoot "tsconfig.json" := by
    decide
  have hread : Merged.read listing atRoot
      (Files.resolve atRoot (belowRoot "tsconfig.json").path) = _ :=
    (congrArg _ hfile).trans read_listing
  obtain ⟨project, listed, further, hload, hinputs, -, hfirsts, hfurther, hkept⟩ :=
    Project.load_inputs (by decide) rfl hread fun patterns hpatterns => by
      obtain rfl := Option.some.inj hpatterns
      decide
  have hresolved : ["/b.ts"].map (fun path => (Files.resolve atRoot path).path) = ["/b.ts"] := by
    decide
  have hlisted : listed = ["/b.ts"] := by
    refine List.perm_singleton.1 ((List.perm_ext_iff_of_nodup hfirsts.nodup (by simp)).2 ?_)
    rw [← hresolved]
    exact hfirsts.mem_iff
  subst hlisted
  refine ⟨project, further, hload, hinputs, ?_, fun hmem => ?_⟩
  · have hexpand : Files.Globe.expand ⟨listing, atRoot, ""⟩ "/**/*.ts" =
        ["/a.ts", "/b.ts", "/out/c.ts"] := by
      decide +kernel
    have hfound : "/a.ts" ∈ Merged.found listing atRoot "/**/*.ts" := by
      refine (List.mergeSort_perm _ _).mem_iff.2 ?_
      change "/a.ts" ∈ Files.Globe.expand ⟨listing, atRoot, ""⟩ "/**/*.ts"
      simp [hexpand]
    have hinput := hkept "/**/*.ts" (List.mem_singleton_self _) "/a.ts" hfound (by decide)
      fun entry hentry => by
        obtain rfl := List.mem_singleton.1 hentry
        decide
    rw [hinputs] at hinput
    exact (List.mem_cons.1 hinput).resolve_left (by decide)
  · have hclear := (hfurther "/out/c.ts" hmem).2.2 "/out" (List.mem_singleton_self _)
    exact absurd hclear.1 (by decide)

end DeclBundle.Configuration
