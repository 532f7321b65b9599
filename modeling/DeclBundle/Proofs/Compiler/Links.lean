import DeclBundle.Proofs.Compiler.Collected
import DeclBundle.Proofs.ModuleId.Segments
set_option autoImplicit false

/-!
# Links between bundled modules

A source file names another one by the way from its own directory.  In the bundle both are modules
whose identifiers come from the places where their declarations are said to lie.  The specifier,
resolved in the module of the first file, is the identifier of the second: climbing and going down
between two source files is climbing and going down between their identifiers.
-/

namespace DeclBundle.CommandCompiler

open Text DeclBundle.Path ModuleId

variable {place : Files.Place} {files : Files.FileTree} {request : Request}
variable {package directory : String} {listing : Listing}

/-! ## Sources and specifiers -/

/-- The specifier by which one source file names another: the way from its directory to the other
one without its source suffix, marked as relative. -/
def specifierBetween (cwd here there : String) : String :=
  let way := relative cwd (withoutSourceSuffix there) (Path.directory here)
  if beginsWith way "../" then way else "./" ++ way

/-- A way, marked as relative unless it climbs. -/
def marked (way : String) : String :=
  if beginsWith way "../" then way else "./" ++ way

/-- A marked way is relative, and a walk along it is a walk along the way. -/
theorem marked_spec (way : String) :
    isRelative (marked way) = true ∧
      ∀ trail : List String, (segments (marked way)).foldl (walkStep false) trail =
        (segments way).foldl (walkStep false) trail := by
  unfold marked
  by_cases hup : beginsWith way "../" = true
  · rw [if_pos hup]
    obtain ⟨rest, hrest⟩ := beginsWith_iff.1 hup
    refine ⟨beginsWith_iff.2 ⟨'.' :: '/' :: rest, ?_⟩, fun trail => rfl⟩
    rw [← hrest]
    rfl
  · rw [if_neg hup]
    refine ⟨beginsWith_iff.2 ⟨'/' :: way.toList, by simp⟩, fun trail => ?_⟩
    have hsegs : segments ("./" ++ way) = "." :: segments way := by
      rw [show "./" = "." ++ "/" from rfl, segments_append_slash]
      rfl
    simp [hsegs, walkStep]

/-- What the links of a bundle take for granted of the settings: a canonical base directory, a
directory of declarations in it, and a package whose segments are no dots. -/
structure IsLinkable (request : Request) (package : String) : Prop where
  absolute : isAbsolute request.settings.base = true
  canonical : Path.normalize request.settings.base = request.settings.base
  base_ne : request.settings.base ≠ "//"
  base_slashes : '\\' ∉ request.settings.base.toList
  outDir_isUnder : ∀ d, nonempty? request.settings.outDir = some d →
    isUnder request.declarationDirectory request.settings.base = true
  outDir_slashes : ∀ d, request.settings.outDir = some d → '\\' ∉ d.toList
  package_segments : ∀ seg ∈ segments package, seg ≠ "" ∧ beginsWith seg "." = false

/-- A path of names that ends with the suffix of a source file and is no declaration. -/
structure IsSource (path : String) : Prop where
  ordinary : ∀ seg ∈ segments path, IsOrdinary seg
  suffix : finishesWith path ".ts" = true ∨ finishesWith path ".tsx" = true
  no_declaration : finishesWith path declarationSuffix = false
  stem : IsOrdinary (fileName (withoutSourceSuffix path))
  slashes : '\\' ∉ path.toList

/-- A source file beneath the base directory has been collected with a declaration. -/
def IsEmitted (place : Files.Place) (files : Files.FileTree) (request : Request)
    (directory : String) (listing : Listing) (path : String) (declaration : SourceFile) : Prop :=
  ∃ collected, collect place files request directory listing
    (beneath request.settings.base path) = .ok collected ∧ collected.declaration = some declaration

/-! ## Source files as segments -/

/-- Taking the source suffix off a path takes it off the last segment. -/
theorem withoutSourceSuffix_ofRoot (slashes : Nat) (segs : List String) (last : String) :
    withoutSourceSuffix (ofRoot slashes (segs ++ [last])) =
      ofRoot slashes (segs ++ [withoutSourceSuffix last]) := by
  have hts : '/' ∉ ".ts".toList := by decide
  have htsx : '/' ∉ ".tsx".toList := by decide
  have hends : finishesWith (ofRoot slashes (segs ++ [last])) ".tsx" = finishesWith last ".tsx" := by
    rw [ofRoot_append_singleton, finishesWith_append (getLast?_openPath slashes segs) htsx]
  unfold withoutSourceSuffix
  rw [hends, withoutSuffix_ofRoot slashes segs last hts, withoutSuffix_ofRoot slashes segs last htsx]
  split <;> rfl

theorem mem_of_mem_withoutSourceSuffix {c : Char} {path : String}
    (h : c ∈ (withoutSourceSuffix path).toList) : c ∈ path.toList := by
  unfold withoutSourceSuffix at h
  split at h <;> exact mem_of_mem_withoutSuffix h

/-- If what cuts a suffix off a path cuts it off the last segment, and leaves a stem that can stand in
the place of that segment, then the path is some directories and a name with such a stem. -/
theorem exists_segments_of_stem {path : String} {cut : String → String}
    (hcut : ∀ dirs last, cut (ofSegments (dirs ++ [last])) = ofSegments (dirs ++ [cut last]))
    (hmem : ∀ (c : Char) (p : String), c ∈ (cut p).toList → c ∈ p.toList)
    (hordinary : ∀ seg ∈ segments path, IsOrdinary seg) (hstem : IsOrdinary (fileName (cut path))) :
    ∃ dirs last, path = ofSegments (dirs ++ [last]) ∧
      (∀ seg ∈ dirs ++ [last], IsOrdinary seg) ∧ IsOrdinary (cut last) := by
  have hpath := ofSegments_segments path
  rcases List.eq_nil_or_concat (segments path) with hnil | ⟨dirs, last, hsegs⟩
  · exact absurd hnil (segments_ne_nil path)
  · rw [List.concat_eq_append] at hsegs
    rw [hsegs] at hordinary
    refine ⟨dirs, last, by rw [← hsegs, hpath], hordinary, ?_⟩
    have hslash : '/' ∉ (cut last).toList := fun h =>
      (hordinary last (by simp)).no_slash (hmem '/' last h)
    rwa [← hpath, hsegs, hcut, ← ofRoot_zero, fileName_ofRoot 0 dirs hslash] at hstem

/-- A source file is some directories and a name whose stem can stand in its place. -/
theorem IsSource.exists_segments {path : String} (h : IsSource path) :
    ∃ dirs last, path = ofSegments (dirs ++ [last]) ∧
      (∀ seg ∈ dirs ++ [last], IsOrdinary seg) ∧ IsOrdinary (withoutSourceSuffix last) := by
  refine exists_segments_of_stem ?_ (fun _ _ => mem_of_mem_withoutSourceSuffix) h.ordinary h.stem
  intro dirs last
  simpa only [ofRoot_zero] using withoutSourceSuffix_ofRoot 0 dirs last

/-! ## Settings as segments -/

/-- The segments that the settings are made of: the base directory, the way from there to the
directory of declarations, and the package. -/
structure Layout (request : Request) (package : String) (root : Nat)
    (base out names : List String) : Prop where
  root_cases : root = 1 ∨ root = 2
  root_of_nil : base = [] → root = 1
  base_ordinary : ∀ seg ∈ base, IsOrdinary seg
  out_ordinary : ∀ seg ∈ out, IsOrdinary seg
  names_ordinary : ∀ seg ∈ names, IsOrdinary seg
  names_ne : names ≠ []
  base_eq : request.settings.base = ofRoot root base
  base_slashes : '\\' ∉ request.settings.base.toList
  directory_eq : request.declarationDirectory = ofRoot root (base ++ out)
  out_slashes : ∀ seg ∈ out, '\\' ∉ seg.toList
  package_eq : package = ofSegments names

/-- The segments of the base directory and of the package. -/
structure Ground (request : Request) (package : String) (root : Nat)
    (base names : List String) : Prop where
  root_cases : root = 1 ∨ root = 2
  root_of_nil : base = [] → root = 1
  base_ordinary : ∀ seg ∈ base, IsOrdinary seg
  names_ordinary : ∀ seg ∈ names, IsOrdinary seg
  names_ne : names ≠ []
  base_eq : request.settings.base = ofRoot root base
  base_slashes : '\\' ∉ request.settings.base.toList
  package_eq : package = ofSegments names

theorem Layout.ground {root : Nat} {base out names : List String}
    (layout : Layout request package root base out names) : Ground request package root base names where
  root_cases := layout.root_cases
  root_of_nil := layout.root_of_nil
  base_ordinary := layout.base_ordinary
  names_ordinary := layout.names_ordinary
  names_ne := layout.names_ne
  base_eq := layout.base_eq
  base_slashes := layout.base_slashes
  package_eq := layout.package_eq

/-- The directory of declarations is canonical, and has no backslash if the settings have none. -/
theorem exists_ofRoot_declarationDirectory (h : IsLinkable request package) :
    ∃ slashes segs, (slashes = 1 ∨ slashes = 2) ∧ (∀ seg ∈ segs, IsOrdinary seg) ∧
      (∀ seg ∈ segs, '\\' ∉ seg.toList) ∧ request.declarationDirectory = ofRoot slashes segs := by
  obtain ⟨p, hp, hdirectory, hclean⟩ : ∃ p, isAbsolute p = true ∧
      request.declarationDirectory = Path.normalize p ∧ '\\' ∉ p.toList := by
    unfold Request.declarationDirectory
    cases hd : nonempty? request.settings.outDir with
    | none => exact ⟨request.settings.base, h.absolute, rfl, h.base_slashes⟩
    | some d =>
      obtain ⟨hsome, -⟩ := Option.filter_eq_some_iff.1 hd
      have hbase : request.base = request.settings.base := h.canonical
      refine ⟨join request.base d, ?_, rfl, ?_⟩
      · rw [hbase]
        exact isAbsolute_join h.absolute d
      · rw [hbase]
        exact not_mem_join (by decide) h.base_slashes (h.outDir_slashes d hsome)
  obtain ⟨slashes, segs, hslashes, hsegs, hnormal⟩ := exists_ofRoot_normalize hp
  refine ⟨slashes, segs, hslashes, hsegs, ?_, hdirectory.trans hnormal⟩
  intro seg hseg hc
  have hmem := mem_ofRoot_of_mem slashes (forall_isName hsegs) hseg hc
  rw [← hnormal] at hmem
  exact not_mem_normalize hp (by decide) hclean hmem

/-- Without a setting declarations lie in the base directory itself. -/
theorem IsLinkable.isUnder_declarationDirectory (h : IsLinkable request package) :
    isUnder request.declarationDirectory request.settings.base = true := by
  cases hd : nonempty? request.settings.outDir with
  | none => simp [Request.declarationDirectory, hd, Request.base, h.canonical, isUnder]
  | some d => exact h.outDir_isUnder d hd

theorem IsLinkable.package_ordinary (h : IsLinkable request package) :
    ∀ seg ∈ segments package, IsOrdinary seg := by
  intro seg hseg
  obtain ⟨hne, hdot⟩ := h.package_segments seg hseg
  refine ⟨hne, ?_, ?_, not_mem_of_mem_segments hseg⟩
  · rintro rfl
    exact absurd hdot (by decide)
  · rintro rfl
    exact absurd hdot (by decide)

/-- Settings that are fit for links are made of segments, unless the directory of declarations has a
root of its own. -/
theorem IsLinkable.exists_layout (h : IsLinkable request package)
    (hroot : leadingSlashes request.declarationDirectory = leadingSlashes request.settings.base) :
    ∃ root base out names, Layout request package root base out names := by
  obtain ⟨root, base, hcases, hbase, hbaseEq⟩ := exists_ofRoot_of_normalize_eq h.absolute h.canonical
  obtain ⟨slashes, segs, hcases', hsegs, hclean, hdirectory⟩ := exists_ofRoot_declarationDirectory h
  have hnil : base = [] → root = 1 := by
    rintro rfl
    rcases hcases with rfl | rfl
    · rfl
    · exact absurd hbaseEq h.base_ne
  have hsame : slashes = root := by
    rw [hdirectory, hbaseEq, leadingSlashes_ofRoot (by omega) (forall_isName hsegs),
      leadingSlashes_ofRoot (by omega) (forall_isName hbase)] at hroot
    exact hroot
  obtain ⟨out, rfl⟩ : ∃ out, segs = base ++ out := by
    by_cases hempty : base = []
    · exact ⟨segs, by simp [hempty]⟩
    · have hunder := h.isUnder_declarationDirectory
      rw [hdirectory, hbaseEq] at hunder
      exact (exists_append_of_isUnder hempty (by omega) (by omega) (forall_isName hsegs)
        (forall_isName hbase) hunder).2
  refine ⟨root, base, out, segments package, hcases, hnil, hbase, ?_, h.package_ordinary,
    segments_ne_nil package, hbaseEq, h.base_slashes, ?_, ?_, (ofSegments_segments package).symm⟩
  · exact (List.forall_mem_append.1 hsegs).2
  · rw [hdirectory, hsame]
  · exact (List.forall_mem_append.1 hclean).2

/-! ## Identifiers and specifiers as segments -/

variable {root : Nat} {base out names : List String}

/-- The declaration of a source file lies where the file lies, with another suffix. -/
theorem emittedName_ofRoot {dirs : List String} {last : String}
    (hcases : root = 1 ∨ root = 2) (hbase : ∀ seg ∈ base, IsOrdinary seg)
    (hbelow : ∀ seg ∈ dirs ++ [last], IsOrdinary seg) (heq : request.base = ofRoot root base) :
    emittedName place request (ofRoot root (base ++ (dirs ++ [last]))) =
      ofSegments (dirs ++ [withoutSourceSuffix last ++ declarationSuffix]) := by
  rw [emittedName, heq, relative_ofRoot_append _ hcases hbase hbelow (by simp), ← ofRoot_zero,
    withoutSourceSuffix_ofRoot, ofRoot_append_singleton, String.append_assoc,
    ← ofRoot_append_singleton, ofRoot_zero]

/-- The declaration of a source file is said to lie where the file lies, seen from the directory of
declarations. -/
theorem Ground.fileName_declaration (ground : Ground request package root base names)
    {dirs : List String} {last : String} {declaration : SourceFile}
    (hsource : IsSource (ofSegments (dirs ++ [last])))
    (hbelow : ∀ seg ∈ dirs ++ [last], IsOrdinary seg)
    (h : IsEmitted place files request directory listing (ofSegments (dirs ++ [last])) declaration) :
    declaration.fileName = join request.declarationDirectory
      (ofSegments (dirs ++ [withoutSourceSuffix last ++ declarationSuffix])) := by
  obtain ⟨collected, hcollected, hdeclaration⟩ := h
  have hslash : '/' ∉ declarationSuffix.toList := by decide
  have hsuffix : finishesWith (ofRoot root (base ++ (dirs ++ [last]))) declarationSuffix = false := by
    have hends := hsource.no_declaration
    rw [← ofRoot_zero, ofRoot_append_singleton, finishesWith_append (getLast?_openPath 0 dirs) hslash]
      at hends
    rw [← List.append_assoc, ofRoot_append_singleton,
      finishesWith_append (getLast?_openPath root (base ++ dirs)) hslash, hends]
  have hbaseEq : request.base = ofRoot root base := by
    rw [Request.base, ground.base_eq, normalize_ofRoot ground.root_cases ground.base_ordinary]
  rw [ground.base_eq, beneath_ofRoot ground.root_of_nil (forall_isName ground.base_ordinary)
    (by simp)] at hcollected
  rw [fileName_of_collect hcollected hsuffix hdeclaration,
    emittedName_ofRoot ground.root_cases ground.base_ordinary hbelow hbaseEq]

/-- The declaration of a source file is named by the names of its directories and its stem. -/
theorem isName_declaration {dirs : List String} {last : String}
    (hbelow : ∀ seg ∈ dirs ++ [last], IsOrdinary seg)
    (hstem : IsOrdinary (withoutSourceSuffix last)) :
    ∀ seg ∈ dirs ++ [withoutSourceSuffix last ++ declarationSuffix], IsName seg := by
  have hslash : '/' ∉ declarationSuffix.toList := by decide
  have hlast : IsName (withoutSourceSuffix last ++ declarationSuffix) :=
    ⟨by simp [declarationSuffix], by simp [hstem.no_slash, hslash]⟩
  exact List.forall_mem_append.2
    ⟨forall_isName (List.forall_mem_append.1 hbelow).1, List.forall_mem_singleton.2 hlast⟩

/-- The declaration of a source file is said to lie below the directory of declarations. -/
theorem Layout.fileName_declaration (layout : Layout request package root base out names)
    {dirs : List String} {last : String} {declaration : SourceFile}
    (hsource : IsSource (ofSegments (dirs ++ [last])))
    (hbelow : ∀ seg ∈ dirs ++ [last], IsOrdinary seg)
    (hstem : IsOrdinary (withoutSourceSuffix last))
    (h : IsEmitted place files request directory listing (ofSegments (dirs ++ [last])) declaration) :
    declaration.fileName =
      ofRoot root (base ++ (out ++ dirs ++ [withoutSourceSuffix last ++ declarationSuffix])) := by
  have hplaces : ∀ seg ∈ base ++ out, IsName seg :=
    List.forall_mem_append.2
      ⟨forall_isName layout.base_ordinary, forall_isName layout.out_ordinary⟩
  rw [layout.ground.fileName_declaration hsource hbelow h, layout.directory_eq,
    join_ofRoot_ofSegments hplaces (isName_declaration hbelow hstem) (by simp), List.append_assoc,
    ← List.append_assoc out]

/-- What the declaration of a source file adds to the base directory has no backslash. -/
theorem below_slashes {dirs : List String} {last : String} (hout : ∀ seg ∈ out, '\\' ∉ seg.toList)
    (hsource : IsSource (ofSegments (dirs ++ [last])))
    (hbelow : ∀ seg ∈ dirs ++ [last], IsOrdinary seg) :
    '\\' ∉ (ofSegments
      (out ++ dirs ++ [withoutSourceSuffix last ++ declarationSuffix])).toList := by
  have hpath : ∀ seg ∈ dirs ++ [last], '\\' ∉ seg.toList := by
    intro seg hseg hmem
    have hc := mem_ofRoot_of_mem 0 (forall_isName hbelow) hseg hmem
    exact hsource.slashes (by simpa using hc)
  have hlast : '\\' ∉ (withoutSourceSuffix last ++ declarationSuffix).toList := by
    rw [String.toList_append, List.mem_append]
    rintro (hmem | hmem)
    · exact hpath last (by simp) (mem_of_mem_withoutSourceSuffix hmem)
    · exact absurd hmem (by decide)
  have hall : ∀ seg ∈ out ++ dirs ++ [withoutSourceSuffix last ++ declarationSuffix],
      '\\' ∉ seg.toList :=
    List.forall_mem_append.2
      ⟨List.forall_mem_append.2 ⟨hout, (List.forall_mem_append.1 hpath).1⟩,
        List.forall_mem_singleton.2 hlast⟩
  intro hc
  rcases mem_ofSegments hc with hslash | ⟨seg, hseg, hmem⟩
  · exact absurd hslash (by decide)
  · exact hall seg hseg hmem

/-- The declaration of a source file is named by the segments of the package, those of the
directory of declarations and those of the file, without its suffix. -/
theorem Layout.ofFile_declaration (layout : Layout request package root base out names)
    {dirs : List String} {last : String} {declaration : SourceFile}
    (hsource : IsSource (ofSegments (dirs ++ [last])))
    (hbelow : ∀ seg ∈ dirs ++ [last], IsOrdinary seg)
    (hstem : IsOrdinary (withoutSourceSuffix last))
    (h : IsEmitted place files request directory listing (ofSegments (dirs ++ [last])) declaration) :
    ofFile request.settings.base package declaration.fileName =
      .ok (ofSegments (names ++ out ++ dirs ++ [withoutSourceSuffix last])) := by
  have hbaseClean := layout.base_slashes
  rw [layout.base_eq] at hbaseClean ⊢
  rw [layout.fileName_declaration hsource hbelow hstem h,
    ofFile_ofRoot package layout.root_of_nil (forall_isName layout.base_ordinary) hbaseClean
      (below_slashes layout.out_slashes hsource hbelow),
    withoutSuffix_append, layout.package_eq, ← ofSegments_append layout.names_ne (by simp)]
  simp

/-- The way from the directory of a file beneath the base directory to another path there, walked
along from the segments of the first in another place, leads to the segments of the second in that
place. -/
theorem Ground.foldl_relative (ground : Ground request package root base names) (cwd : String)
    {dirs there : List String} {last : String} (hhere : ∀ seg ∈ dirs ++ [last], IsOrdinary seg)
    (hthere : ∀ seg ∈ there, IsOrdinary seg) (trail : List String) :
    (segments (relative cwd (ofRoot root (base ++ there))
        (Path.directory (beneath request.settings.base (ofSegments (dirs ++ [last])))))).foldl
      (walkStep false) (dirs.reverse ++ trail) = there.reverse ++ trail := by
  have hbaseNames : ∀ seg ∈ base, IsName seg := forall_isName ground.base_ordinary
  have hdirs : ∀ seg ∈ dirs, IsOrdinary seg := (List.forall_mem_append.1 hhere).1
  have hplace : ∀ seg ∈ base ++ dirs, IsName seg :=
    List.forall_mem_append.2 ⟨hbaseNames, forall_isName hdirs⟩
  rw [ground.base_eq, beneath_ofRoot ground.root_of_nil hbaseNames (by simp),
    ← List.append_assoc base dirs, directory_ofRoot root hplace (hhere last (by simp)).no_slash]
  exact foldl_walkStep_relative cwd ground.root_cases ground.base_ordinary hdirs hthere trail

/-- The way between two source files beneath a base, walked along from the segments of the first in
another place, leads to the segments of the second in that place. -/
theorem Layout.foldl_specifierBetween (layout : Layout request package root base out names)
    (cwd : String) {dirs dirs' : List String} {last last' : String}
    (hhere : ∀ seg ∈ dirs ++ [last], IsOrdinary seg)
    (hthere : ∀ seg ∈ dirs' ++ [last'], IsOrdinary seg)
    (hstem : IsOrdinary (withoutSourceSuffix last')) (trail : List String) :
    (segments (specifierBetween cwd
        (beneath request.settings.base (ofSegments (dirs ++ [last])))
        (beneath request.settings.base (ofSegments (dirs' ++ [last']))))).foldl
      (walkStep false) (dirs.reverse ++ trail) =
      (dirs' ++ [withoutSourceSuffix last']).reverse ++ trail := by
  have htarget : ∀ seg ∈ dirs' ++ [withoutSourceSuffix last'], IsOrdinary seg :=
    List.forall_mem_append.2
      ⟨(List.forall_mem_append.1 hthere).1, List.forall_mem_singleton.2 hstem⟩
  have hway := layout.ground.foldl_relative cwd hhere htarget trail
  rw [← List.append_assoc base dirs', ← withoutSourceSuffix_ofRoot, List.append_assoc base dirs',
    ← beneath_ofRoot layout.root_of_nil (forall_isName layout.base_ordinary) (by simp),
    ← layout.base_eq] at hway
  rw [← hway]
  exact (marked_spec _).2 _

/-- A specifier whose walk from the directory of a module ends with some segments resolves to these.
Empty segments behind the package make no difference. -/
theorem Ground.resolve_eq (ground : Ground request package root base names)
    {gap places there : List String} {name specifier : String} (hgap : ∀ seg ∈ gap, seg = "")
    (hplaces : ∀ seg ∈ places, IsOrdinary seg) (hname : '/' ∉ name.toList)
    (hrelative : isRelative specifier = true)
    (hwalk : (segments specifier).foldl (walkStep false) (names ++ places).reverse = there.reverse)
    (hthere : ∀ seg ∈ there, IsOrdinary seg) (hne : there ≠ []) :
    resolve (ofSegments (names ++ (gap ++ places) ++ [name])) specifier = ofSegments there := by
  obtain ⟨first, others, rfl⟩ := List.exists_cons_of_ne_nil ground.names_ne
  have hfirst : IsOrdinary first := ground.names_ordinary first List.mem_cons_self
  have hdirs : ∀ seg ∈ first :: others ++ places, IsOrdinary seg :=
    List.forall_mem_append.2 ⟨ground.names_ordinary, hplaces⟩
  have hnone : gap.filter (· != "") = [] :=
    List.filter_eq_nil_iff.2 fun seg hseg => by simp [hgap seg hseg]
  have hfilter : (first :: (others ++ (gap ++ places))).filter (· != "") =
      first :: others ++ places := by
    rw [← List.cons_append, List.filter_append, List.filter_append, hnone, List.nil_append,
      filter_eq_self_of_isOrdinary ground.names_ordinary, filter_eq_self_of_isOrdinary hplaces]
  have hslashes : ∀ seg ∈ others ++ (gap ++ places), '/' ∉ seg.toList := by
    intro seg hseg
    rcases List.mem_append.1 hseg with hseg | hseg
    · exact (ground.names_ordinary seg (List.mem_cons_of_mem first hseg)).no_slash
    · rcases List.mem_append.1 hseg with hseg | hseg
      · simp [hgap seg hseg]
      · exact (hplaces seg hseg).no_slash
  obtain ⟨c, cs, hlist, -⟩ := toList_ofSegments_eq_cons hne (forall_isName hthere)
  have hnonempty : ofSegments there ≠ "" := by
    intro hempty
    rw [hempty] at hlist
    cases hlist
  rw [List.cons_append,
    resolve_ofSegments hfirst.isName hslashes hfilter hdirs hname hrelative, hwalk,
    List.reverse_reverse]
  simp only [hnonempty, if_false]

/-! ## Links -/

/-- The specifier between two source files whose declarations are bundled, resolved in the module of
the first, is the identifier of the second, unless the directory of declarations has a root of its
own. -/
theorem resolve_specifierBetween (h : IsLinkable request package)
    (hroot : leadingSlashes request.declarationDirectory = leadingSlashes request.settings.base)
    {here there : String} {declaration declaration' : SourceFile}
    (hhere : IsSource here) (hthere : IsSource there)
    (hdeclaration : IsEmitted place files request directory listing here declaration)
    (hdeclaration' : IsEmitted place files request directory listing there declaration')
    (cwd : String) :
    ∃ containing target,
      ofFile request.settings.base package declaration.fileName = .ok containing ∧
      ofFile request.settings.base package declaration'.fileName = .ok target ∧
      resolve containing (specifierBetween cwd (beneath request.settings.base here)
        (beneath request.settings.base there)) = target := by
  obtain ⟨root, base, out, names, layout⟩ := h.exists_layout hroot
  obtain ⟨dirs, last, rfl, hbelow, hstem⟩ := hhere.exists_segments
  obtain ⟨dirs', last', rfl, hbelow', hstem'⟩ := hthere.exists_segments
  refine ⟨_, _, layout.ofFile_declaration hhere hbelow hstem hdeclaration,
    layout.ofFile_declaration hthere hbelow' hstem' hdeclaration', ?_⟩
  have hplaces : ∀ seg ∈ out ++ dirs, IsOrdinary seg :=
    List.forall_mem_append.2 ⟨layout.out_ordinary, (List.forall_mem_append.1 hbelow).1⟩
  have htarget : ∀ seg ∈ names ++ out ++ dirs' ++ [withoutSourceSuffix last'], IsOrdinary seg :=
    List.forall_mem_append.2
      ⟨List.forall_mem_append.2
        ⟨List.forall_mem_append.2 ⟨layout.names_ordinary, layout.out_ordinary⟩,
          (List.forall_mem_append.1 hbelow').1⟩, List.forall_mem_singleton.2 hstem'⟩
  have hwalk := layout.foldl_specifierBetween cwd hbelow hbelow' hstem' (names ++ out).reverse
  rw [← List.reverse_append, ← List.reverse_append, ← List.append_assoc, List.append_assoc names out]
    at hwalk
  have hgap : ∀ seg ∈ ([] : List String), seg = "" := by simp
  have hresolve := layout.ground.resolve_eq hgap hplaces hstem.no_slash (marked_spec _).1 hwalk
    htarget (by simp)
  rwa [List.nil_append, ← List.append_assoc] at hresolve

/-- A place, and a tree where declarations have been written for two sources. -/
def twoDeclarations : Files.Place × Files.FileTree :=
  ({ workingDirectory := "/", home := "/" },
    ⟨[(["x"], .directory), (["x", "a.d.ts"], .file []), (["b.d.ts"], .file [])]⟩)

/-- The request for two sources beneath a base directory. -/
def twoSources (base outDir : String) : Request where
  files := ["x/a.ts", "b.ts"]
  settings := { base, outDir := some outDir }

/-- The settings of the request are fit for links as far as its directories are. -/
theorem isLinkable_twoSources {base outDir : String} (habsolute : isAbsolute base = true)
    (hcanonical : Path.normalize base = base) (hne : base ≠ "//") (hbase : '\\' ∉ base.toList)
    (hunder : isUnder (twoSources base outDir).declarationDirectory base = true)
    (hout : '\\' ∉ outDir.toList) : IsLinkable (twoSources base outDir) "lib" where
  absolute := habsolute
  canonical := hcanonical
  base_ne := hne
  base_slashes := hbase
  outDir_isUnder := fun _ _ => hunder
  outDir_slashes := by
    intro d hd
    rwa [← Option.some.inj hd]
  package_segments := by decide

theorem isSource_twoSources : IsSource "x/a.ts" ∧ IsSource "b.ts" :=
  ⟨⟨by decide, by decide, by decide, by decide, by decide⟩,
    ⟨by decide, by decide, by decide, by decide, by decide⟩⟩

/-- A link from a directory below the base directory to the base directory. -/
theorem resolve_specifierBetween_up :
    ∃ containing target,
      ofFile "/p" "lib" "/p/gen/x/a.d.ts" = .ok containing ∧
      ofFile "/p" "lib" "/p/gen/b.d.ts" = .ok target ∧
      resolve containing
        (specifierBetween "/" (beneath "/p" "x/a.ts") (beneath "/p" "b.ts")) = target := by
  have hlinkable : IsLinkable (twoSources "/p" "gen") "lib" :=
    isLinkable_twoSources (by decide) (by decide) (by decide) (by decide) (by decide) (by decide)
  have hhere : IsEmitted twoDeclarations.1 twoDeclarations.2 (twoSources "/p" "gen") "/" {} "x/a.ts"
      ⟨"/p/gen/x/a.d.ts", "", false⟩ := ⟨_, rfl, rfl⟩
  have hthere : IsEmitted twoDeclarations.1 twoDeclarations.2 (twoSources "/p" "gen") "/" {} "b.ts"
      ⟨"/p/gen/b.d.ts", "", false⟩ := ⟨_, rfl, rfl⟩
  exact resolve_specifierBetween hlinkable (by decide) isSource_twoSources.1 isSource_twoSources.2
    hhere hthere "/"

/-- Where the base directory is the root and declarations are said to lie beneath two slashes, the
identifiers keep both, and no specifier leads from one to another. -/
theorem resolve_specifierBetween_ne :
    IsLinkable (twoSources "/" "//y") "lib" ∧ IsSource "x/a.ts" ∧ IsSource "b.ts" ∧
      IsEmitted twoDeclarations.1 twoDeclarations.2 (twoSources "/" "//y") "/" {} "x/a.ts"
        ⟨"//y/x/a.d.ts", "", false⟩ ∧
      IsEmitted twoDeclarations.1 twoDeclarations.2 (twoSources "/" "//y") "/" {} "b.ts"
        ⟨"//y/b.d.ts", "", false⟩ ∧
      ofFile "/" "lib" "//y/x/a.d.ts" = .ok "lib//y/x/a" ∧
      ofFile "/" "lib" "//y/b.d.ts" = .ok "lib//y/b" ∧
      resolve "lib//y/x/a"
        (specifierBetween "/" (beneath "/" "x/a.ts") (beneath "/" "b.ts")) ≠ "lib//y/b" := by
  refine ⟨?_, isSource_twoSources.1, isSource_twoSources.2, ⟨_, rfl, rfl⟩, ⟨_, rfl, rfl⟩, rfl, rfl,
    by decide⟩
  exact isLinkable_twoSources (by decide) (by decide) (by decide) (by decide) (by decide) (by decide)

end DeclBundle.CommandCompiler
