import DeclBundle.Proofs.Compiler.Links
import DeclBundle.Proofs.Compiler.Placement
set_option autoImplicit false

/-!
# Links to inputs

A source file may name a file that is a declaration from the start.  That one stays where it is,
while the declaration of the source file is said to lie in the directory of declarations.  The
specifier, which leads from the one file to the other, leads from the identifier of the one to that
of the other only if declarations lie in the base directory itself.
-/

namespace DeclBundle.CommandCompiler

open Text DeclBundle.Path ModuleId

variable {place : Files.Place} {files : Files.FileTree} {request : Request}
variable {package directory : String} {listing : Listing}

/-! ## Inputs and specifiers -/

/-- The specifier by which a source file names an input: the way from its directory to the input
without the suffix of declarations, marked as relative. -/
def specifierTo (cwd here there : String) : String :=
  marked (relative cwd (withoutSuffix there declarationSuffix) (Path.directory here))

/-- A path of names that ends with the suffix of declarations. -/
structure IsInput (path : String) : Prop where
  ordinary : ∀ seg ∈ segments path, IsOrdinary seg
  suffix : finishesWith path declarationSuffix = true
  stem : IsOrdinary (fileName (withoutSuffix path declarationSuffix))
  slashes : '\\' ∉ path.toList

/-- An input beneath the base directory has been collected, as a declaration from the start. -/
def IsGiven (place : Files.Place) (files : Files.FileTree) (request : Request)
    (directory : String) (listing : Listing) (path : String) (declaration : SourceFile) : Prop :=
  ∃ collected, collect place files request directory listing
    (beneath request.settings.base path) = .ok collected ∧
      collected.declaration = some declaration ∧ declaration.isPreDeclared = true

/-- An input is some directories and a name whose stem can stand in its place. -/
theorem IsInput.exists_segments {path : String} (h : IsInput path) :
    ∃ dirs last, path = ofSegments (dirs ++ [last]) ∧
      (∀ seg ∈ dirs ++ [last], IsOrdinary seg) ∧ IsOrdinary (withoutSuffix last declarationSuffix) := by
  refine exists_segments_of_stem ?_ (fun _ _ => mem_of_mem_withoutSuffix) h.ordinary h.stem
  intro dirs last
  have hslash : '/' ∉ declarationSuffix.toList := by decide
  simpa only [ofRoot_zero] using withoutSuffix_ofRoot 0 dirs last hslash

/-! ## Identifiers -/

variable {root : Nat} {base out names : List String}

/-- An input is declared where it lies. -/
theorem IsInput.fileName_eq {path : String} {declaration : SourceFile} (h : IsInput path)
    (hgiven : IsGiven place files request directory listing path declaration) :
    declaration.fileName = beneath request.settings.base path := by
  obtain ⟨collected, hcollected, hdeclaration, -⟩ := hgiven
  have hsuffix : finishesWith (beneath request.settings.base path) declarationSuffix = true := by
    rw [finishesWith_iff, beneath, String.toList_append]
    exact (finishesWith_iff.1 h.suffix).trans (List.suffix_append _ _)
  rw [(declarationPath_of_collect hcollected hdeclaration).2, declarationPath_of_input hsuffix]

/-- An input is named by the segments of the package and those of the input, without its suffix. -/
theorem Ground.ofFile_input (ground : Ground request package root base names) {dirs : List String}
    {last : String} {declaration : SourceFile} (hinput : IsInput (ofSegments (dirs ++ [last])))
    (h : IsGiven place files request directory listing (ofSegments (dirs ++ [last])) declaration) :
    ofFile request.settings.base package declaration.fileName =
      .ok (ofSegments (names ++ dirs ++ [withoutSuffix last declarationSuffix])) := by
  have hbaseClean := ground.base_slashes
  have hbaseNames := forall_isName ground.base_ordinary
  rw [hinput.fileName_eq h]
  rw [ground.base_eq] at hbaseClean ⊢
  rw [beneath_ofRoot ground.root_of_nil hbaseNames (by simp),
    ofFile_ofRoot package ground.root_of_nil hbaseNames hbaseClean hinput.slashes, ground.package_eq,
    ← ofSegments_append ground.names_ne (by simp), List.append_assoc]

/-- Where the base directory is the root, and declarations are said to lie beneath two slashes, both
slashes are in the identifier of the declaration of a source file. -/
theorem Ground.ofFile_declaration (ground : Ground request package 1 [] names)
    {dirs : List String} {last : String} {declaration : SourceFile}
    (hdirectory : request.declarationDirectory = ofRoot 2 out)
    (hout : ∀ seg ∈ out, IsOrdinary seg) (hclean : ∀ seg ∈ out, '\\' ∉ seg.toList)
    (hsource : IsSource (ofSegments (dirs ++ [last])))
    (hbelow : ∀ seg ∈ dirs ++ [last], IsOrdinary seg)
    (hstem : IsOrdinary (withoutSourceSuffix last))
    (h : IsEmitted place files request directory listing (ofSegments (dirs ++ [last])) declaration) :
    ofFile request.settings.base package declaration.fileName =
      .ok (ofSegments (names ++ ([""] ++ (out ++ dirs)) ++ [withoutSourceSuffix last])) := by
  have hfile : declaration.fileName = beneath request.settings.base
      ("/" ++ ofSegments (out ++ dirs ++ [withoutSourceSuffix last ++ declarationSuffix])) := by
    rw [ground.fileName_declaration hsource hbelow h, hdirectory,
      join_ofRoot_ofSegments (forall_isName hout) (isName_declaration hbelow hstem) (by simp),
      ground.base_eq, ← List.append_assoc]
    rfl
  have hrest : '\\' ∉ ("/" ++ ofSegments
      (out ++ dirs ++ [withoutSourceSuffix last ++ declarationSuffix])).toList := by
    rw [String.toList_append, List.mem_append]
    rintro (hslash | hmem)
    · exact absurd hslash (by decide)
    · exact below_slashes hclean hsource hbelow hmem
  have htwo (segs : List String) : "/" ++ ("/" ++ ofSegments segs) = ofRoot 2 segs := rfl
  rw [hfile, ofFile_beneath _ package _ ground.base_slashes hrest, htwo,
    withoutSuffix_ofRoot 2 _ _ (by decide), withoutSuffix_append, ground.package_eq, ← htwo,
    List.append_assoc names, List.append_assoc [""], ofSegments_append ground.names_ne (by simp),
    List.singleton_append, ofSegments_cons "" (by simp), String.empty_append, String.append_assoc]

/-- Settings that are fit for links, with a directory of declarations that has a root of its own: the
base directory is the root, and declarations are said to lie beneath two slashes. -/
theorem IsLinkable.exists_ground (h : IsLinkable request package)
    (hroot : leadingSlashes request.declarationDirectory ≠ leadingSlashes request.settings.base) :
    ∃ out names, Ground request package 1 [] names ∧ (∀ seg ∈ out, IsOrdinary seg) ∧
      (∀ seg ∈ out, '\\' ∉ seg.toList) ∧ request.declarationDirectory = ofRoot 2 out := by
  obtain ⟨root, base, hcases, hbase, hbaseEq⟩ := exists_ofRoot_of_normalize_eq h.absolute h.canonical
  obtain ⟨slashes, out, hcases', hout, hclean, hdirectory⟩ := exists_ofRoot_declarationDirectory h
  have hdiffer : slashes ≠ root := by
    rintro rfl
    apply hroot
    rw [hdirectory, hbaseEq, leadingSlashes_ofRoot (by omega) (forall_isName hout),
      leadingSlashes_ofRoot (by omega) (forall_isName hbase)]
  obtain rfl : base = [] := by
    by_contra hne
    have hunder := h.isUnder_declarationDirectory
    rw [hdirectory, hbaseEq] at hunder
    exact hdiffer (exists_append_of_isUnder hne (by omega) (by omega) (forall_isName hout)
      (forall_isName hbase) hunder).1
  obtain rfl : root = 1 := by
    rcases hcases with rfl | rfl
    · rfl
    · exact absurd hbaseEq h.base_ne
  obtain rfl : slashes = 2 := by omega
  exact ⟨out, segments package, {
    root_cases := hcases
    root_of_nil := fun _ => rfl
    base_ordinary := hbase
    names_ordinary := h.package_ordinary
    names_ne := segments_ne_nil package
    base_eq := hbaseEq
    base_slashes := h.base_slashes
    package_eq := (ofSegments_segments package).symm }, hout, hclean, hdirectory⟩

/-! ## Links -/

/-- Canonical paths with the same root are the same just if their segments are. -/
theorem ofRoot_inj {slashes : Nat} {segs others : List String} (h : ∀ seg ∈ segs, IsOrdinary seg)
    (h' : ∀ seg ∈ others, IsOrdinary seg) :
    ofRoot slashes segs = ofRoot slashes others ↔ segs = others := by
  constructor
  · intro heq
    rw [← filter_segments_ofRoot slashes (forall_isName h), heq,
      filter_segments_ofRoot slashes (forall_isName h')]
  · rintro rfl
    rfl

/-- Segments put in between change a path, unless there are none. -/
theorem ofSegments_between_eq_iff {names out below : List String}
    (hnames : ∀ seg ∈ names, IsOrdinary seg) (hout : ∀ seg ∈ out, IsOrdinary seg)
    (hbelow : ∀ seg ∈ below, IsOrdinary seg) :
    ofSegments (names ++ out ++ below) = ofSegments (names ++ below) ↔ out = [] := by
  have hlong : ∀ seg ∈ names ++ out ++ below, IsOrdinary seg :=
    List.forall_mem_append.2 ⟨List.forall_mem_append.2 ⟨hnames, hout⟩, hbelow⟩
  have hshort : ∀ seg ∈ names ++ below, IsOrdinary seg := List.forall_mem_append.2 ⟨hnames, hbelow⟩
  rw [← ofRoot_zero, ← ofRoot_zero, ofRoot_inj hlong hshort, List.append_assoc,
    List.append_cancel_left_eq]
  exact List.append_left_eq_self

/-- A specifier from a source file to an input, resolved below any directory beneath the package, is
the way to the input from there. -/
theorem Ground.resolve_specifierTo (ground : Ground request package root base names) (cwd : String)
    {gap dirs dirs' : List String} {last last' name : String} (hgap : ∀ seg ∈ gap, seg = "")
    (hout : ∀ seg ∈ out, IsOrdinary seg) (hhere : ∀ seg ∈ dirs ++ [last], IsOrdinary seg)
    (hthere : ∀ seg ∈ dirs' ++ [last'], IsOrdinary seg) (hname : '/' ∉ name.toList)
    (hstem : IsOrdinary (withoutSuffix last' declarationSuffix)) :
    resolve (ofSegments (names ++ (gap ++ (out ++ dirs)) ++ [name]))
      (specifierTo cwd (beneath request.settings.base (ofSegments (dirs ++ [last])))
        (beneath request.settings.base (ofSegments (dirs' ++ [last'])))) =
      ofSegments (names ++ out ++ dirs' ++ [withoutSuffix last' declarationSuffix]) := by
  have hplaces : ∀ seg ∈ out ++ dirs, IsOrdinary seg :=
    List.forall_mem_append.2 ⟨hout, (List.forall_mem_append.1 hhere).1⟩
  have hbelow : ∀ seg ∈ dirs' ++ [withoutSuffix last' declarationSuffix], IsOrdinary seg :=
    List.forall_mem_append.2
      ⟨(List.forall_mem_append.1 hthere).1, List.forall_mem_singleton.2 hstem⟩
  have htarget : ∀ seg ∈ names ++ out ++ dirs' ++ [withoutSuffix last' declarationSuffix],
      IsOrdinary seg := by
    rw [List.append_assoc]
    exact List.forall_mem_append.2
      ⟨List.forall_mem_append.2 ⟨ground.names_ordinary, hout⟩, hbelow⟩
  have hway := ground.foldl_relative cwd hhere hbelow (names ++ out).reverse
  rw [← List.append_assoc base dirs', ← withoutSuffix_ofRoot root _ _ (by decide),
    List.append_assoc base dirs',
    ← beneath_ofRoot ground.root_of_nil (forall_isName ground.base_ordinary) (by simp),
    ← ground.base_eq, ← List.reverse_append, ← List.reverse_append, ← List.append_assoc,
    List.append_assoc names out] at hway
  refine ground.resolve_eq hgap hplaces hname (marked_spec _).1 ?_ htarget (by simp)
  rw [← hway]
  exact (marked_spec _).2 _

/-- Whether links from sources to inputs hold: declarations are said to lie in the base directory
itself, or the base directory is the root and they are said to lie beneath two slashes alone. -/
theorem Layout.directory_cases_iff (layout : Layout request package root base out names) :
    request.declarationDirectory = request.settings.base ∨
        request.settings.base = "/" ∧ request.declarationDirectory = "//" ↔ out = [] := by
  have hother : ¬ (request.settings.base = "/" ∧ request.declarationDirectory = "//") := by
    rintro ⟨hbase, hdirectory⟩
    have hplaces : ∀ seg ∈ base ++ out, IsName seg :=
      forall_isName (List.forall_mem_append.2 ⟨layout.base_ordinary, layout.out_ordinary⟩)
    have hroot := layout.root_cases
    have hone : leadingSlashes "/" = root := by
      rw [← hbase, layout.base_eq,
        leadingSlashes_ofRoot (by omega) (forall_isName layout.base_ordinary)]
    have htwo : leadingSlashes "//" = root := by
      rw [← hdirectory, layout.directory_eq, leadingSlashes_ofRoot (by omega) hplaces]
    exact absurd (hone.trans htwo.symm) (by decide)
  rw [or_iff_left hother, layout.directory_eq, layout.base_eq,
    ofRoot_inj (List.forall_mem_append.2 ⟨layout.base_ordinary, layout.out_ordinary⟩)
      layout.base_ordinary]
  exact List.append_right_eq_self

/-- The same where the directory of declarations has a root of its own. -/
theorem Ground.directory_cases_iff (ground : Ground request package 1 [] names)
    (hdirectory : request.declarationDirectory = ofRoot 2 out) (hout : ∀ seg ∈ out, IsOrdinary seg) :
    request.declarationDirectory = request.settings.base ∨
        request.settings.base = "/" ∧ request.declarationDirectory = "//" ↔ out = [] := by
  have hother : request.declarationDirectory ≠ request.settings.base := by
    rw [hdirectory, ground.base_eq]
    intro heq
    have hslashes := congrArg leadingSlashes heq
    rw [leadingSlashes_ofRoot (by omega) (forall_isName hout),
      leadingSlashes_ofRoot (by omega) (by simp)] at hslashes
    exact absurd hslashes (by decide)
  have htwo : "//" = ofRoot 2 [] := rfl
  rw [or_iff_right hother, hdirectory, htwo, ofRoot_inj hout (by simp)]
  exact and_iff_right ground.base_eq

/-- The specifier by which a source file names an input, resolved in the module of the source file, is
the identifier of the input just if declarations are said to lie in the base directory itself, or
beneath two slashes alone where the base directory is the root. -/
theorem resolve_specifierTo_iff (h : IsLinkable request package) {here there : String}
    {declaration declaration' : SourceFile} (hhere : IsSource here) (hthere : IsInput there)
    (hdeclaration : IsEmitted place files request directory listing here declaration)
    (hdeclaration' : IsGiven place files request directory listing there declaration')
    (cwd : String) :
    ∃ containing target,
      ofFile request.settings.base package declaration.fileName = .ok containing ∧
      ofFile request.settings.base package declaration'.fileName = .ok target ∧
      (resolve containing (specifierTo cwd (beneath request.settings.base here)
          (beneath request.settings.base there)) = target ↔
        request.declarationDirectory = request.settings.base ∨
          request.settings.base = "/" ∧ request.declarationDirectory = "//") := by
  obtain ⟨dirs, last, rfl, hbelow, hstem⟩ := hhere.exists_segments
  obtain ⟨dirs', last', rfl, hbelow', hstem'⟩ := hthere.exists_segments
  have htarget : ∀ seg ∈ dirs' ++ [withoutSuffix last' declarationSuffix], IsOrdinary seg :=
    List.forall_mem_append.2
      ⟨(List.forall_mem_append.1 hbelow').1, List.forall_mem_singleton.2 hstem'⟩
  by_cases hroot : leadingSlashes request.declarationDirectory = leadingSlashes request.settings.base
  · obtain ⟨root, base, out, names, layout⟩ := h.exists_layout hroot
    refine ⟨_, _, layout.ofFile_declaration hhere hbelow hstem hdeclaration,
      layout.ground.ofFile_input hthere hdeclaration', ?_⟩
    have hgap : ∀ seg ∈ ([] : List String), seg = "" := by simp
    have hresolve := layout.ground.resolve_specifierTo cwd hgap layout.out_ordinary hbelow hbelow'
      hstem.no_slash hstem'
    rw [List.nil_append, ← List.append_assoc] at hresolve
    rw [hresolve, layout.directory_cases_iff, List.append_assoc (names ++ out),
      List.append_assoc names dirs']
    exact ofSegments_between_eq_iff layout.names_ordinary layout.out_ordinary htarget
  · obtain ⟨out, names, ground, hout, hclean, hdirectory⟩ := h.exists_ground hroot
    refine ⟨_, _, ground.ofFile_declaration hdirectory hout hclean hhere hbelow hstem hdeclaration,
      ground.ofFile_input hthere hdeclaration', ?_⟩
    have hgap : ∀ seg ∈ [""], seg = "" := by simp
    have hresolve := ground.resolve_specifierTo cwd hgap hout hbelow hbelow' hstem.no_slash hstem'
    rw [hresolve, ground.directory_cases_iff hdirectory hout, List.append_assoc (names ++ out),
      List.append_assoc names dirs']
    exact ofSegments_between_eq_iff ground.names_ordinary hout htarget

/-- A place, and a tree where a declaration has been written for a source and an input lies at two
places. -/
def writtenAndGiven : Files.Place × Files.FileTree :=
  ({ workingDirectory := "/", home := "/" },
    ⟨[(["p"], .directory), (["p", "b.d.ts"], .file []), (["b.d.ts"], .file []),
      (["x"], .directory), (["x", "a.d.ts"], .file [])]⟩)

theorem isInput_b : IsInput "b.d.ts" :=
  ⟨by decide, by decide, by decide, by decide⟩

/-- A link from a directory below the base directory to an input in the base directory, where
declarations lie too. -/
theorem resolve_specifierTo_here :
    ∃ containing target,
      ofFile "/p" "lib" "/p/x/a.d.ts" = .ok containing ∧
      ofFile "/p" "lib" "/p/b.d.ts" = .ok target ∧
      resolve containing
        (specifierTo "/" (beneath "/p" "x/a.ts") (beneath "/p" "b.d.ts")) = target := by
  have hlinkable : IsLinkable (twoSources "/p" ".") "lib" :=
    isLinkable_twoSources (by decide) (by decide) (by decide) (by decide) (by decide) (by decide)
  have hhere : IsEmitted writtenAndGiven.1 writtenAndGiven.2 (twoSources "/p" ".") "/" {} "x/a.ts"
      ⟨"/p/x/a.d.ts", "", false⟩ := ⟨_, rfl, rfl⟩
  have hthere : IsGiven writtenAndGiven.1 writtenAndGiven.2 (twoSources "/p" ".") "/" {} "b.d.ts"
      ⟨"/p/b.d.ts", "", true⟩ := ⟨_, rfl, rfl, rfl⟩
  obtain ⟨containing, target, hcontaining, htarget, hiff⟩ :=
    resolve_specifierTo_iff hlinkable isSource_twoSources.1 isInput_b hhere hthere "/"
  exact ⟨containing, target, hcontaining, htarget, hiff.2 (.inl (by decide))⟩

/-- Where declarations are said to lie in another directory, a link to an input misses it.  Beneath
two slashes alone a link misses it even where declarations lie. -/
theorem resolve_specifierTo_ne :
    (IsLinkable (twoSources "/p" "gen") "lib" ∧ IsSource "x/a.ts" ∧ IsInput "b.d.ts" ∧
      IsEmitted writtenAndGiven.1 writtenAndGiven.2 (twoSources "/p" "gen") "/" {} "x/a.ts"
        ⟨"/p/gen/x/a.d.ts", "", false⟩ ∧
      IsGiven writtenAndGiven.1 writtenAndGiven.2 (twoSources "/p" "gen") "/" {} "b.d.ts"
        ⟨"/p/b.d.ts", "", true⟩ ∧
      ofFile "/p" "lib" "/p/gen/x/a.d.ts" = .ok "lib/gen/x/a" ∧
      ofFile "/p" "lib" "/p/b.d.ts" = .ok "lib/b" ∧
      resolve "lib/gen/x/a"
        (specifierTo "/" (beneath "/p" "x/a.ts") (beneath "/p" "b.d.ts")) = "lib/gen/b") ∧
    (collect writtenAndGiven.1 writtenAndGiven.2 (twoSources "//" "") "/" {} "//x/a.ts" =
        .ok ⟨"//x/a.ts", some ⟨"//x/a.d.ts", "", false⟩, [], false⟩ ∧
      collect writtenAndGiven.1 writtenAndGiven.2 (twoSources "//" "") "/" {} "//b.d.ts" =
        .ok ⟨"//b.d.ts", some ⟨"//b.d.ts", "", true⟩, [], false⟩ ∧
      ofFile "//" "lib" "//x/a.d.ts" = .ok "lib//x/a" ∧
      ofFile "//" "lib" "//b.d.ts" = .ok "lib//b" ∧
      resolve "lib//x/a" (specifierTo "/" "//x/a.ts" "//b.d.ts") = "lib/b") := by
  refine ⟨⟨?_, isSource_twoSources.1, isInput_b, ⟨_, rfl, rfl⟩, ⟨_, rfl, rfl, rfl⟩,
    rfl, rfl, by decide +kernel⟩, by decide +kernel, by decide +kernel, rfl, rfl, by decide +kernel⟩
  exact isLinkable_twoSources (by decide) (by decide) (by decide) (by decide) (by decide) (by decide)

end DeclBundle.CommandCompiler
