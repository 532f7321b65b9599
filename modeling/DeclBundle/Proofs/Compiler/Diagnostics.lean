import DeclBundle.Proofs.Bundle.Answer
import DeclBundle.Proofs.Compiler.Compiled
import DeclBundle.Proofs.Path.Idempotent
set_option autoImplicit false

/-!
# Diagnostics of a listing

Every diagnostic of a listing belongs to a file, whose path is canonical, or to none.  A compilation
gives each of its files the diagnostics that belong to it, in the order of the listing, and keeps
those that belong to no file apart.  Nothing asks for the diagnostics of a file that is not listed:
such a diagnostic is lost, and it is the only kind that is (`keeps_iff`).
-/

namespace DeclBundle.Listing

/-! ## Paths in a listing -/

/-- Whether the paths of a listing are canonical. -/
structure IsCanonical (l : Listing) : Prop where
  files : ∀ file ∈ l.files, Path.normalize file = file
  diagnostics : ∀ d ∈ l.diagnostics, d.fileName ≠ "" → Path.normalize d.fileName = d.fileName

variable {base : String} {l : Listing}

/-- A line that shows a diagnostic of a file names it by its canonical path. -/
theorem normalize_of_diagnostic? {line : List Char} {d : Diagnostic}
    (h : diagnostic? base line = some d) (hfile : d.fileName ≠ "") :
    Path.normalize d.fileName = d.fileName := by
  unfold diagnostic? at h
  split at h
  · obtain rfl := Option.some.inj h
    simp only [Path.normalize_normalize]
  · obtain ⟨problem, -, rfl⟩ := Option.map_eq_some_iff.1 h
    exact absurd rfl hfile

/-- A line behind the message of the last diagnostic changes the file of none. -/
theorem map_fileName_of_continueLast? {line : String} {ds ds' : List Diagnostic}
    (h : continueLast? line ds = some ds') :
    ds'.map (·.fileName) = ds.map (·.fileName) := by
  fun_induction continueLast? line ds generalizing ds' with
  | case1 => cases h
  | case2 d =>
    obtain rfl := Option.some.inj h
    rfl
  | case3 d ds _ ih =>
    obtain ⟨rest, hrest, rfl⟩ := Option.map_eq_some_iff.1 h
    simp [ih hrest]

/-- One more line keeps the paths of a listing canonical. -/
theorem IsCanonical.addLine (h : l.IsCanonical) (line : List Char) :
    (l.addLine base line).IsCanonical := by
  unfold Listing.addLine
  dsimp only
  split
  · exact h
  · split
    · rename_i d hd
      refine ⟨h.files, ?_⟩
      intro e he hfile
      rcases List.mem_append.1 he with he | he
      · exact h.diagnostics e he hfile
      · obtain rfl := List.mem_singleton.1 he
        exact normalize_of_diagnostic? hd hfile
    · split
      · rename_i ds hds
        refine ⟨h.files, ?_⟩
        split at hds
        · -- the line only adds to a message, so the diagnostics name the same files as before
          intro e he hfile
          have hname : e.fileName ∈ l.diagnostics.map (·.fileName) := by
            rw [← map_fileName_of_continueLast? hds]
            exact List.mem_map_of_mem he
          obtain ⟨d, hd, hsame⟩ := List.mem_map.1 hname
          rw [← hsame] at hfile ⊢
          exact h.diagnostics d hd hfile
        · cases hds
      · refine ⟨?_, h.diagnostics⟩
        intro file hfile
        rcases List.mem_append.1 hfile with hfile | hfile
        · exact h.files file hfile
        · rw [List.mem_singleton.1 hfile, Path.normalize_normalize]

/-- The paths of a listing that has been read are canonical. -/
theorem isCanonical_parse (base output : String) : (parse base output).IsCanonical := by
  suffices hlines : ∀ (lines : List (List Char)) (l : Listing), l.IsCanonical →
      (lines.foldl (addLine base) l).IsCanonical from
    hlines _ {} ⟨by simp, by simp⟩
  intro lines
  induction lines with
  | nil => exact fun l hl => hl
  | cons line lines ih =>
    intro l hl
    rw [List.foldl_cons]
    exact ih (addLine base l line) (hl.addLine line)

/-- The diagnostics that belong to a listed file are those that name it. -/
theorem IsCanonical.diagnosticsOf_eq (h : l.IsCanonical) {file : String} (hfile : file ∈ l.files) :
    l.diagnosticsOf file = l.diagnostics.filter (·.fileName == file) := by
  have hne : file ≠ "" := by
    intro hempty
    have hnormal := h.files file hfile
    rw [hempty] at hnormal
    exact absurd hnormal (by decide)
  apply List.filter_congr
  intro d hd
  by_cases hglobal : d.fileName = ""
  · simp [hglobal, Ne.symm hne]
  · simp [hglobal, h.diagnostics d hd hglobal]

end DeclBundle.Listing

namespace DeclBundle.CommandCompiler

/-! ## What the compiler prints -/

/-- What the compiler prints for a request. -/
def printed (c : CommandCompiler) (request : Request) (system : System) : Except Fault String :=
  let way := freshWay system.place system.files
  let invocation := c.invocation request (pathOf way)
  let started :=
    { system with files := system.files.put way .directory }.logged Level.debug "compiler"
      ("Running " ++ " ".intercalate invocation.arguments)
  (c.runner invocation started.files).1

variable {c : CommandCompiler} {request : Request} {system after : System} {output : String}
variable {result : Compilation}

/-- A run of the compiler that ends well gives the meaning of what the compiler prints. -/
theorem compilation_of_printed (hprinted : c.printed request system = .ok output)
    (h : c.compile request system = .ok result after) :
    ∃ files directory, compilation system.place files request directory output = .ok result := by
  unfold printed at hprinted
  unfold compile at h
  simp only [hprinted, bind, Except.bind] at h
  split at h
  · rename_i compilation hcompilation
    obtain ⟨rfl, -⟩ := EStateM.Result.ok.inj h
    exact ⟨_, _, hcompilation⟩
  · cases h

variable {files : Files.FileTree} {place : Files.Place} {directory : String}

/-- The files of a compilation have the names of the listed ones, in order. -/
theorem map_fileName_of_compilation
    (h : compilation place files request directory output = .ok result) :
    result.files.map (·.fileName) = (Listing.parse request.base output).files := by
  have hnames : List.Forall₂ (fun listed file => listed = file.fileName)
      (Listing.parse request.base output).files result.files :=
    (forall₂_of_compilation h).imp fun listed file hcollect => (collect_cases hcollect).1.symm
  rw [← List.forall₂_map_right_iff, List.forall₂_eq_eq_eq] at hnames
  exact hnames.symm

/-- A file of a compilation has the diagnostics of the listing that belong to it. -/
theorem diagnostics_of_mem (h : compilation place files request directory output = .ok result)
    {file : CompiledFile} (hfile : file ∈ result.files) :
    file.diagnostics = (Listing.parse request.base output).diagnosticsOf file.fileName := by
  have hcollected := forall₂_of_compilation h
  obtain ⟨i, hi, rfl⟩ := List.mem_iff_getElem.1 hfile
  obtain ⟨hname, hdiagnostics, -⟩ :=
    collect_cases (hcollected.get (hcollected.length_eq ▸ hi) hi)
  rw [List.get_eq_getElem, List.get_eq_getElem] at hname hdiagnostics
  rw [hdiagnostics, hname]

/-- The diagnostics of a compilation that belong to no file are those of the listing. -/
theorem diagnostics_of_compilation
    (h : compilation place files request directory output = .ok result) :
    result.diagnostics = (Listing.parse request.base output).globalDiagnostics := by
  unfold compilation at h
  simp only [bind, Except.bind] at h
  split at h
  · cases h
  · obtain rfl := Except.ok.inj h
    rfl

/-! ## What a compilation keeps -/

/-- Whether a compilation has a diagnostic where it belongs: with its file, or with the diagnostics
that belong to no file. -/
inductive Keeps (result : Compilation) (d : Diagnostic) : Prop where
  | global (hname : d.fileName = "") (hmem : d ∈ result.diagnostics)
  | ofFile {file : CompiledFile} (hname : d.fileName ≠ "") (hfile : file ∈ result.files)
      (hsame : file.fileName = d.fileName) (hmem : d ∈ file.diagnostics)

/-- A run of the compiler gives the listed files, each with the diagnostics of the listing that name
it, and apart from them the diagnostics that name no file.  So it keeps a diagnostic just if it
names no file or a listed one. -/
theorem keeps_iff (hprinted : c.printed request system = .ok output)
    (h : c.compile request system = .ok result after) :
    result.files.map (·.fileName) = (Listing.parse request.base output).files ∧
      (∀ file ∈ result.files, file.diagnostics =
        (Listing.parse request.base output).diagnostics.filter (·.fileName == file.fileName)) ∧
      result.diagnostics =
        (Listing.parse request.base output).diagnostics.filter (·.fileName == "") ∧
      ∀ d ∈ (Listing.parse request.base output).diagnostics,
        (Keeps result d ↔
          d.fileName = "" ∨ d.fileName ∈ (Listing.parse request.base output).files) := by
  obtain ⟨files, directory, hcompilation⟩ := compilation_of_printed hprinted h
  have hcanonical := Listing.isCanonical_parse request.base output
  have hglobal := diagnostics_of_compilation hcompilation
  have hnames := map_fileName_of_compilation hcompilation
  have hlisted : ∀ file ∈ result.files,
      file.fileName ∈ (Listing.parse request.base output).files := by
    intro file hfile
    rw [← hnames]
    exact List.mem_map_of_mem hfile
  have hown : ∀ file ∈ result.files, file.diagnostics =
      (Listing.parse request.base output).diagnostics.filter (·.fileName == file.fileName) := by
    intro file hfile
    rw [diagnostics_of_mem hcompilation hfile, hcanonical.diagnosticsOf_eq (hlisted file hfile)]
  refine ⟨hnames, hown, hglobal, ?_⟩
  intro d hd
  constructor
  · rintro (⟨hname, -⟩ | ⟨-, hfile, hsame, -⟩)
    · exact .inl hname
    · exact .inr (hsame ▸ hlisted _ hfile)
  · rintro hname
    by_cases hempty : d.fileName = ""
    · refine .global hempty ?_
      rw [hglobal]
      exact List.mem_filter.2 ⟨hd, by simpa using hempty⟩
    · have hmem := hname.resolve_left hempty
      rw [← hnames] at hmem
      obtain ⟨file, hfile, hsame⟩ := List.mem_map.1 hmem
      refine .ofFile hempty hfile hsame ?_
      rw [hown file hfile]
      exact List.mem_filter.2 ⟨hd, by simpa using hsame.symm⟩

/-! ## A complaint about a file that is not listed -/

/-- A complaint about a file, and a source file in the same listing. -/
def complainingListing (file : String) : String :=
  file ++ "(1,7): error TS2322: no\n/p/a.ts\n"

/-- A compiler that complains about a file, and lists a source file for which it writes nothing. -/
def complainingCompiler (file : String) : CommandCompiler where
  runner _ files := (.ok (complainingListing file), files)

/-- A request with a base directory. -/
def requestInBase : Request :=
  ⟨["/p/a.ts"], { base := "/p" }⟩

/-- A system without files. -/
def bareSystem : System where
  place := { workingDirectory := "/", home := "/" }
  files := ⟨[]⟩

/-- The complaint that the compiler prints. -/
def complaint (file : String) : Diagnostic :=
  ⟨file, 1, 7, 2322, "no", "semantic"⟩

/-- What the compiler answers, with the diagnostics of the source file at hand. -/
def skippedSource (diagnostics : List Diagnostic) : Compilation where
  files := [{ fileName := "/p/a.ts", diagnostics, emitSkipped := true }]

/-- The compiler answers so if it does on the file at hand. -/
theorem compile_complaining (file : String) (diagnostics : List Diagnostic)
    (h : (Bundle.answer ((complainingCompiler file).compile requestInBase) bareSystem).toOption =
      some (skippedSource diagnostics)) :
    ∃ after, (complainingCompiler file).compile requestInBase bareSystem =
      .ok (skippedSource diagnostics) after :=
  Bundle.exists_of_answer h

theorem printed_complaining (file : String) :
    (complainingCompiler file).printed requestInBase bareSystem = .ok (complainingListing file) :=
  rfl

/-- A complaint about the source file is kept with it. -/
theorem keeps_complaint_listed :
    (complainingCompiler "a.ts").printed requestInBase bareSystem =
        .ok (complainingListing "a.ts") ∧
      (∃ after, (complainingCompiler "a.ts").compile requestInBase bareSystem =
        .ok (skippedSource [complaint "/p/a.ts"]) after) ∧
      Keeps (skippedSource [complaint "/p/a.ts"]) (complaint "/p/a.ts") := by
  obtain ⟨after, hcompile⟩ := compile_complaining "a.ts" [complaint "/p/a.ts"] (by decide +kernel)
  refine ⟨printed_complaining _, ⟨after, hcompile⟩, ?_⟩
  have hread : complaint "/p/a.ts" ∈
      (Listing.parse requestInBase.base (complainingListing "a.ts")).diagnostics := by
    decide +kernel
  have hlisted : (complaint "/p/a.ts").fileName ∈
      (Listing.parse requestInBase.base (complainingListing "a.ts")).files := by
    decide +kernel
  obtain ⟨-, -, -, hkeeps⟩ := keeps_iff (printed_complaining "a.ts") hcompile
  exact (hkeeps (complaint "/p/a.ts") hread).2 (.inr hlisted)

/-- A complaint about a file that is not listed is read, and is not kept. -/
theorem not_keeps_complaint :
    (complainingCompiler "b.ts").printed requestInBase bareSystem =
        .ok (complainingListing "b.ts") ∧
      complaint "/p/b.ts" ∈
        (Listing.parse requestInBase.base (complainingListing "b.ts")).diagnostics ∧
      (∃ after, (complainingCompiler "b.ts").compile requestInBase bareSystem =
        .ok (skippedSource []) after) ∧
      ¬ Keeps (skippedSource []) (complaint "/p/b.ts") := by
  refine ⟨printed_complaining _, by decide +kernel,
    compile_complaining "b.ts" [] (by decide +kernel), ?_⟩
  rintro (⟨hname, -⟩ | ⟨-, hfile, -, hmem⟩)
  · exact absurd hname (by simp [complaint])
  · obtain rfl := List.mem_singleton.1 hfile
    cases hmem

end DeclBundle.CommandCompiler
