import DeclBundle.Proofs.Bundle.Content
import DeclBundle.Proofs.Bundle.Planned
set_option autoImplicit false

/-!
# How a run ends

A run reads its options and the project, makes a plan, opens the document and asks the compiler.
From there on its result and its document are those of writing the compilation, with the document
closed behind it (`Prepared.generate_eq`).  With a document that takes everything this is the content
of the bundle and nothing else.
-/

namespace DeclBundle.Bundle

open DeclBundle.Configuration (Options)

/-! ## From the options to a compilation -/

/-- Whether a run comes as far as a compilation: the options pass with the project, there is a plan
for them, a document is open, and the compiler answers. -/
inductive Prepared (grammar : Declaration.Grammar) (compiler : Compiler) (r : Run) :
    Options → Plan → Document → Compilation → Prop where
  | intro {o : Options} {p : Plan} {d : Document} {c : Compilation} {read made asked : System}
      {opened : Run} (hproject : withProject r.options r.system = .ok o read)
      (hplan : plan grammar o read = .ok p made)
      (hopen : Step.openDocument { r with options := o, system := made } = .ok () opened)
      (hdocument : opened.document = some d)
      (hcompiler : compiler p.request opened.system = .ok c asked) :
      Prepared grammar compiler r o p d c

variable {grammar : Declaration.Grammar} {compiler : Compiler} {r : Run} {o : Options} {p : Plan}
variable {d : Document} {c : Compilation}

theorem Step.get_eq (r : Run) : (get : Step Run) r = .ok r r := rfl

theorem Step.modify_eq (f : Run → Run) (r : Run) : (modify f : Step Unit) r = .ok () (f r) := rfl

/-- A run that comes as far as a compilation writes it and closes the document. -/
theorem Prepared.generate_eq (h : Prepared grammar compiler r o p d c) :
    ∃ r' : Run, r'.document = some d ∧
      generate grammar compiler r = Step.closing (writeCompilation o p.assembly c) r' := by
  obtain ⟨hproject, hplan, hopen, hdocument, hcompiler⟩ := h
  rename_i read made asked opened
  refine ⟨{ opened with
    requests := opened.requests ++ [p.request]
    system := asked }, hdocument, ?_⟩
  have hask : Step.ask compiler p.request opened = .ok c { opened with
      requests := opened.requests ++ [p.request]
      system := asked } := by
    simp only [Step.ask, Step.ofAction, bind, EStateM.bind, Step.modify_eq, hcompiler]
  simp only [generate, Step.ofAction, bind, EStateM.bind, Step.get_eq, Step.modify_eq, hproject,
    hplan, hopen]
  simp only [Step.closing, EStateM.bind, hask]

/-! ## Closing -/

/-- Closing behind a step closes the document that the step leaves.  Only a fault of closing takes
the place of what the step gives. -/
theorem observe_closing {step : Step Unit} {r : Run} {result : Except Fault Unit} {d : Document}
    (h : observe step r = (result, some d)) :
    observe (Step.closing step) r =
      match d.close with
      | (.ok _, d) => (result, some d)
      | (.error e, d) => (.error e, some d) := by
  unfold observe at h ⊢
  unfold Step.closing Step.closeDocument
  cases hstep : step r with
  | ok x r' =>
    rw [hstep] at h
    obtain ⟨rfl, hd⟩ := Prod.mk.inj h
    simp only [hd, Option.getD_some]
    rcases d.close with ⟨_ | _, closed⟩ <;> rfl
  | error e r' =>
    rw [hstep] at h
    obtain ⟨rfl, hd⟩ := Prod.mk.inj h
    simp only [hd, Option.getD_some]
    rcases d.close with ⟨_ | _, closed⟩ <;> rfl

/-- A run on a document that takes everything offers it the script of the compilation. -/
theorem Prepared.observe_generate (h : Prepared grammar compiler r o p d c) (hd : d.IsReady) :
    ∃ next, observe (generate grammar compiler) r =
        ((compilationScript o p.assembly c).ending, some next) ∧
      next.contents = d.contents ++ String.join (compilationScript o p.assembly c).texts := by
  obtain ⟨r', hr', hgenerate⟩ := h.generate_eq
  have hwrite := performs_writeCompilation o p.assembly c r' d hr'
  obtain ⟨written, hplay, hwritten, hcontents⟩ :=
    (compilationScript o p.assembly c).exists_playOn_eq hd
  rw [hplay] at hwrite
  obtain ⟨closed, hclose, hclosed⟩ := hwritten.close
  refine ⟨closed, ?_, by rw [hclosed, hcontents]⟩
  have hclosing := observe_closing hwrite
  rw [hclose] at hclosing
  unfold observe at hclosing ⊢
  rw [hgenerate]
  exact hclosing

/-- Whether blocks are made as options say on the files of a system: in the project, or else in the
base directory that is given, or else in the working directory; and without the files that the
patterns find there, which are the declarations of installed packages if none are given. -/
structure MadeFor (grammar : Declaration.Grammar) (o : Options) (s : System) (a : Assembly) : Prop
  where
  grammar_eq : a.grammar = grammar
  base_eq : a.base = Path.absolute s.place.workingDirectory
    (((o.project.or o.baseDir).map Location.path).getD s.place.workingDirectory)
  package_eq : a.package = o.name
  eol_eq : a.format.eol = o.eol.getD "\n"
  indent_eq : a.format.indent = o.indent
  mem_excludes_iff : ∀ path, path ∈ a.excludes ↔
    ∃ pattern ∈ o.exclude.getD ["node_modules/**/*.d.ts"],
      ∃ found ∈ Files.Globe.expand ⟨s.files, s.place, a.base⟩ pattern,
        path = Path.withSlashes (Path.normalize (Path.join a.base found))

theorem mem_expandExcludes_iff {files : Files.FileTree} {place : Files.Place} {base path : String}
    {patterns : List String} :
    path ∈ expandExcludes files place base patterns ↔
      ∃ pattern ∈ patterns, ∃ found ∈ Files.Globe.expand ⟨files, place, base⟩ pattern,
        path = Path.withSlashes (Path.normalize (Path.join base found)) := by
  simp only [expandExcludes, List.mem_flatMap, List.mem_map, eq_comm]

/-- The blocks of a plan are made as its options say. -/
theorem madeFor_of_plan {s made : System} (h : plan grammar o s = .ok p made) :
    MadeFor grammar o s p.assembly := by
  obtain ⟨outDir, -, rfl⟩ := answer_plan_eq_ok_iff.1 (show answer (plan grammar o) s = .ok p by
    rw [answer, h])
  refine ⟨rfl, ?_, rfl, rfl, rfl, fun path => mem_expandExcludes_iff⟩
  change baseDirectory s.place.workingDirectory o = _
  unfold baseDirectory
  cases o.project.or o.baseDir <;> rfl

/-- A run with a compilation and a document that takes everything makes its blocks as the options
with the project say, writes the content of the bundle behind what the document has, ends as that
content says, and ends well just if no complaint and no file stops it. -/
theorem generate_content (h : Prepared grammar compiler r o p d c) (hd : d.IsReady) :
    (∃ read, withProject r.options r.system = .ok o read ∧ MadeFor grammar o read p.assembly) ∧
    ∃ result text next,
      observe (generate grammar compiler) r = (result, some next) ∧
      next.contents = d.contents ++ text ∧
      (∀ result' text', Content o p.assembly c result' text' ↔ result' = result ∧ text' = text) ∧
      (result = .ok () ↔ c.diagnostics = [] ∧
        ∀ file ∈ belonging p.assembly c, ∀ fault, ¬ Stops p.assembly file fault) := by
  have hmade : ∃ read, withProject r.options r.system = .ok o read ∧
      MadeFor grammar o read p.assembly := by
    obtain ⟨hproject, hplan, -, -, -⟩ := h
    exact ⟨_, hproject, madeFor_of_plan hplan⟩
  obtain ⟨next, hobserve, hcontents⟩ := h.observe_generate hd
  have hcontent : Content o p.assembly c (compilationScript o p.assembly c).ending
      (String.join (compilationScript o p.assembly c).texts) := content_iff.2 ⟨rfl, rfl⟩
  refine ⟨hmade, _, _, next, hobserve, hcontents, ?_, content_ok_iff hcontent⟩
  intro result' text'
  exact content_iff

/-- A grammar that finds an export statement in a text that begins with one, and nothing in any other
text. -/
def plainGrammar : Declaration.Grammar := fun cs =>
  let span : Span := ⟨0, (Utf8.encode cs).length⟩
  .node { type := "program" } span
    (if "export".toList.isPrefixOf cs then [.node { type := "export_statement" } span []] else [])

/-- A run beneath a base directory, with nothing left out and a document of its own. -/
def plainRun : Run where
  options := {
    name := "lib"
    out := ⟨0, ["lib.d.ts"]⟩
    baseDir := some ⟨1, ["p"]⟩
    files := ["/p/a.ts"]
    exclude := some []
    externs := ["e.d.ts"]
    main := some "lib/a" }
  system := { place := { workingDirectory := "/", home := "/" }, files := ⟨[]⟩ }
  document := some {}

/-- How the blocks of the run are made. -/
def plainAssembly : Assembly := { grammar := plainGrammar, base := "/p", package := "lib" }

/-- The run writes whatever the compiler answers. -/
theorem prepared_plainRun (c : Compilation) :
    Prepared plainGrammar (fun _ => pure c) plainRun plainRun.options
      ⟨⟨["/p/a.ts"], { base := "/p" }⟩, plainAssembly⟩ {} c :=
  .intro rfl rfl rfl rfl rfl

theorem isReady_empty : Document.IsReady {} :=
  ⟨rfl, by simp, rfl, by simp⟩

/-- A file with a declaration that has been written for it. -/
def emittedFile (stem text : String) : CompiledFile where
  fileName := "/p/" ++ stem ++ ".ts"
  declaration := some ⟨"/p/" ++ stem ++ ".d.ts", text, false⟩

/-- A file outside the base directory, one with a block, one that the compiler has skipped, and one
more. -/
def skippedInside : Compilation where
  files := [{ fileName := "/lib.d.ts" }, emittedFile "a" "export \x7b\x7d",
    { fileName := "/p/b.ts", emitSkipped := true }, emittedFile "c" "export \x7b\x7d"]

/-- A run stops at a file that the compiler has skipped, with the reference and the block before it
written. -/
theorem generate_content_skipped :
    ∃ next, observe (generate plainGrammar fun _ => pure skippedInside) plainRun =
        (.error (.emission []), some next) ∧
      next.contents = "/// <reference path=\"e.d.ts\" />\n" ++
        "declare module 'lib/a' \x7b\n\texport \x7b\x7d\n\x7d\n" := by
  have hfiles : belonging plainAssembly skippedInside = [emittedFile "a" "export \x7b\x7d"] ++
      { fileName := "/p/b.ts", emitSkipped := true } :: [emittedFile "c" "export \x7b\x7d"] := by
    decide +kernel
  have hblock : Contributes plainAssembly (emittedFile "a" "export \x7b\x7d")
      "declare module 'lib/a' \x7b\n\texport \x7b\x7d\n\x7d\n" := by
    refine .intro ?_ rfl (by decide +kernel)
    rintro ⟨-, h⟩
    simp [emittedFile] at h
  have hstops : Stops plainAssembly { fileName := "/p/b.ts", emitSkipped := true } (.emission []) :=
    .failed ⟨by simp, .inl rfl⟩
  obtain ⟨-, result, text, next, hobserve, hcontents, hunique, -⟩ :=
    generate_content (prepared_plainRun skippedInside) isReady_empty
  obtain ⟨hresult, htext⟩ := (hunique _ _).1 (.stopped rfl hfiles (.cons hblock .nil) hstops)
  refine ⟨next, by rw [hobserve, hresult], ?_⟩
  rw [hcontents, ← htext]
  rfl

end DeclBundle.Bundle
