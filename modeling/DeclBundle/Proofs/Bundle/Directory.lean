import DeclBundle.Proofs.Bundle.Faults
import DeclBundle.Proofs.Bundle.Headers
set_option autoImplicit false

/-!
# The directory of a run

A run has one directory: the project if one is given, and otherwise the base directory that is given.
The file of the project is read there, the compiler is asked with it, and the modules of the bundle
are named from it.  So a base directory decides what modules are called only where no project is
given, or one that is the same directory (`generate_in_directory`).  This holds for every run that
comes to the compiler, whatever the compiler answers and whatever the document refuses: what stands
in the bundle is always some of the texts of the run.
-/

namespace DeclBundle.Bundle

open DeclBundle.Configuration (Options)

/-- The absolute path of a location in a run. -/
def Run.absolute (r : Run) (l : Location) : String :=
  Path.absolute r.system.place.workingDirectory l.path

/-! ## Runs that come to the compiler -/

theorem observe_snd (step : Step Unit) (r : Run) : (observe step r).2 = (left step r).document := by
  unfold observe left
  cases step r <;> rfl

/-- Whether a run comes to the compiler: the options pass with the project, there is a plan for them,
and a document is open. -/
inductive Reaches (grammar : Declaration.Grammar) (r : Run) : Options → Plan → Run → Prop where
  | intro {o : Options} {p : Plan} {opened : Run} {read made : System}
      (hproject : withProject r.options r.system = .ok o read)
      (hplan : plan grammar o read = .ok p made)
      (hopen : Step.openDocument { r with options := o, system := made } = .ok () opened) :
      Reaches grammar r o p opened

section

variable {grammar : Declaration.Grammar} {r opened : Run} {o : Options} {p : Plan}

/-- A run that comes to the compiler asks it and writes what it answers. -/
theorem Reaches.generate_eq (h : Reaches grammar r o p opened) (compiler : Compiler) :
    generate grammar compiler r =
      Step.closing (Step.ask compiler p.request >>= writeCompilation o p.assembly) opened := by
  obtain ⟨hproject, hplan, hopen⟩ := h
  rw [generate_eq_opening compiler hproject hplan]
  simp only [bind, EStateM.bind, hopen]

/-- A document is open then, and nothing has been asked for yet. -/
theorem Reaches.document (h : Reaches grammar r o p opened) :
    ∃ d, opened.document = some d ∧ opened.requests = r.requests := by
  obtain ⟨hproject, hplan, hopen⟩ := h
  rename_i read made
  rcases openDocument_cases { r with options := o, system := made } with ⟨d, files, heq⟩ | ⟨_, heq⟩
  · rw [hopen] at heq
    obtain ⟨-, rfl⟩ := EStateM.Result.ok.inj heq
    exact ⟨d, rfl, rfl⟩
  · rw [hopen] at heq
    cases heq

/-- The options are those that were given, or the project has been read from the directory. -/
theorem Reaches.options {base : Location} (h : Reaches grammar r o p opened)
    (hbase : r.options.baseDir = some base) :
    o = r.options ∨ ∃ found,
      Configuration.Project.load r.system.files r.system.place
        ((r.options.project.getD base).child Configuration.projectFileName) = .ok found ∧
      o = withProjectOptions r.options found := by
  obtain ⟨hproject, -, -⟩ := h
  have hanswer : projectOptions r.system r.options = .ok o := by
    rw [← answer_withProject, answer, hproject]
  have hfile : projectFile r.system r.options =
      (r.options.project.getD base).child Configuration.projectFileName := by
    rw [projectFile, hbase]
    cases r.options.project <;> rfl
  rw [← hfile]
  rcases projectOptions_cases hanswer with hsame | ⟨-, _, found, -, hload, hread⟩
  · exact .inl hsame
  · exact .inr ⟨found, hload, hread⟩

/-- The plan has the directory for the compiler and for the blocks. -/
theorem Reaches.base {base : Location} (h : Reaches grammar r o p opened)
    (hbase : r.options.baseDir = some base) :
    p.request.settings.base = r.absolute (r.options.project.getD base) ∧
      p.assembly.base = p.request.settings.base ∧ p.assembly.package = r.options.name ∧
      p.assembly.grammar = grammar := by
  have hoptions := h.options hbase
  obtain ⟨hproject, hplan, -⟩ := h
  rename_i read made
  have hplace : read.place = r.system.place := by
    have hkept := preserves_place_withProject r.options r.system
    rwa [after, hproject] at hkept
  have hanswer : answer (plan grammar o) read = .ok p := by
    rw [answer, hplan]
  obtain ⟨outDir, -, rfl⟩ := answer_plan_eq_ok_iff.1 hanswer
  have hsame : o.project = r.options.project ∧ o.baseDir = some base ∧ o.name = r.options.name := by
    rcases hoptions with rfl | ⟨found, -, rfl⟩
    · exact ⟨rfl, hbase, rfl⟩
    · exact ⟨rfl, hbase, rfl⟩
  obtain ⟨hsame_project, hsame_base, hsame_name⟩ := hsame
  refine ⟨?_, rfl, hsame_name, rfl⟩
  show baseDirectory read.place.workingDirectory o = _
  rw [baseDirectory, hplace, hsame_project, hsame_base]
  cases r.options.project <;> rfl

end

/-! ## What may stand in a bundle -/

/-- What a text of a bundle may be, with its modules named from a directory. -/
inductive Writes (grammar : Declaration.Grammar) (directory : String) (f : Format) (o : Options)
    (c : Compilation) : String → Prop where
  /-- a reference to a file outside the bundle -/
  | reference {path : String} (h : path ∈ o.externs) :
      Writes grammar directory f o c ("/// <reference path=\"" ++ path ++ "\" />" ++ f.eol)
  /-- the block of an external module, headed by its identifier below the directory -/
  | module {file : CompiledFile} {d : SourceFile} {id content : String} (hfile : file ∈ c.files)
      (hd : file.declaration = some d)
      (htree : Declaration.isExternalModule (grammar d.text.toList) = true)
      (hid : ModuleId.ofFile directory o.name d.fileName = .ok id) :
      Writes grammar directory f o c (f.moduleBlock id content)
  /-- the text of a file that is no external module -/
  | ambient {file : CompiledFile} {d : SourceFile} (hfile : file ∈ c.files)
      (hd : file.declaration = some d)
      (htree : Declaration.isExternalModule (grammar d.text.toList) = false) :
      Writes grammar directory f o c d.text
  /-- one of the texts of the alias for the main module -/
  | main {main text : String} (h : o.main = some main)
      (htext : text ∈ ["declare module '" ++ o.name ++ "' \x7b" ++ f.eol ++ f.indent,
        "import main = require('" ++ main ++ "');" ++ f.eol ++ f.indent,
        "export = main;" ++ f.eol, "\x7d" ++ f.eol]) : Writes grammar directory f o c text

/-- The project does not count for what may stand in a bundle. -/
theorem Writes.of_withProjectOptions {grammar : Declaration.Grammar} {directory text : String}
    {f : Format} {o : Options} {c : Compilation} {found : Configuration.Project}
    (h : Writes grammar directory f (withProjectOptions o found) c text) :
    Writes grammar directory f o c text := by
  cases h with
  | reference h => exact .reference h
  | module hfile hd htree hid => exact .module hfile hd htree hid
  | ambient hfile hd htree => exact .ambient hfile hd htree
  | main h htext => exact .main h htext

theorem Script.mem_andThen {s t : Script} {text : String} (h : text ∈ (s.andThen t).texts) :
    text ∈ s.texts ∨ text ∈ t.texts := by
  unfold andThen at h
  split at h
  · exact .inl h
  · exact List.mem_append.1 h

theorem Script.exists_of_mem_all {ss : List Script} {text : String} (h : text ∈ (all ss).texts) :
    ∃ s ∈ ss, text ∈ s.texts := by
  induction ss with
  | nil => cases h
  | cons s ss ih =>
    rcases mem_andThen h with hfirst | hothers
    · exact ⟨s, List.mem_cons_self, hfirst⟩
    · obtain ⟨t, ht, htext⟩ := ih hothers
      exact ⟨t, List.mem_cons_of_mem s ht, htext⟩

/-- What a file offers is its block. -/
theorem writes_of_mem_fileScript {a : Assembly} {o : Options} {c : Compilation} {file : CompiledFile}
    {text : String} (hname : a.package = o.name) (hfile : file ∈ c.files)
    (h : text ∈ (fileScript a file).texts) : Writes a.grammar a.base a.format o c text := by
  unfold fileScript at h
  split at h
  · rcases declarationOf_eq file with ⟨-, hfailed⟩ | ⟨-, d, hd, hdeclared⟩
    · rw [hfailed] at h
      cases h
    · rw [hdeclared] at h
      dsimp only at h
      cases hassemble : a.assemble d with
      | error e =>
        rw [hassemble] at h
        cases h
      | ok block =>
        rw [hassemble, blockScript] at h
        split at h
        · cases h
        · rename_i hne
          obtain rfl := List.mem_singleton.1 h
          cases Assembly.hasBlock_of_assemble hassemble with
          | excluded => exact absurd rfl hne
          | ambient _ htree => exact .ambient hfile hd htree
          | wrapped _ htree hid _ =>
            rw [Assembly.moduleId_eq_ok_iff, hname] at hid
            exact .module hfile hd htree hid
  · cases h

/-- Whatever a compilation offers to a document may stand in the bundle. -/
theorem writes_of_mem_compilationScript {a : Assembly} {o : Options} {c : Compilation}
    {text : String} (hname : a.package = o.name) (h : text ∈ (compilationScript o a c).texts) :
    Writes a.grammar a.base a.format o c text := by
  unfold compilationScript at h
  split at h
  · rcases Script.mem_andThen h with hreference | h
    · rw [externScript_eq] at hreference
      obtain ⟨path, hpath, rfl⟩ := List.mem_map.1 hreference
      exact .reference hpath
    rcases Script.mem_andThen h with hblock | halias
    · obtain ⟨s, hs, htext⟩ := Script.exists_of_mem_all hblock
      obtain ⟨file, hfile, rfl⟩ := List.mem_map.1 hs
      exact writes_of_mem_fileScript hname hfile htext
    · unfold mainScript at halias
      split at halias
      · cases halias
      · rename_i main hmain
        exact .main (Option.filter_eq_some_iff.1 hmain).1 halias
  · cases h

/-! ## The directory -/

/-- Whatever a document refuses, it has some of the texts that a script offers behind what it has. -/
theorem Script.exists_contents_closedOn (s : Script) (d : Document) :
    ∃ next taken, (s.closedOn d).2 = some next ∧ taken <+: s.texts ∧
      next.contents = d.contents ++ String.join taken := by
  obtain ⟨taken, hprefix, hcontents⟩ := d.exists_contents_writeAll s.texts
  refine ⟨(s.playOn d).2.close.2, taken, ?_, hprefix, ?_⟩
  · unfold closedOn
    rcases (s.playOn d).2.close with ⟨_ | _, closed⟩ <;> rfl
  · rw [Document.contents_close, ← hcontents, playOn]
    rcases d.writeAll s.texts with ⟨_ | _, next⟩
    · rfl
    · cases s.fault <;> rfl

/-- Whatever a run with a plan offers to its document may stand in the bundle. -/
theorem writes_of_mem_plannedScript {compiler : Compiler} {o : Options} {p : Plan} {made : System}
    {text : String} (hname : p.assembly.package = o.name)
    (h : text ∈ (plannedScript compiler o p made).texts) :
    ∃ c asked, compiler p.request made = .ok c asked ∧
      Writes p.assembly.grammar p.assembly.base p.assembly.format o c text := by
  unfold plannedScript at h
  cases hcompiler : compiler p.request made with
  | error e asked =>
    rw [hcompiler] at h
    cases h
  | ok c asked =>
    rw [hcompiler] at h
    exact ⟨c, asked, rfl, writes_of_mem_compilationScript hname h⟩

/-- A run with a base directory that comes to the compiler asks it once, with the directory of the
run: the project if one is given, and otherwise the base directory.  So it asks with the base
directory just if no project is given or one that is the same directory.  The file of the project, if
it is read, is read in the directory of the run, and external modules are named from there. -/
theorem generate_in_directory {grammar : Declaration.Grammar} (compiler : Compiler)
    {r opened : Run} {base : Location} {o : Options} {p : Plan}
    (hbase : r.options.baseDir = some base) (h : Reaches grammar r o p opened) :
    (left (generate grammar compiler) r).requests = r.requests ++ [p.request] ∧
      p.request.settings.base = r.absolute (r.options.project.getD base) ∧
      (p.request.settings.base = r.absolute base ↔
        ∀ project, r.options.project = some project → r.absolute project = r.absolute base) ∧
      (o = r.options ∨ ∃ found,
        Configuration.Project.load r.system.files r.system.place
          ((r.options.project.getD base).child Configuration.projectFileName) = .ok found ∧
        o = withProjectOptions r.options found) ∧
      ∃ d next texts, opened.document = some d ∧
        (left (generate grammar compiler) r).document = some next ∧
        next.contents = d.contents ++ String.join texts ∧
        ∀ text ∈ texts, ∃ c asked, compiler p.request opened.system = .ok c asked ∧
          Writes grammar p.request.settings.base p.assembly.format r.options c text := by
  obtain ⟨d, hdocument, hrequests⟩ := h.document
  obtain ⟨hdirectory, hassembly, hpackage, hgrammar⟩ := h.base hbase
  have hoptions := h.options hbase
  have hleft : left (generate grammar compiler) r = left
      (Step.closing (Step.ask compiler p.request >>= writeCompilation o p.assembly)) opened := by
    rw [left, left, h.generate_eq compiler]
  obtain ⟨next, taken, hnext, hprefix, hcontents⟩ :=
    (plannedScript compiler o p opened.system).exists_contents_closedOn d
  refine ⟨?_, hdirectory, ?_, hoptions, d, next, taken, hdocument, ?_, hcontents, ?_⟩
  · rw [hleft, asks_closing_ask compiler o p opened, hrequests]
  · rw [hdirectory]
    cases r.options.project <;> simp
  · rw [hleft, ← observe_snd, observe_closing_ask compiler o p hdocument, hnext]
  · intro text htext
    have hname : p.assembly.package = o.name := by
      rw [hpackage]
      rcases hoptions with rfl | ⟨found, -, rfl⟩ <;> rfl
    obtain ⟨c, asked, hcompiler, hwrites⟩ :=
      writes_of_mem_plannedScript hname (List.IsPrefix.subset hprefix htext)
    rw [hassembly, hgrammar] at hwrites
    refine ⟨c, asked, hcompiler, ?_⟩
    rcases hoptions with rfl | ⟨found, -, rfl⟩
    · exact hwrites
    · exact hwrites.of_withProjectOptions

/-- Without a project a run asks with its base directory. -/
theorem generate_in_directory_base :
    ∃ p : Plan,
      (left (generate plainGrammar fun _ => pure skippedInside) plainRun).requests = [p.request] ∧
      p.request.settings.base = "/p" := by
  have hreaches : Reaches plainGrammar plainRun plainRun.options
      ⟨⟨["/p/a.ts"], { base := "/p" }⟩, plainAssembly⟩ plainRun := .intro rfl rfl rfl
  obtain ⟨hrequests, hbase, -⟩ :=
    generate_in_directory (fun _ => pure skippedInside) rfl hreaches
  exact ⟨_, hrequests, hbase.trans rfl⟩

/-- A run with a base directory inside its project. -/
def nestedRun : Run where
  options := {
    name := "lib"
    out := ⟨0, ["lib.d.ts"]⟩
    baseDir := some ⟨1, ["p", "src"]⟩
    project := some ⟨1, ["p"]⟩
    exclude := some [] }
  system := {
    place := { workingDirectory := "/", home := "/" }
    files := ⟨[(["p"], .directory), (["p", "src"], .directory),
      (["p", "tsconfig.json"], .file (Utf8.encode "\x7b\"files\": [\"src/a.ts\"]\x7d".toList)),
      (["p", "src", "a.ts"], .file [])]⟩ }
  document := some {}

/-- A file in that base directory. -/
def nestedFile : CompiledFile where
  fileName := "/p/src/a.ts"
  declaration := some ⟨"/p/src/a.d.ts", "export \x7b\x7d", false⟩

/-- With a project around it, the base directory decides neither what the compiler is asked with nor
what modules are called. -/
theorem generate_in_project :
    ModuleId.ofFile "/p/src" "lib" "/p/src/a.d.ts" = .ok "lib/a" ∧
      (left (generate plainGrammar fun _ => pure { files := [nestedFile] }) nestedRun).requests.map
        (·.settings.base) = ["/p"] ∧
      (left (generate plainGrammar fun _ => pure { files := [nestedFile] }) nestedRun).document.map
          Document.contents = some "declare module 'lib/src/a' \x7b\n\texport \x7b\x7d\n\x7d\n" := by
  decide +kernel

end DeclBundle.Bundle
