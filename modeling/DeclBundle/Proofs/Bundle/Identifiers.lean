import DeclBundle.Proofs.Bundle.Answer
import DeclBundle.Proofs.Bundle.Headers
import DeclBundle.Proofs.Compiler.Placement
set_option autoImplicit false

/-!
# Identifiers in a bundle

The compiled files below the base directory carry declarations, and each declaration has an
identifier.  Nothing looks for two declarations with one identifier, so that a bundle can declare a
module twice.  It does not, as long as no two of the files clash.
-/

namespace DeclBundle.Bundle

open DeclBundle.Path
open CommandCompiler (Clash declarationPath)

/-! ## Declarations and their identifiers -/

/-- The compiled files that carry a declaration, with their declarations. -/
def declared (c : Compilation) : List (String × SourceFile) :=
  c.files.filterMap fun file => file.declaration.map (file.fileName, ·)

/-- The identifiers of the declarations that compiled files carry. -/
def identifiers (base package : String) (c : Compilation) :
    Except ModuleId.OutsideBase (List String) :=
  (declared c).mapM fun carrier => ModuleId.ofFile base package carrier.2.fileName

/-- If there is an answer for each item of a list, there are answers for all. -/
theorem mapM_eq_ok {ε α β : Type} {f : α → Except ε β} {g : α → β} {xs : List α}
    (h : ∀ x ∈ xs, f x = .ok (g x)) : xs.mapM f = .ok (xs.map g) := by
  induction xs with
  | nil => rfl
  | cons x xs ih =>
    rw [List.mapM_cons, h x List.mem_cons_self, ih fun y hy => h y (List.mem_cons_of_mem x hy)]
    rfl

variable {c : CommandCompiler} {request : Request} {system after : System} {result : Compilation}

/-- The declarations that a run of the compiler gives belong to files below the base directory, and
are said to lie where those of the files do. -/
theorem declarationPath_of_compile (h : c.compile request system = .ok result after)
    {carrier : String × SourceFile} (hcarrier : carrier ∈ declared result) :
    isUnder carrier.1 request.base = true ∧
      carrier.2.fileName = declarationPath system.place request carrier.1 := by
  obtain ⟨file, hfile, hdeclaration⟩ := List.mem_filterMap.1 hcarrier
  obtain ⟨d, hd, rfl⟩ := Option.map_eq_some_iff.1 hdeclaration
  obtain ⟨directory, before, files, output, -, hcompilation⟩ :=
    CommandCompiler.exists_listing_of_compile h
  have hcollected := CommandCompiler.forall₂_of_compilation hcompilation
  obtain ⟨i, hi, rfl⟩ := List.mem_iff_getElem.1 hfile
  have hcollect := hcollected.get (hcollected.length_eq ▸ hi) hi
  obtain ⟨hname, -⟩ := CommandCompiler.collect_cases hcollect
  have hplaced := CommandCompiler.declarationPath_of_collect hcollect hd
  rw [← hname] at hplaced
  exact hplaced

/-- The declarations that a run of the compiler gives have identifiers. -/
theorem exists_ofFile_of_compile (package : String)
    (hout : isUnder request.declarationDirectory request.base = true)
    (h : c.compile request system = .ok result after)
    {carrier : String × SourceFile} (hcarrier : carrier ∈ declared result) :
    ∃ id, ModuleId.ofFile request.base package carrier.2.fileName = .ok id := by
  obtain ⟨hunder, hpath⟩ := declarationPath_of_compile h hcarrier
  obtain ⟨rest, -, -, hid⟩ :=
    ModuleId.exists_ofFile package (CommandCompiler.isUnder_declarationPath hout hunder)
  exact ⟨_, hpath ▸ hid⟩

/-- Two declarations that a run of the compiler gives have the same identifier just if the files that
carry them clash. -/
theorem ofFile_eq_iff_clash (package : String)
    (hout : isUnder request.declarationDirectory request.base = true)
    (h : c.compile request system = .ok result after)
    {carrier other : String × SourceFile} (hcarrier : carrier ∈ declared result)
    (hother : other ∈ declared result) :
    ModuleId.ofFile request.base package carrier.2.fileName =
        ModuleId.ofFile request.base package other.2.fileName ↔
      Clash system.place request carrier.1 other.1 := by
  obtain ⟨hunder, hpath⟩ := declarationPath_of_compile h hcarrier
  obtain ⟨hunder', hpath'⟩ := declarationPath_of_compile h hother
  rw [hpath, hpath']
  exact CommandCompiler.ofFile_declarationPath_eq_iff package hout hunder hunder'

/-- A file that declares a module has the identifier of its declaration. -/
theorem Declares.ofFile_eq {a : Assembly} {file : CompiledFile} {id : String}
    (h : Declares a file id) :
    ∃ d, file.declaration = some d ∧ ModuleId.ofFile a.base a.package d.fileName = .ok id := by
  obtain ⟨hd, -, -, hid⟩ := h
  exact ⟨_, hd, Assembly.moduleId_eq_ok_iff.1 hid⟩

/-- If no two declarations have the same identifier, no module of the bundle is declared twice. -/
theorem pairwise_declares {a : Assembly} {c : Compilation}
    (h : (declared c).Pairwise fun f g => ModuleId.ofFile a.base a.package f.2.fileName ≠
      ModuleId.ofFile a.base a.package g.2.fileName) :
    (belonging a c).Pairwise fun f g => ∀ id, Declares a f id → ¬ Declares a g id := by
  rw [declared, List.pairwise_filterMap] at h
  apply List.Pairwise.filter
  refine h.imp ?_
  intro f g hne id hdeclares hdeclares'
  obtain ⟨d, hd, hfile⟩ := hdeclares.ofFile_eq
  obtain ⟨d', hd', hfile'⟩ := hdeclares'.ofFile_eq
  refine hne (f.fileName, d) ?_ (g.fileName, d') ?_ (hfile.trans hfile'.symm)
  · rw [hd, Option.map_some]
  · rw [hd', Option.map_some]

/-- All declarations that a run of the compiler gives have identifiers, which are pairwise distinct
just if no two of the files that carry them clash.  In that case no bundle of these files declares a
module twice. -/
theorem nodup_identifiers_iff (package : String)
    (hout : isUnder request.declarationDirectory request.base = true)
    (h : c.compile request system = .ok result after) :
    ∃ ids, identifiers request.base package result = .ok ids ∧
      (ids.Nodup ↔
        (declared result).Pairwise fun f g => ¬ Clash system.place request f.1 g.1) ∧
      (ids.Nodup → ∀ a : Assembly, a.base = request.base → a.package = package →
        (belonging a result).Pairwise fun f g => ∀ id, Declares a f id → ¬ Declares a g id) := by
  have hall : ∀ carrier ∈ declared result,
      ∃ id, ModuleId.ofFile request.base package carrier.2.fileName = .ok id :=
    fun carrier hcarrier => exists_ofFile_of_compile package hout h hcarrier
  choose! id hid using hall
  have hsame : ∀ f ∈ declared result, ∀ g ∈ declared result,
      (ModuleId.ofFile request.base package f.2.fileName =
        ModuleId.ofFile request.base package g.2.fileName ↔ id f = id g) := by
    intro f hf g hg
    rw [hid f hf, hid g hg, Except.ok.injEq]
  refine ⟨(declared result).map id, mapM_eq_ok hid, ?_, ?_⟩
  · unfold List.Nodup
    rw [List.pairwise_map]
    apply List.Pairwise.iff_of_mem
    intro f g hf hg
    rw [← ofFile_eq_iff_clash package hout h hf hg, hsame f hf g hg]
  · rintro hnodup a hbase rfl
    unfold List.Nodup at hnodup
    rw [List.pairwise_map] at hnodup
    apply pairwise_declares
    rw [hbase]
    refine hnodup.imp_of_mem ?_
    intro f g hf hg hne heq
    exact hne ((hsame f hf g hg).1 heq)

/-! ## A source and an input -/

/-- A tree with a source file and two declarations beside it. -/
def besideTree : Files.FileTree where
  entries := [(["p"], .directory), (["p", "a.ts"], .file []),
    (["p", "a.d.ts"], .file (Utf8.encode "export \x7b\x7d".toList)),
    (["p", "b.d.ts"], .file (Utf8.encode "export \x7b\x7d".toList)), (["tmp"], .directory)]

/-- A compiler that reads the source file and one more, and writes the declaration of the source
file. -/
def compilerBeside (input : String) : CommandCompiler where
  runner _ files :=
    (.ok ("/p/a.ts\n" ++ input ++ "\n"),
      files.put ["tmp", "dtsbundle-0", "a.d.ts"] (.file (Utf8.encode "export \x7b\x7d".toList)))

/-- What the compiler answers. -/
def sourceAndInput (input : String) : Compilation where
  files := [emittedFile "a" "export \x7b\x7d",
    { fileName := input, declaration := some ⟨input, "export \x7b\x7d", true⟩ }]

/-- A run in the tree. -/
def runBeside : Run :=
  { plainRun with system := { plainRun.system with files := besideTree } }

/-- What the run asks for. -/
def requestBeside : Request :=
  ⟨["/p/a.ts"], { base := "/p" }⟩

/-- The compiler answers so if it does on the input at hand. -/
theorem compile_beside (input : String)
    (h : (answer ((compilerBeside input).compile requestBeside) runBeside.system).toOption =
      some (sourceAndInput input)) :
    ∃ after, (compilerBeside input).compile requestBeside runBeside.system =
      .ok (sourceAndInput input) after :=
  exists_of_answer h

/-- A source file and an input with another name have different identifiers. -/
theorem nodup_identifiers_beside :
    ∃ ids, identifiers "/p" "lib" (sourceAndInput "/p/b.d.ts") = .ok ids ∧ ids.Nodup := by
  obtain ⟨after, hcompile⟩ := compile_beside "/p/b.d.ts" (by decide +kernel)
  obtain ⟨ids, hids, hiff, -⟩ := nodup_identifiers_iff "lib" (by decide) hcompile
  refine ⟨ids, hids, hiff.2 ?_⟩
  refine .cons ?_ (.cons (by simp) .nil)
  intro other hother
  obtain rfl := List.mem_singleton.1 hother
  rw [CommandCompiler.clash_iff]
  decide +kernel

/-- The block of a module that exports nothing. -/
def blockBeside : String :=
  "declare module 'lib/a' \x7b\n\texport \x7b\x7d\n\x7d\n"

/-- A source file and an input at the path of its declaration have one identifier, and a run
declares its module twice. -/
theorem identifiers_same :
    isUnder requestBeside.declarationDirectory requestBeside.base = true ∧
      (∃ after, (compilerBeside "/p/a.d.ts").compile requestBeside runBeside.system =
        .ok (sourceAndInput "/p/a.d.ts") after) ∧
      ((sourceAndInput "/p/a.d.ts").files.map (·.fileName)).Nodup ∧
      identifiers "/p" "lib" (sourceAndInput "/p/a.d.ts") = .ok ["lib/a", "lib/a"] ∧
      ∃ next, observe (generate plainGrammar (compilerBeside "/p/a.d.ts").compile) runBeside =
          (.ok (), some next) ∧
        next.contents = "/// <reference path=\"e.d.ts\" />\n" ++ blockBeside ++ blockBeside ++
          mainText plainAssembly.format plainRun.options := by
  refine ⟨by decide, compile_beside "/p/a.d.ts" (by decide +kernel), by decide, by decide +kernel, ?_⟩
  have hends :
      (observe (generate plainGrammar (compilerBeside "/p/a.d.ts").compile) runBeside).1 =
        .ok () := by
    decide +kernel
  have hcontents :
      (observe (generate plainGrammar (compilerBeside "/p/a.d.ts").compile) runBeside).2.map
        (·.contents) = some ("/// <reference path=\"e.d.ts\" />\n" ++ blockBeside ++ blockBeside ++
          mainText plainAssembly.format plainRun.options) := by
    decide +kernel
  obtain ⟨next, hnext, htext⟩ := Option.map_eq_some_iff.1 hcontents
  exact ⟨next, Prod.ext hends hnext, htext⟩

end DeclBundle.Bundle
