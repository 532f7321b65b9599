import DeclBundle.Proofs.Bundle.Faults
import DeclBundle.Proofs.Bundle.Identifiers
set_option autoImplicit false

/-!
# What lies under the base directory

Whether a file belongs to a bundle is asked of the path that the compiler lists; the identifier of
its module is made from the path where its declaration is said to lie.  The two questions have the
same answer: what belongs to a bundle has an identifier (`hasIdentifier_of_compile`).  Nothing else
that a run does has a fault of that kind, so that no run ends for a file outside the base directory
(`containment_agrees`).
-/

namespace DeclBundle

open DeclBundle.Configuration (Options)

namespace Bundle

open DeclBundle.Path

variable {grammar : Declaration.Grammar} {c : CommandCompiler} {o : Options} {a : Assembly}

/-! ## Blocks -/

/-- Whether the declaration of a file, if it has one, has an identifier. -/
def HasIdentifier (a : Assembly) (file : CompiledFile) : Prop :=
  ∀ d, file.declaration = some d → ∃ id, a.moduleId d.fileName = .ok id

/-- A declaration with an identifier has a block, or is no text. -/
theorem undecodable_of_assemble {d : SourceFile} {e : AssemblyFault}
    (h : ∃ id, a.moduleId d.fileName = .ok id) (he : a.assemble d = .error e) :
    ∃ cause, e = .undecodable cause := by
  obtain ⟨id, hid⟩ := h
  unfold Assembly.assemble at he
  split at he
  · cases he
  · rw [hid] at he
    dsimp only [bind, Except.bind] at he
    split at he
    · cases he
    · cases hcontent : Declaration.moduleContent id (Utf8.encode d.text.toList)
          (a.grammar d.text.toList) with
      | error cause =>
        rw [hcontent] at he
        cases he
        exact ⟨cause, rfl⟩
      | ok content =>
        rw [hcontent] at he
        cases he

/-- A file with an identifier does not stop a run for lying outside the base directory. -/
theorem HasIdentifier.not_stops {file : CompiledFile} (h : HasIdentifier a file)
    (cause : ModuleId.OutsideBase) : ¬ Stops a file (.outsideBase cause) := by
  intro hstops
  generalize hfault : Fault.outsideBase cause = fault at hstops
  cases hstops with
  | failed => cases hfault
  | unassembled _ hd he =>
    obtain ⟨other, rfl⟩ := undecodable_of_assemble (h _ hd) he
    cases hfault

/-! ## Runs -/

/-- What the compiler answers to a plan has identifiers. -/
theorem hasIdentifier_of_compile {p : Plan} {s : System} {read : System} {result : Compilation}
    (hplace : isAbsolute read.place.workingDirectory = true)
    (hplan : answer (plan grammar o) read = .ok p)
    (hcompile : answer (c.compile p.request) s = .ok result) {file : CompiledFile}
    (hfile : file ∈ belonging p.assembly result) : HasIdentifier p.assembly file := by
  intro d hd
  obtain ⟨hbase, hout⟩ := isUnder_of_plan hplace hplan
  have hcarrier : (file.fileName, d) ∈ declared result :=
    List.mem_filterMap.2 ⟨file, (List.mem_filter.1 hfile).1, by rw [hd, Option.map_some]⟩
  obtain ⟨id, hid⟩ := exists_ofFile_of_compile p.assembly.package hout
    (answer_eq_ok_iff.1 hcompile) hcarrier
  refine ⟨id, ?_⟩
  unfold Assembly.moduleId
  rw [hbase, hid]
  rfl

/-- A run does not end for a file outside the base directory if starting the program of the compiler
does not. -/
theorem generate_ne_outsideBase {r : Run}
    (hplace : ∀ o read, withProject r.options r.system = .ok o read →
      isAbsolute read.place.workingDirectory = true)
    (hstarts : ∀ invocation files cause,
      (c.runner invocation files).1 ≠ .error (.outsideBase cause))
    (cause : ModuleId.OutsideBase) (ended : Run) :
    generate grammar c.compile r ≠ .error (.outsideBase cause) ended := by
  intro hrun
  rcases isPlanned_or_refused grammar r with ⟨o, read, p, made, hproject, hplan⟩ | ⟨fault, hrefused⟩
  · rcases unopened_or_breaks hproject hplan hrun with ⟨_, hfault, -⟩ | ⟨-, hbreaks⟩
    · cases hfault
    · cases hbreaks with
      | document huse => cases huse
      | failed hcompile =>
        rcases CommandCompiler.fault_of_compile hcompile with hreading | ⟨_, _, hstart⟩
        · cases hreading
        · exact hstarts _ _ cause hstart
      | stopped hcompile hfile hstops =>
        have hidentifier := hasIdentifier_of_compile (hplace o read hproject)
          (by rw [answer, hplan]) (by rw [answer, hcompile]) hfile
        exact hidentifier.not_stops cause hstops
  · obtain ⟨last, hlast, -, -⟩ := hrefused.generate_eq c.compile
    rw [hrun] at hlast
    obtain ⟨rfl, -⟩ := EStateM.Result.error.inj hlast
    cases hrefused.refusalFault with
    | reading h => cases h

/-- A path under a base directory has an identifier there.  And whatever the grammar, a run with the
compiler, which does not end so by itself, never ends in the fault of a file outside the base
directory: once its plan is made, each file of a compilation that belongs to the bundle has an
identifier for its declaration. -/
theorem containment_agrees :
    (∀ path base package, isUnder path base = true →
      ∃ id, ModuleId.ofFile base package path = .ok id) ∧
    ∀ (grammar : Declaration.Grammar) (c : CommandCompiler) (r : Run),
      isAbsolute r.system.place.workingDirectory = true →
      (∀ invocation files cause, (c.runner invocation files).1 ≠ .error (.outsideBase cause)) →
      (∀ cause ended, generate grammar c.compile r ≠ .error (.outsideBase cause) ended) ∧
      ∀ o read p made, withProject r.options r.system = .ok o read →
        plan grammar o read = .ok p made →
        ∀ system result after, c.compile p.request system = .ok result after →
          ∀ file ∈ belonging p.assembly result, ∀ d, file.declaration = some d →
            ∃ id, p.assembly.moduleId d.fileName = .ok id := by
  refine ⟨?_, ?_⟩
  · intro path base package h
    obtain ⟨rest, -, -, hid⟩ := ModuleId.exists_ofFile package h
    exact ⟨_, hid⟩
  · intro grammar c r hplace hrunner
    have hplaced : ∀ o, ∀ read, withProject r.options r.system = .ok o read →
        isAbsolute read.place.workingDirectory = true := by
      intro o read hproject
      have hkept := preserves_place_withProject r.options r.system
      unfold after at hkept
      rw [hproject] at hkept
      exact hkept ▸ hplace
    refine ⟨generate_ne_outsideBase hplaced hrunner, ?_⟩
    intro o read p made hproject hplan system result after hcompile file hfile
    exact hasIdentifier_of_compile (hplaced o read hproject) (by rw [answer, hplan])
      (by rw [answer, hcompile]) hfile

/-- The source file and the declaration of a run have identifiers. -/
theorem containment_agrees_beside :
    (∃ id, ModuleId.ofFile "/p" "lib" "/p/b.d.ts" = .ok id) ∧
      (∀ cause ended, generate plainGrammar (compilerBeside "/p/b.d.ts").compile runBeside ≠
        .error (.outsideBase cause) ended) ∧
      ∀ file ∈ (sourceAndInput "/p/b.d.ts").files, ∀ d, file.declaration = some d →
        ∃ id, plainAssembly.moduleId d.fileName = .ok id := by
  obtain ⟨hpaths, hruns⟩ := containment_agrees
  obtain ⟨hends, hidentifiers⟩ :=
    hruns plainGrammar (compilerBeside "/p/b.d.ts") runBeside (by decide) nofun
  refine ⟨hpaths "/p/b.d.ts" "/p" "lib" (by decide), hends, ?_⟩
  intro file hfile
  obtain ⟨after, hcompile⟩ := compile_beside "/p/b.d.ts" (by decide +kernel)
  have hbelonging : belonging plainAssembly (sourceAndInput "/p/b.d.ts") =
      (sourceAndInput "/p/b.d.ts").files := by
    decide +kernel
  exact hidentifiers _ _ ⟨requestBeside, plainAssembly⟩ _ rfl rfl _ _ after hcompile file
    (hbelonging ▸ hfile)

end Bundle

end DeclBundle
