import DeclBundle.Proofs.Bundle.Faults
import DeclBundle.Proofs.Bundle.OldOutput
set_option autoImplicit false

/-!
# Runs that do not ask the compiler

A run that ends before it has asked the compiler was refused, or could not open its output.  By then
it has read and logged, and made the directories that the output was to lie in; no file but that of
the log has been touched (`keepsFiles_of_unasked`).  A configuration that cannot be used is never
noticed later than that (`generate_unasked`).
-/

namespace DeclBundle

/-- A run of the compiler does not end as a configuration that cannot be used, unless starting the
program does. -/
theorem CommandCompiler.compile_ne_configuration {c : CommandCompiler}
    (h : ∀ invocation files cause, (c.runner invocation files).1 ≠ .error (.configuration cause))
    (request : Request) (system : System) (cause : Configuration.Fault) (ended : System) :
    c.compile request system ≠ .error (.configuration cause) ended := by
  intro hcompile
  rcases fault_of_compile hcompile with hreading | ⟨_, _, hstart⟩
  · cases hreading
  · exact h _ _ cause hstart

namespace Bundle

open DeclBundle.Configuration (Options)

variable {grammar : Declaration.Grammar} {s s' : System} {r ended : Run} {fault : Fault}
variable {compiler : Compiler}

/-! ## Files that are kept -/

/-- Whether a system has the files that another one had, no more and no others, and they hold what
they held.  The file of the log may have grown. -/
def KeepsFiles (s s' : System) : Prop :=
  ∀ way, s.log.file.map (·.way) ≠ some way → ∀ content,
    s'.files.entry? way = some (.file content) ↔ s.files.entry? way = some (.file content)

theorem keepsFiles_of_forall (h : ∀ way, s.log.file.map (·.way) ≠ some way →
    s'.files.entry? way = s.files.entry? way) : KeepsFiles s s' := by
  intro way hway content
  rw [h way hway]

/-- Making directories touches no file, even if it fails halfway. -/
theorem KeepsFiles.made {made : System} (h : KeepsFiles s made) (l : Location) :
    KeepsFiles s { made with files := made.files.made made.place l } := by
  intro way hway content
  exact ((made.files.grown_made made.place l).file_iff way content).trans (h way hway content)

theorem keepsFiles_of_plan {o : Options} {p : Plan} {read made : System}
    (hproject : withProject r.options r.system = .ok o read)
    (hplan : plan grammar o read = .ok p made) : KeepsFiles r.system made := by
  refine keepsFiles_of_forall fun way hway => ?_
  have hbeside := after_plan_of_withProject (isCourse_view (besideLog way))
    (carries_besideLog_log way) grammar hproject
  rw [after, hplan] at hbeside
  exact entry?_of_besideLog hbeside hway

/-! ## The end of a run -/

/-- A run that ends early without having asked the compiler touches no file but that of the log. -/
theorem keepsFiles_of_unasked (h : generate grammar compiler r = .error fault ended)
    (hasked : ended.requests = r.requests) : KeepsFiles r.system ended.system := by
  rcases isPlanned_or_refused grammar r with
    ⟨o, read, p, made, hproject, hplan⟩ | ⟨fault', hrefused⟩
  · rcases unopened_or_breaks hproject hplan h with ⟨cause, -, rfl⟩ | ⟨hrequests, -⟩
    · exact (keepsFiles_of_plan hproject hplan).made _
    · rw [hrequests] at hasked
      simp at hasked
  · refine keepsFiles_of_forall fun way hway => ?_
    obtain ⟨last, hlast, hunopened⟩ := hrefused.unopened compiler way
    rw [h] at hlast
    obtain ⟨-, rfl⟩ := EStateM.Result.error.inj hlast
    exact hunopened.entry hway

/-- A run with a plan does not end as a configuration that cannot be used, unless the compiler
does. -/
theorem not_breaks_configuration {p : Plan}
    (hcompiler : ∀ request system cause answered,
      compiler request system ≠ .error (.configuration cause) answered)
    (cause : Configuration.Fault) : ¬ Breaks compiler p (.configuration cause) := by
  intro h
  cases h with
  | document huse => cases huse
  | failed hfailed => exact hcompiler _ _ _ _ hfailed
  | stopped _ _ hstops =>
    generalize hfault : Fault.configuration cause = fault at hstops
    cases hstops with
    | failed => cases hfault
    | @unassembled d e _ _ _ => cases e <;> cases hfault

/-- A run that ends early without having asked the compiler leaves every file as it was, save that of
the log: none has been made, emptied or written.  And where the compiler does not say of itself that
a configuration cannot be used, a run that ends so has not asked it. -/
theorem generate_unasked (grammar : Declaration.Grammar) (compiler : Compiler) (r : Run)
    (fault : Fault) (ended : Run) (h : generate grammar compiler r = .error fault ended) :
    (ended.requests = r.requests → KeepsFiles r.system ended.system) ∧
      ((∀ request system cause answered,
          compiler request system ≠ .error (.configuration cause) answered) →
        ∀ cause, fault = .configuration cause → ended.requests = r.requests) := by
  refine ⟨keepsFiles_of_unasked h, ?_⟩
  rintro hcompiler cause rfl
  rcases isPlanned_or_refused grammar r with
    ⟨o, read, p, made, hproject, hplan⟩ | ⟨fault', hrefused⟩
  · rcases unopened_or_breaks hproject hplan h with ⟨_, hfault, -⟩ | ⟨-, hbreaks⟩
    · cases hfault
    · exact absurd hbreaks (not_breaks_configuration hcompiler cause)
  · obtain ⟨last, hlast, -, hrequests⟩ := hrefused.generate_eq compiler
    rw [h] at hlast
    obtain ⟨-, rfl⟩ := EStateM.Result.error.inj hlast
    exact hrequests

/-! ## An output that cannot be opened -/

/-- A run whose output would stand where a directory is, on a way through a directory that is not
there yet. -/
def blockedRun : Run where
  options := {
    name := "lib"
    out := .ofPath "/new/../p"
    files := ["/p/a.ts"]
    exclude := some [] }
  system := {
    place := { workingDirectory := "/p", home := "/" }
    files := ⟨[(["p"], .directory), (["p", "a.ts"], .file (bytes "let old"))]⟩ }

/-- A run that cannot open its output has made the directory on the way to it and kept its input; one
whose project is missing has kept what its output held.  Neither has asked the compiler. -/
theorem generate_unasked_blocked :
    (∃ ended, generate plainGrammar (CommandCompiler.compile { runner := Runner.silent }) blockedRun =
        .error (.files ⟨.isDirectory, some "/new/../p"⟩) ended ∧
      ended.requests = [] ∧ ended.system.files.entry? ["new"] = some .directory ∧
      ended.system.files.entry? ["p", "a.ts"] = some (.file (bytes "let old"))) ∧
    ∃ ended, generate plainGrammar (CommandCompiler.compile { runner := Runner.silent }) homelessRun =
        .error (.configuration .noProject) ended ∧
      ended.requests = [] ∧
      ended.system.files.entry? ["p", "out", "lib.d.ts"] = some (.file (bytes "old")) := by
  have hblocked : ∃ ended,
      generate plainGrammar (CommandCompiler.compile { runner := Runner.silent }) blockedRun =
        .error (.files ⟨.isDirectory, some "/new/../p"⟩) ended ∧ ended.requests = [] ∧
          ended.system.files.entry? ["new"] = some .directory := ⟨_, rfl, rfl, rfl⟩
  constructor
  · obtain ⟨ended, hrun, hrequests, hnew⟩ := hblocked
    obtain ⟨hkept, -⟩ := generate_unasked _ _ blockedRun _ ended hrun
    exact ⟨ended, hrun, hrequests, hnew, (hkept hrequests ["p", "a.ts"] nofun _).2 rfl⟩
  · obtain ⟨ended, hrun, -⟩ := (Refused.project (r := homelessRun) rfl).generate_eq
      (CommandCompiler.compile { runner := Runner.silent })
    obtain ⟨hkept, hasked⟩ := generate_unasked _ _ homelessRun _ ended hrun
    have hrequests := hasked (CommandCompiler.compile_ne_configuration nofun) _ rfl
    exact ⟨ended, hrun, hrequests, (hkept hrequests ["p", "out", "lib.d.ts"] nofun _).2 rfl⟩

end Bundle

end DeclBundle
