import DeclBundle.Proofs.Bundle.Planning
import DeclBundle.Proofs.Bundle.Refusal
import DeclBundle.Proofs.Configuration.Escapes
set_option autoImplicit false

/-!
# What ends a run before its time

A run that is refused ends with the fault of its configuration, or because a file of its project
cannot be looked up or is no text (`Refused.refusalFault`).  A run with a plan ends with a fault of
its document, or with one that the compiler is answerable for (`unopened_or_breaks`).
-/

namespace DeclBundle

/-! ## Results -/

section

variable {α β ε : Type} {P : Fault → Prop}

/-- Whether a result is a fault only of a kind. -/
def FailsOnly (P : Fault → Prop) (x : Except Fault α) : Prop :=
  ∀ e, x = .error e → P e

theorem failsOnly_ok (a : α) : FailsOnly P (.ok a) := by
  intro e h
  cases h

theorem failsOnly_error {e : Fault} (h : P e) : FailsOnly P (.error e : Except Fault α) := by
  rintro _ ⟨⟩
  exact h

/-- A fault of another kind that is taken for a fault of the run. -/
theorem failsOnly_mapError {f : ε → Fault} (h : ∀ e, P (f e)) (x : Except ε α) :
    FailsOnly P (x.mapError f) := by
  cases x with
  | ok a => exact failsOnly_ok a
  | error e => exact failsOnly_error (h e)

theorem FailsOnly.bind {x : Except Fault α} {f : α → Except Fault β} (hx : FailsOnly P x)
    (hf : ∀ a, x = .ok a → FailsOnly P (f a)) : FailsOnly P (x >>= f) := by
  intro e h
  cases hresult : x with
  | ok a =>
    rw [hresult] at h
    exact hf a hresult e h
  | error fault =>
    rw [hresult] at h
    obtain rfl := Except.error.inj h
    exact hx fault hresult

theorem failsOnly_mapM {f : α → Except Fault β} (hf : ∀ a, FailsOnly P (f a)) (as : List α) :
    FailsOnly P (as.mapM f) := by
  induction as with
  | nil => exact failsOnly_ok []
  | cons a as ih =>
    rw [List.mapM_cons]
    exact (hf a).bind fun b _ => ih.bind fun bs _ => failsOnly_ok (b :: bs)

end

/-- Computations one after the other fail where the first does, or else where the second does. -/
theorem error_of_bind {σ α β : Type} {x : EStateM Fault σ α} {f : α → EStateM Fault σ β} {s s' : σ}
    {e : Fault} (h : (x >>= f) s = .error e s') :
    x s = .error e s' ∨ ∃ a mid, x s = .ok a mid ∧ f a mid = .error e s' := by
  simp only [bind, EStateM.bind] at h
  split at h
  · rename_i a mid hx
    exact .inr ⟨a, mid, hx, h⟩
  · rename_i e' mid hx
    obtain ⟨rfl, rfl⟩ := EStateM.Result.error.inj h
    exact .inl hx

/-! ## Compilers -/

/-- Whether a fault is one of reading a text from a file. -/
inductive ReadingFault : Fault → Prop where
  | files (cause : Files.Fault) : ReadingFault (.files cause)
  | undecodable (cause : Utf8.Fault) : ReadingFault (.undecodable cause)

section

variable (files : Files.FileTree) (place : Files.Place)

theorem failsOnly_readText (path : String) : FailsOnly ReadingFault (readText files place path) := by
  refine (failsOnly_mapError .files _).bind fun bytes _ => ?_
  exact (failsOnly_mapError .undecodable _).bind fun text _ => failsOnly_ok _

theorem failsOnly_collect (request : Request) (directory : String) (listing : Listing)
    (file : String) :
    FailsOnly ReadingFault
      (CommandCompiler.collect place files request directory listing file) := by
  unfold CommandCompiler.collect
  dsimp only
  split
  · exact failsOnly_ok _
  · split
    · exact (failsOnly_readText files place _).bind fun text _ => failsOnly_ok _
    · refine (failsOnly_mapError .files _).bind fun entry _ => ?_
      split
      · exact failsOnly_ok _
      · exact (failsOnly_readText files place _).bind fun text _ => failsOnly_ok _

/-- Collecting the declarations of a listing fails only where one of them cannot be read. -/
theorem failsOnly_compilation (request : Request) (directory output : String) :
    FailsOnly ReadingFault (CommandCompiler.compilation place files request directory output) :=
  (failsOnly_mapM (failsOnly_collect files place request directory _) _).bind fun _ _ =>
    failsOnly_ok _

end

/-- A run of the compiler fails as starting the program does, or where a declaration cannot be
read. -/
theorem CommandCompiler.fault_of_compile {c : CommandCompiler} {request : Request}
    {system ended : System} {fault : Fault} (h : c.compile request system = .error fault ended) :
    ReadingFault fault ∨ ∃ invocation files, (c.runner invocation files).1 = .error fault := by
  have hanswer : ∀ (started : Except Fault String) files directory,
      FailsOnly (fun e => ReadingFault e ∨ started = .error e)
        (do compilation system.place files request directory (← started)) := by
    intro started files directory
    refine FailsOnly.bind (fun e he => .inr he) fun output _ e he => .inl ?_
    exact failsOnly_compilation _ _ request _ output e he
  unfold compile at h
  dsimp only at h
  split at h
  · cases h
  · rename_i fault' hfault
    obtain ⟨rfl, -⟩ := EStateM.Result.error.inj h
    exact (hanswer _ _ _ fault' hfault).imp_right fun hstarted => ⟨_, _, hstarted⟩

/-! ## Documents -/

/-- Whether a fault is one of using a document: it is closed already, or what it stands on fails. -/
inductive Document.UseFault : Fault → Prop where
  | files (cause : Files.Fault) : UseFault (.files cause)
  | closed (name : String) : UseFault (.closedDocument name)

namespace Document

theorem failsOnly_write (d : Document) (text : String) : FailsOnly UseFault (d.write text).1 := by
  unfold write
  split
  · exact failsOnly_error (.closed _)
  · exact failsOnly_mapError .files _

theorem failsOnly_writeAll (d : Document) (texts : List String) :
    FailsOnly UseFault (d.writeAll texts).1 := by
  induction texts generalizing d with
  | nil => exact failsOnly_ok ()
  | cons text texts ih =>
    have hfirst := d.failsOnly_write text
    unfold writeAll
    rcases hwrite : d.write text with ⟨_ | _, next⟩
    · rw [hwrite] at hfirst
      exact hfirst
    · exact ih next

theorem failsOnly_close (d : Document) : FailsOnly UseFault d.close.1 := by
  unfold close
  split
  · exact failsOnly_ok ()
  · exact failsOnly_mapError .files _

end Document

namespace Bundle

open DeclBundle.Configuration (Options)

variable {grammar : Declaration.Grammar} {o : Options} {s : System} {fault : Fault}

/-! ## Runs that are refused -/

/-- Whether a fault is one that a run can be refused with. -/
inductive RefusalFault : Fault → Prop where
  | configuration (cause : Configuration.Fault) : RefusalFault (.configuration cause)
  | reading {fault : Fault} (h : ReadingFault fault) : RefusalFault fault
  | nameless (path : String) : RefusalFault (.nameless path)

/-- A project that cannot be loaded is a configuration that cannot be used, or reading it has come to
a step that escapes. -/
theorem failsOnly_load (files : Files.FileTree) (place : Files.Place) (l : Location) :
    FailsOnly RefusalFault (Configuration.Project.load files place l) := by
  have hread : FailsOnly RefusalFault
      (Configuration.Merged.read files place (Files.resolve place l.path)) := by
    intro fault hread
    by_cases hfault : fault.IsConfiguration
    · obtain ⟨cause, rfl⟩ := hfault
      exact .configuration cause
    · obtain ⟨step, -, hescapes⟩ := (Configuration.Merged.isEscape_read _).1 ⟨hread, hfault⟩
      cases hescapes with
      | undecodable => exact .reading (.undecodable _)
      | nameless => exact .nameless _
      | tooLong => exact .reading (.files _)
  exact hread.bind fun merged _ => failsOnly_ok _

theorem failsOnly_withProject (o : Options) (s : System) :
    FailsOnly RefusalFault (answer (withProject o) s) := by
  rw [answer_withProject]
  unfold projectOptions
  split
  · exact failsOnly_ok o
  · split
    · exact failsOnly_error (.reading (.files _))
    · exact failsOnly_error (.configuration _)
    · cases hload : Configuration.Project.load s.files s.place (projectFile s o) with
      | ok p => exact failsOnly_ok _
      | error fault => exact failsOnly_error (failsOnly_load _ _ _ fault hload)

theorem failsOnly_plan (o : Options) (s : System) :
    FailsOnly RefusalFault (answer (plan grammar o) s) := by
  rw [answer_plan]
  unfold declarationsIn
  split
  · exact failsOnly_ok _
  · dsimp only
    split
    · exact failsOnly_ok _
    · exact failsOnly_error (.configuration _)

theorem Refused.refusalFault {r : Run} (h : Refused grammar r fault) : RefusalFault fault := by
  cases h with
  | project h => exact failsOnly_withProject r.options r.system fault (by rw [answer, h])
  | @plan o _ read made h hplan => exact failsOnly_plan o read fault (by rw [answer, hplan])

/-! ## Runs with a plan -/

/-- Whether a fault can end a run with a plan before its time. -/
inductive Breaks (compiler : Compiler) (p : Plan) : Fault → Prop where
  /-- the document cannot be opened, written or closed -/
  | document {fault : Fault} (h : Document.UseFault fault) : Breaks compiler p fault
  /-- the compiler fails -/
  | failed {asked answered : System} {fault : Fault}
      (h : compiler p.request asked = .error fault answered) : Breaks compiler p fault
  /-- the compiler has a complaint that belongs to no file -/
  | refused {asked answered : System} {c : Compilation}
      (h : compiler p.request asked = .ok c answered) :
      Breaks compiler p (.emission c.diagnostics)
  /-- a file of the bundle stops the run -/
  | stopped {asked answered : System} {c : Compilation} {file : CompiledFile} {fault : Fault}
      (h : compiler p.request asked = .ok c answered) (hfile : file ∈ belonging p.assembly c)
      (hstops : Stops p.assembly file fault) : Breaks compiler p fault

theorem Script.failsOnly_closedOn (s : Script) (d : Document) :
    FailsOnly (fun e => Document.UseFault e ∨ s.fault = some e) (s.closedOn d).1 := by
  have hwrite := d.failsOnly_writeAll s.texts
  have hclose := (s.playOn d).2.failsOnly_close
  intro e h
  unfold closedOn at h
  split at h
  · unfold playOn at h
    split at h
    · rename_i hfault
      rw [hfault] at hwrite
      exact .inl (hwrite e h)
    · split at h
      · cases h
      · rename_i fault hfault
        cases h
        exact .inr hfault
  · rename_i hfault
    rw [hfault] at hclose
    exact .inl (hclose e h)

/-- The fault behind the texts of a compilation is a complaint, or one of a file that stops. -/
theorem fault_of_compilationScript {a : Assembly} {c : Compilation}
    (h : (compilationScript o a c).fault = some fault) :
    fault = .emission c.diagnostics ∨ ∃ file ∈ belonging a c, Stops a file fault := by
  obtain ⟨result, text, hcontent⟩ := exists_content o a c
  have hresult : result = .error fault := by
    rw [(content_iff.1 hcontent).1, Script.ending, h]
  cases hcontent with
  | refused => exact .inl (Except.error.inj hresult).symm
  | whole => cases hresult
  | @stopped before after file blocks fault' hnone hfiles hblocks hstops =>
    cases hresult
    exact .inr ⟨file, by rw [hfiles]; simp, hstops⟩

theorem breaks_of_plannedScript {compiler : Compiler} {p : Plan} {asked : System}
    (h : (plannedScript compiler o p asked).fault = some fault) : Breaks compiler p fault := by
  unfold plannedScript at h
  split at h
  · rename_i c answered hcompiler
    rcases fault_of_compilationScript h with rfl | ⟨file, hfile, hstops⟩
    · exact .refused hcompiler
    · exact .stopped hcompiler hfile hstops
  · rename_i e answered hcompiler
    cases h
    exact .failed hcompiler

/-- The run that an attempt to open the output leaves if it fails. -/
def Run.unopened (r : Run) : Run :=
  { r with system := { r.system with
      files := r.system.files.made r.system.place r.options.out.parent } }

/-- A run has a document once the output has been opened, or the output cannot be opened. -/
theorem openDocument_cases (r : Run) :
    (∃ d files, Step.openDocument r =
      .ok () { r with document := some d, system := { r.system with files } }) ∨
    ∃ cause, Step.openDocument r = .error (.files cause) r.unopened := by
  rcases r with ⟨options, system, _ | d, requests⟩
  · unfold Step.openDocument
    dsimp only
    cases hopen : Document.openFile system.files system.place options.out with
    | ok opened => exact .inl ⟨opened.1, opened.2, rfl⟩
    | error cause => exact .inr ⟨cause, rfl⟩
  · exact .inl ⟨d, system.files, rfl⟩

/-- A run that has a document asks the compiler, and ends early with a fault of its document or with
one that the compiler is answerable for. -/
theorem breaks_of_closing_ask {compiler : Compiler} {p : Plan} {opened ended : Run} {d : Document}
    (hdocument : opened.document = some d)
    (h : Step.closing (Step.ask compiler p.request >>= writeCompilation o p.assembly) opened =
      .error fault ended) :
    ended.requests = opened.requests ++ [p.request] ∧ Breaks compiler p fault := by
  have hasks := asks_closing_ask compiler o p opened
  have hobserve := observe_closing_ask compiler o p hdocument
  have hfails := (plannedScript compiler o p opened.system).failsOnly_closedOn d
  unfold left at hasks
  unfold observe at hobserve
  rw [h] at hasks hobserve
  rw [← hobserve] at hfails
  refine ⟨hasks, ?_⟩
  rcases hfails fault rfl with huse | hscript
  · exact .document huse
  · exact breaks_of_plannedScript hscript

/-- A run with a plan that ends early has not been able to open its output, or it has asked the
compiler and ends with a fault of its document or one that the compiler is answerable for. -/
theorem unopened_or_breaks {compiler : Compiler} {r ended : Run} {p : Plan} {read made : System}
    (hproject : withProject r.options r.system = .ok o read)
    (hplan : plan grammar o read = .ok p made)
    (h : generate grammar compiler r = .error fault ended) :
    (∃ cause, fault = .files cause ∧ ended = Run.unopened { r with options := o, system := made }) ∨
      (ended.requests = r.requests ++ [p.request] ∧ Breaks compiler p fault) := by
  rw [generate_eq_opening compiler hproject hplan] at h
  have hopening := openDocument_cases { r with options := o, system := made }
  rcases error_of_bind h with herror | ⟨_, opened, hopened, hask⟩
  · rcases hopening with ⟨d, files, hopen⟩ | ⟨cause, hopen⟩
    · rw [herror] at hopen
      cases hopen
    · rw [herror] at hopen
      obtain ⟨rfl, rfl⟩ := EStateM.Result.error.inj hopen
      exact .inl ⟨cause, rfl, rfl⟩
  · rcases hopening with ⟨d, files, hopen⟩ | ⟨cause, hopen⟩
    · rw [hopened] at hopen
      obtain ⟨-, rfl⟩ := EStateM.Result.ok.inj hopen
      have hasked := breaks_of_closing_ask rfl hask
      exact .inr hasked
    · rw [hopened] at hopen
      cases hopen

end Bundle

end DeclBundle
