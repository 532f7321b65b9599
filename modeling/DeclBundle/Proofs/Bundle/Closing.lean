import DeclBundle.Proofs.Bundle.Outcome
import DeclBundle.Proofs.Document.Closing
set_option autoImplicit false

/-!
# Closing the document of a run

A run that has a plan closes its document once, however it ends: nothing that is written closes
anything, and whatever stops the writing passes through the one closing behind it
(`closedOnceMore_of_closing`).  A run without a plan, because its project cannot be read or because
its declarations would not lie under the base directory, ends before the document is looked at, and
leaves it open (`generate_closes_iff`).
-/

namespace DeclBundle.Bundle

open DeclBundle.Configuration (Options)

/-! ## Steps that close nothing -/

/-- Whether a step keeps the document of a run, and neither opens nor closes it. -/
def LeavesOpen {α : Type} (step : Step α) : Prop :=
  ∀ r d, r.document = some d →
    ∃ next, (observe step r).2 = some next ∧ d.SameClosing next

/-- A script that is offered to a document closes nothing. -/
theorem Script.playOn_closing (s : Script) (d : Document) : d.SameClosing (s.playOn d).2 := by
  have hwrite := d.writeAll_closing s.texts
  unfold playOn
  generalize d.writeAll s.texts = written at hwrite ⊢
  obtain ⟨result, next⟩ := written
  cases result with
  | error e => exact hwrite
  | ok _ => cases s.fault <;> exact hwrite

theorem Performs.leavesOpen {step : Step Unit} {s : Script} (h : Performs step s) :
    LeavesOpen step := by
  intro r d hd
  exact ⟨(s.playOn d).2, by rw [h r d hd], s.playOn_closing d⟩

/-- An action on the system does not touch the document. -/
theorem leavesOpen_ofAction {α : Type} (a : Action α) : LeavesOpen (Step.ofAction a) := by
  intro r d hd
  refine ⟨d, ?_, .refl d⟩
  unfold observe Step.ofAction
  cases a r.system <;> exact hd

theorem LeavesOpen.bind {α β : Type} {step : Step α} {next : α → Step β} (hstep : LeavesOpen step)
    (hnext : ∀ x, LeavesOpen (next x)) : LeavesOpen (step >>= next) := by
  intro r d hd
  obtain ⟨mid, hmid, hsame⟩ := hstep r d hd
  unfold observe at hmid ⊢
  simp only [Bind.bind, EStateM.bind]
  cases hrun : step r with
  | error e r' =>
    rw [hrun] at hmid
    exact ⟨mid, hmid, hsame⟩
  | ok x r' =>
    rw [hrun] at hmid
    obtain ⟨last, hlast, hsame'⟩ := hnext x r' mid hmid
    exact ⟨last, hlast, hsame.trans hsame'⟩

/-- Asking the compiler closes nothing, whatever the compiler answers. -/
theorem leavesOpen_ask (compiler : Compiler) (request : Request) :
    LeavesOpen (Step.ask compiler request) := by
  refine .bind ?_ fun _ => leavesOpen_ofAction _
  intro r d hd
  exact ⟨d, hd, .refl d⟩

/-- Closing behind a step that closes nothing closes an open document once. -/
theorem closedOnceMore_of_closing {step : Step Unit} {r : Run} {d : Document}
    (hd : r.document = some d) (hopen : d.isClosed = false) (hstep : LeavesOpen step) :
    ∃ next, (observe (Step.closing step) r).2 = some next ∧ d.ClosedOnceMore next := by
  obtain ⟨used, hused, hsame⟩ := hstep r d hd
  have hclosed := Document.close_closed (hsame.isClosed.trans hopen)
  have hobserve := observe_closing (Prod.ext rfl hused)
  refine ⟨used.close.2, ?_, hclosed.isClosed, hclosed.stream_isClosed, ?_⟩
  · rw [hobserve]
    rcases used.close with ⟨_ | _, closed⟩ <;> rfl
  · rw [hclosed.closes, hsame.closes]

/-! ## Runs with and without a plan -/

/-- Whether the configuration of a run passes: the options with the project can be read, and there
is a plan for them. -/
def IsPlanned (grammar : Declaration.Grammar) (r : Run) : Prop :=
  ∃ o read p made, withProject r.options r.system = .ok o read ∧ plan grammar o read = .ok p made

/-- Whether the configuration of a run does not pass, and with which fault. -/
inductive Refused (grammar : Declaration.Grammar) (r : Run) : Fault → Prop where
  /-- the project cannot be read -/
  | project {fault : Fault} {read : System}
      (h : withProject r.options r.system = .error fault read) : Refused grammar r fault
  /-- there is no plan for the options -/
  | plan {o : Options} {fault : Fault} {read made : System}
      (h : withProject r.options r.system = .ok o read)
      (hplan : plan grammar o read = .error fault made) : Refused grammar r fault

variable {grammar : Declaration.Grammar}

theorem isPlanned_or_refused (grammar : Declaration.Grammar) (r : Run) :
    IsPlanned grammar r ∨ ∃ fault, Refused grammar r fault := by
  cases hproject : withProject r.options r.system with
  | error fault read => exact .inr ⟨fault, .project hproject⟩
  | ok o read =>
    cases hplan : plan grammar o read with
    | error fault made => exact .inr ⟨fault, .plan hproject hplan⟩
    | ok p made => exact .inl ⟨o, read, p, made, hproject, hplan⟩

theorem Refused.not_isPlanned {r : Run} {fault : Fault} (h : Refused grammar r fault) :
    ¬ IsPlanned grammar r := by
  rintro ⟨o, read, p, made, hproject, hplan⟩
  cases h with
  | project h => rw [h] at hproject; cases hproject
  | plan h hrefused =>
    rw [h] at hproject
    obtain ⟨rfl, rfl⟩ := EStateM.Result.ok.inj hproject
    rw [hrefused] at hplan
    cases hplan

variable {r : Run} {d : Document}

/-- A run whose project cannot be read ends there. -/
theorem generate_eq_of_project (compiler : Compiler) {fault : Fault} {read : System}
    (h : withProject r.options r.system = .error fault read) :
    generate grammar compiler r = .error fault { r with system := read } := by
  simp only [generate, Step.ofAction, Bind.bind, EStateM.bind, Step.get_eq, h]

/-- A run without a plan for its options ends there. -/
theorem generate_eq_of_plan (compiler : Compiler) {o : Options} {fault : Fault}
    {read made : System} (h : withProject r.options r.system = .ok o read)
    (hplan : plan grammar o read = .error fault made) :
    generate grammar compiler r = .error fault { r with options := o, system := made } := by
  simp only [generate, Step.ofAction, Bind.bind, EStateM.bind, Step.get_eq, Step.modify_eq, h, hplan]

/-- A run without a plan ends with the fault of its configuration.  It has not touched the document
and not asked the compiler. -/
theorem Refused.generate_eq (compiler : Compiler) {fault : Fault} (h : Refused grammar r fault) :
    ∃ ended, generate grammar compiler r = .error fault ended ∧ ended.document = r.document ∧
      ended.requests = r.requests := by
  cases h with
  | project h => exact ⟨_, generate_eq_of_project compiler h, rfl, rfl⟩
  | plan h hplan => exact ⟨_, generate_eq_of_plan compiler h hplan, rfl, rfl⟩

theorem Refused.observe_generate (compiler : Compiler) {fault : Fault}
    (h : Refused grammar r fault) :
    observe (generate grammar compiler) r = (.error fault, r.document) := by
  obtain ⟨ended, hgenerate, hdocument, -⟩ := h.generate_eq compiler
  unfold observe
  rw [hgenerate, ← hdocument]

/-- A run with a plan and a document ends in the step that closes the document. -/
theorem generate_eq_closing (compiler : Compiler) {o : Options} {p : Plan} {read made : System}
    (hproject : withProject r.options r.system = .ok o read)
    (hplan : plan grammar o read = .ok p made) (hd : r.document = some d) :
    generate grammar compiler r =
      Step.closing (Step.ask compiler p.request >>= writeCompilation o p.assembly)
        { r with options := o, system := made } := by
  have hopen : Step.openDocument { r with options := o, system := made } =
      .ok () { r with options := o, system := made } := by
    unfold Step.openDocument
    simp only [hd]
  simp only [generate, Step.ofAction, Bind.bind, EStateM.bind, Step.get_eq, Step.modify_eq,
    hproject, hplan, hopen]

theorem IsPlanned.generate_eq (compiler : Compiler) (h : IsPlanned grammar r)
    (hd : r.document = some d) :
    ∃ (o : Options) (p : Plan) (r' : Run), r'.document = some d ∧
      generate grammar compiler r =
        Step.closing (Step.ask compiler p.request >>= writeCompilation o p.assembly) r' := by
  obtain ⟨o, read, p, made, hproject, hplan⟩ := h
  exact ⟨o, p, { r with options := o, system := made }, hd,
    generate_eq_closing compiler hproject hplan hd⟩

/-- A run on an open document closes it once if the configuration of the run passes, whatever the
compiler answers and whatever the document refuses.  Otherwise the run ends with the fault of the
configuration, and the document is what it was. -/
theorem generate_closes_iff (grammar : Declaration.Grammar) (compiler : Compiler)
    (hd : r.document = some d) (hopen : d.isClosed = false) :
    ∃ result next, observe (generate grammar compiler) r = (result, some next) ∧
      (IsPlanned grammar r → d.ClosedOnceMore next) ∧
      (∀ fault, Refused grammar r fault → result = .error fault ∧ next = d) ∧
      (next.stream.closes = d.stream.closes + 1 ↔ IsPlanned grammar r) := by
  rcases isPlanned_or_refused grammar r with hplanned | ⟨fault, hrefused⟩
  · obtain ⟨o, p, r', hd', hgenerate⟩ := hplanned.generate_eq compiler hd
    have hstep : LeavesOpen (Step.ask compiler p.request >>= writeCompilation o p.assembly) :=
      (leavesOpen_ask compiler p.request).bind fun c =>
        (performs_writeCompilation o p.assembly c).leavesOpen
    obtain ⟨next, hnext, hclosed⟩ := closedOnceMore_of_closing hd' hopen hstep
    unfold observe at hnext ⊢
    rw [hgenerate]
    refine ⟨_, next, Prod.ext rfl hnext, fun _ => hclosed, ?_, iff_of_true hclosed.closes hplanned⟩
    exact fun fault hrefused => absurd hplanned hrefused.not_isPlanned
  · refine ⟨.error fault, d, ?_, ?_, ?_, ?_⟩
    · rw [hrefused.observe_generate compiler, hd]
    · exact fun hplanned => absurd hplanned hrefused.not_isPlanned
    · intro fault' hrefused'
      have hsame := (hrefused.observe_generate compiler).symm.trans
        (hrefused'.observe_generate compiler)
      exact ⟨congrArg Prod.fst hsame, rfl⟩
    · exact iff_of_false (by omega) hrefused.not_isPlanned

/-! ## A stream that fails, and a project that is missing -/

/-- A document whose stream refuses the first text and complains when it is flushed and closed. -/
def stubbornDocument : Document where
  stream := { refused := some 1, failsToFlush := true, failsToClose := true }

/-- A run with a plan closes its document once even if its stream fails again and again. -/
theorem generate_closes_stubborn :
    ∃ next, observe (generate plainGrammar fun _ => pure skippedInside)
        { plainRun with document := some stubbornDocument } =
        (.error (.files ⟨.inputOutput, none⟩), some next) ∧
      next.stream.closes = 1 ∧ next.stream.isClosed = true := by
  obtain ⟨result, next, hobserve, hclosed, -, -⟩ :=
    generate_closes_iff plainGrammar (fun _ => pure skippedInside)
      (r := { plainRun with document := some stubbornDocument }) rfl rfl
  have hclosed := hclosed ⟨_, _, _, _, rfl, rfl⟩
  refine ⟨next, ?_, hclosed.closes, hclosed.stream_isClosed⟩
  have hresult : (observe (generate plainGrammar fun _ => pure skippedInside)
      { plainRun with document := some stubbornDocument }).1 =
        .error (.files ⟨.inputOutput, none⟩) := by
    decide +kernel
  rw [hobserve] at hresult ⊢
  exact Prod.ext hresult rfl

/-- A run without input files, where no project is. -/
def projectlessRun : Run :=
  { plainRun with options := { plainRun.options with files := [] } }

/-- A run whose project is missing ends with its document open: the stream is never closed. -/
theorem generate_leaves_open :
    observe (generate plainGrammar fun _ => pure skippedInside) projectlessRun =
        (.error (.configuration .noProject), some {}) ∧
      (({} : Document).stream.closes = 0 ∧ ({} : Document).isClosed = false) :=
  ⟨(Refused.project rfl).observe_generate _, rfl, rfl⟩

end DeclBundle.Bundle
