import DeclBundle.Proofs.Bundle.OldOutput
import DeclBundle.Proofs.Bundle.Outcome
import DeclBundle.Proofs.Bundle.Refusal
set_option autoImplicit false

/-!
# A run that is repeated

A run takes into its options what the project asks for, and may end after that in any way.  A second
run on the same options need not read the project again.  Still, reading it once comes to the same as
reading it twice (`projectOptions_again`), and up to its end a run in memory does nothing to files
but log (`OnlyLogged`).  So the second run does what the first one did (`generate_repeats`).
-/

namespace DeclBundle

/-! ## Documents in memory -/

namespace Document

theorem file_write (d : Document) (text : String) : (d.write text).2.file = d.file := by
  unfold write
  split <;> rfl

theorem file_writeAll (d : Document) (texts : List String) :
    (d.writeAll texts).2.file = d.file := by
  induction texts generalizing d with
  | nil => rfl
  | cons text texts ih =>
    have hfirst := d.file_write text
    unfold writeAll
    generalize d.write text = written at hfirst ⊢
    rcases written with ⟨_ | _, next⟩
    · exact hfirst
    · exact (ih next).trans hfirst

theorem file_close (d : Document) : d.close.2.file = d.file := by
  unfold close
  split <;> rfl

end Document

namespace Bundle

open DeclBundle.Configuration (Options)
open DeclBundle.Files (FileTree Way)
open DeclBundle.Files.FileTree (Alike)

theorem Script.file_playOn (s : Script) (d : Document) : (s.playOn d).2.file = d.file := by
  have hwrite := d.file_writeAll s.texts
  unfold playOn
  generalize d.writeAll s.texts = written at hwrite ⊢
  rcases written with ⟨_ | _, next⟩
  · exact hwrite
  · cases s.fault <;> exact hwrite

variable {grammar : Declaration.Grammar} {s s' : System} {o o' : Options} {α : Type}

/-! ## Systems in which only messages have been logged -/

/-- Whether a system has come from another one by logging, as far as its place and its files go: only
what the file of the log holds may differ. -/
structure OnlyLogged (s s' : System) : Prop where
  place : s'.place = s.place
  way : s'.log.file.map (·.way) = s.log.file.map (·.way)
  files : s'.files = s.files ∨
    ∃ out, s.log.file.map (·.way) = some out ∧ Alike out s.files s'.files

theorem isCourse_onlyLogged : IsCourse OnlyLogged where
  refl _ := ⟨rfl, rfl, .inl rfl⟩
  trans := by
    intro a b c h h'
    refine ⟨h'.place.trans h.place, h'.way.trans h.way, ?_⟩
    rcases h.files with hfiles | ⟨out, hout, halike⟩
    · have hfiles' := h'.files
      rwa [hfiles, h.way] at hfiles'
    · rcases h'.files with hfiles' | ⟨out', hout', halike'⟩
      · exact .inr ⟨out, hout, hfiles' ▸ halike⟩
      · rw [h.way, hout] at hout'
        obtain rfl := Option.some.inj hout'
        exact .inr ⟨out, hout, halike.trans halike'⟩

theorem carries_onlyLogged_log (level : Level) (part message : String) :
    Carries OnlyLogged (Action.log level part message) := by
  intro s
  refine ⟨rfl, s.way_logged level part message, ?_⟩
  obtain ⟨l', -, hadd⟩ := s.log.exists_add_eq level part message
  change (s.log.add s.files level part message).2 = s.files ∨
    ∃ out, s.log.file.map (·.way) = some out ∧
      Alike out s.files (s.log.add s.files level part message).2
  rcases hadd with hadd | ⟨f, bytes, hfile, hadd⟩
  · exact .inl (by rw [hadd])
  · rw [hadd, hfile]
    rcases s.files.alike_writeAt f.way f.position bytes with hsame | halike
    · exact .inl hsame
    · exact .inr ⟨f.way, rfl, halike⟩

/-- An action whose answer depends on the place and the files alone, and not on what the file of the
log holds, answers the same after some logging. -/
theorem OnlyLogged.answer_eq (h : OnlyLogged s s') {x : Action α}
    (hview : ∀ s s' : System, s'.place = s.place → s'.files = s.files → answer x s' = answer x s)
    (hlog : ∀ out s', s.log.file.map (·.way) = some out → SystemsAlike out s s' →
      SameResult out (x s) (x s')) : answer x s' = answer x s := by
  rcases h.files with hfiles | ⟨out, hout, halike⟩
  · exact hview s s' h.place hfiles
  · have hsame := hlog out { s with files := s'.files } hout ⟨halike, rfl⟩
    have hanswer : answer x { s with files := s'.files } = answer x s := by
      unfold answer
      generalize x s = result at hsame
      generalize x { s with files := s'.files } = result' at hsame
      cases hsame <;> rfl
    rw [← hanswer]
    exact hview _ s' h.place rfl

/-! ## Reading the project again -/

theorem withProjectOptions_again (o : Options) (p : Configuration.Project) :
    withProjectOptions (withProjectOptions o p) p = withProjectOptions o p := by
  unfold withProjectOptions
  cases nonempty? p.outDir <;> cases nonempty? p.moduleResolution <;> rfl

/-- Taking in the project once more changes nothing, whether it is read again or not. -/
theorem projectOptions_again (h : projectOptions s o = .ok o') : projectOptions s o' = .ok o' := by
  rcases projectOptions_cases h with rfl | ⟨-, e, p, hprobe, hload, rfl⟩
  · exact h
  · have hfile : projectFile s (withProjectOptions o p) = projectFile s o := rfl
    rw [← hfile] at hprobe hload
    by_cases hgiven : ((withProjectOptions o p).project.isNone &&
        !(withProjectOptions o p).files.isEmpty) = true
    · exact if_pos hgiven
    · rw [projectOptions_of_load hgiven hprobe hload, withProjectOptions_again]

/-- The project files of the options with the project are none but those of the options. -/
theorem projectFiles_again (h : projectOptions s o = .ok o') {l : Location}
    (hl : l ∈ projectFiles o' s) : l ∈ projectFiles o s := by
  rcases projectOptions_cases h with rfl | ⟨hgiven, e, p, hprobe, hload, rfl⟩
  · exact hl
  · unfold projectFiles at hl ⊢
    rw [if_neg hgiven]
    split at hl
    · cases hl
    · simpa only [withProjectOptions] using hl

theorem OnlyLogged.projectOptions_eq (h : OnlyLogged s s') (o : Options)
    (hread : ∀ out, s.log.file.map (·.way) = some out → ∀ l ∈ projectFiles o s,
      s.files.way s.place l.path ≠ .ok out) : projectOptions s' o = projectOptions s o := by
  rw [← answer_withProject, ← answer_withProject]
  refine h.answer_eq ?_ fun out _ hout halike => sameResult_withProject halike o (hread out hout)
  intro s s' hplace hfiles
  rw [answer_withProject, answer_withProject]
  simp only [projectOptions, projectFile, hplace, hfiles]

theorem OnlyLogged.answer_plan_eq (grammar : Declaration.Grammar) (h : OnlyLogged s s')
    (o : Options) : answer (plan grammar o) s' = answer (plan grammar o) s := by
  refine h.answer_eq ?_ fun out _ _ halike => sameResult_plan grammar halike o
  intro s s' hplace hfiles
  rw [answer_plan, answer_plan]
  have hplanned : planned grammar s' o = planned grammar s o := by
    funext outDir
    simp only [planned, hplace, hfiles]
  rw [hplace, hplanned]

/-! ## What a run does -/

/-- A compiler that answers by the request alone, and touches nothing. -/
def answering (answers : Request → Except Fault Compilation) : Compiler := fun request =>
  match answers request with
  | .ok c => pure c
  | .error e => throw e

/-- What a run on a document comes to, as far as it depends on what it finds: how it ends and with
which document, the options that it leaves and what it asks the compiler for. -/
structure Outcome where
  ended : Except Fault Unit × Option Document
  options : Options
  asked : List Request

/-- The script of a run whose compiler answers by the request alone. -/
def answeredScript (answers : Request → Except Fault Compilation) (o : Options) (p : Plan) :
    Script :=
  match answers p.request with
  | .ok c => compilationScript o p.assembly c
  | .error e => ⟨[], some e⟩

/-- The outcome of a run. -/
def outcome (grammar : Declaration.Grammar) (answers : Request → Except Fault Compilation)
    (s : System) (o : Options) (d : Document) : Outcome :=
  match projectOptions s o with
  | .error e => ⟨(.error e, some d), o, []⟩
  | .ok o' =>
    match answer (plan grammar o') s with
    | .error e => ⟨(.error e, some d), o', []⟩
    | .ok p => ⟨(answeredScript answers o' p).closedOn d, o', [p.request]⟩

variable {answers : Request → Except Fault Compilation} {d : Document} {r : Run}

theorem observe_eq {α : Type} (step : Step α) (r : Run) :
    observe step r = (answer step r, (after step r).document) := by
  unfold observe answer after
  cases step r <;> rfl

theorem plannedScript_answering (o : Options) (p : Plan) (asked : System) :
    plannedScript (answering answers) o p asked = answeredScript answers o p := by
  unfold plannedScript answeredScript answering
  cases answers p.request <;> rfl

/-- Whether a run has come from another one by logging and writing in memory. -/
def Continues (r r' : Run) : Prop :=
  r'.options = r.options ∧ OnlyLogged r.system r'.system

theorem isCourse_continues : IsCourse Continues where
  refl r := ⟨rfl, isCourse_onlyLogged.refl r.system⟩
  trans h h' := ⟨h'.1.trans h.1, isCourse_onlyLogged.trans h.2 h'.2⟩

theorem carries_continues_progress (message : String) :
    Carries Continues (Step.progress message) :=
  fun r => ⟨rfl, carries_onlyLogged_log _ _ _ r.system⟩

theorem carries_continues_ofDocument (use : Document → Except Fault Unit × Document) :
    Carries Continues (Step.ofDocument use) := by
  intro r
  unfold after Step.ofDocument
  rcases use (r.document.getD {}) with ⟨_ | _, next⟩ <;>
    exact ⟨rfl, isCourse_onlyLogged.refl r.system⟩

theorem carries_continues_ask (answers : Request → Except Fault Compilation) (request : Request) :
    Carries Continues (Step.ask (answering answers) request) := by
  intro r
  unfold after Step.ask Step.ofAction answering
  simp only [bind, EStateM.bind, Step.modify_eq]
  cases answers request <;> exact ⟨rfl, isCourse_onlyLogged.refl r.system⟩

/-- A document in memory is closed without touching a file. -/
theorem continues_closeDocument (hd : r.document = some d) (hfile : d.file = none) :
    Continues r (left Step.closeDocument r) := by
  have hsave : ∀ files, d.close.2.save files = files := by
    intro files
    rw [Document.save, d.file_close, hfile]
  have hleft : left Step.closeDocument r = { r with document := some d.close.2 } := by
    unfold left Step.closeDocument
    simp only [hd, Option.getD_some, hsave, ite_self]
    cases d.close.1 <;> rfl
  rw [hleft]
  exact ⟨rfl, isCourse_onlyLogged.refl r.system⟩

/-- A run that has a document in memory does nothing to files but log. -/
theorem continues_closing_ask (answers : Request → Except Fault Compilation) {p : Plan}
    (hd : r.document = some d) (hfile : d.file = none) :
    Continues r (left (Step.closing (Step.ask (answering answers) p.request >>=
      writeCompilation o p.assembly)) r) := by
  have hwritten := (carries_continues_ask answers p.request).bind isCourse_continues
    (carries_writeCompilation isCourse_continues carries_continues_progress
      carries_continues_ofDocument o p.assembly) r
  have hasked := observe_ask (answering answers) o p hd
  rw [observe_eq] at hasked
  obtain ⟨-, hdocument⟩ := Prod.mk.inj hasked
  rw [left_closing, left_eq_after (_ >>= _)]
  exact isCourse_continues.trans hwritten
    (continues_closeDocument hdocument ((Script.file_playOn _ d).trans hfile))

/-- A run on a document in memory has the outcome that its options and what it finds make, and has
done nothing to files but log. -/
theorem generate_outcome (grammar : Declaration.Grammar)
    (answers : Request → Except Fault Compilation) (hd : r.document = some d)
    (hfile : d.file = none) :
    observe (generate grammar (answering answers)) r =
        (outcome grammar answers r.system r.options d).ended ∧
      (left (generate grammar (answering answers)) r).options =
        (outcome grammar answers r.system r.options d).options ∧
      (left (generate grammar (answering answers)) r).requests =
        r.requests ++ (outcome grammar answers r.system r.options d).asked ∧
      OnlyLogged r.system (left (generate grammar (answering answers)) r).system := by
  have hproject := answer_withProject r.options r.system
  have hread := carries_withProject isCourse_onlyLogged carries_onlyLogged_log r.options r.system
  cases hrun : withProject r.options r.system with
  | error fault read =>
    rw [answer, hrun] at hproject
    rw [after, hrun] at hread
    simp only [observe, left, generate_eq_of_project _ hrun, outcome, ← hproject, hd,
      List.append_nil, true_and]
    exact hread
  | ok o read =>
    rw [answer, hrun] at hproject
    rw [after, hrun] at hread
    have hplan := hread.answer_plan_eq grammar o
    have hmade := after_plan_of_withProject isCourse_onlyLogged carries_onlyLogged_log grammar
      hrun
    cases hplanned : plan grammar o read with
    | error fault made =>
      rw [answer, hplanned] at hplan
      rw [after, hplanned] at hmade
      simp only [observe, left, generate_eq_of_plan _ hrun hplanned, outcome, ← hproject, ← hplan,
        hd, List.append_nil, true_and]
      exact hmade
    | ok p made =>
      rw [answer, hplanned] at hplan
      rw [after, hplanned] at hmade
      have hends := observe_generate_of_plan (answering answers) hrun hplanned hd
      have hcontinues := continues_closing_ask answers
        (r := { r with options := o, system := made }) (o := o) (p := p) hd hfile
      have hasks := asks_closing_ask (answering answers) o p { r with options := o, system := made }
      rw [plannedScript_answering] at hends
      simp only [outcome, ← hproject, ← hplan, left_generate_of_plan _ hrun hplanned hd]
      exact ⟨hends, hcontinues.1, hasks, isCourse_onlyLogged.trans hmade hcontinues.2⟩

/-- A run that is repeated after some logging, on the options that it leaves, has the same outcome.
It may read the project again, which is as it was. -/
theorem OnlyLogged.outcome_again (grammar : Declaration.Grammar) (h : OnlyLogged s s')
    (answers : Request → Except Fault Compilation) (d : Document)
    (hread : ∀ out, s.log.file.map (·.way) = some out → ∀ l ∈ projectFiles o s,
      s.files.way s.place l.path ≠ .ok out) :
    outcome grammar answers s' (outcome grammar answers s o d).options d =
      outcome grammar answers s o d := by
  unfold outcome
  cases hproject : projectOptions s o with
  | error e =>
    have hagain : projectOptions s' o = .error e := (h.projectOptions_eq o hread).trans hproject
    simp only [hagain]
  | ok o' =>
    have hagain : projectOptions s' o' = .ok o' :=
      (h.projectOptions_eq o' fun out hout l hl =>
        hread out hout l (projectFiles_again hproject hl)).trans (projectOptions_again hproject)
    have hplan := h.answer_plan_eq grammar o'
    cases hplanned : answer (plan grammar o') s <;> simp only [hagain, hplan, hplanned]

/-- A run on a document in memory that is repeated, on the options that it has left and another
document like its own, ends as it did with the same document.  It asks the compiler for the same
again, and leaves the options as they are. -/
theorem generate_repeats (grammar : Declaration.Grammar)
    (answers : Request → Except Fault Compilation) (r : Run) (d : Document) (hmemory : d.file = none)
    (hlog : ∀ out, r.system.log.file.map (·.way) = some out → ∀ l ∈ projectFiles r.options r.system,
      r.system.files.way r.system.place l.path ≠ .ok out) :
    let first := left (generate grammar (answering answers)) { r with document := some d }
    let again := { first with document := some d }
    observe (generate grammar (answering answers)) again =
        observe (generate grammar (answering answers)) { r with document := some d } ∧
      (left (generate grammar (answering answers)) again).options = first.options ∧
      ∃ asked, first.requests = r.requests ++ asked ∧
        (left (generate grammar (answering answers)) again).requests = first.requests ++ asked := by
  intro first again
  obtain ⟨hends, hoptions, hasks, hlogged⟩ :=
    generate_outcome grammar answers (r := { r with document := some d }) rfl hmemory
  obtain ⟨hends', hoptions', hasks', -⟩ := generate_outcome grammar answers (r := again) rfl hmemory
  have hsame : outcome grammar answers first.system first.options d =
      outcome grammar answers r.system r.options d := by
    rw [show first.options = _ from hoptions]
    exact hlogged.outcome_again grammar answers d hlog
  change observe _ again = (outcome grammar answers first.system first.options d).ended at hends'
  change (left _ again).options =
    (outcome grammar answers first.system first.options d).options at hoptions'
  change (left _ again).requests =
    first.requests ++ (outcome grammar answers first.system first.options d).asked at hasks'
  rw [hsame] at hends' hoptions' hasks'
  exact ⟨hends'.trans hends.symm, hoptions'.trans hoptions.symm, _, hasks, hasks'⟩

/-- A run that has its files from the project in its base directory, and logs beside that. -/
def unlistedRun : Run where
  options := { name := "lib", out := .ofPath "lib.d.ts", baseDir := some (.ofPath "/p") }
  system := { listedRun.system with log := { file := some { way := ["p", "lib.log"] } } }
  document := some {}

/-- A run that stops at a file which the compiler has skipped does so again, although it has its
files from the options the second time and not from the project. -/
theorem generate_repeats_unlisted :
    let step := generate plainGrammar (answering fun _ => .ok skippedInside)
    let first := left step unlistedRun
    let again := { first with document := some {} }
    (observe step unlistedRun).1 = .error (.emission []) ∧
      observe step again = observe step unlistedRun ∧
      unlistedRun.options.files = [] ∧ first.options.files = ["/p/a.d.ts", "/p/lib.d.ts"] ∧
      first.requests.length = 1 ∧ (left step again).requests = first.requests ++ first.requests := by
  intro step first again
  obtain ⟨hsame, -, asked, hfirst, hagain⟩ := generate_repeats plainGrammar
    (fun _ => .ok skippedInside) unlistedRun {} rfl (by
      have hfiles : projectFiles unlistedRun.options unlistedRun.system = [listedProject.file] := by
        decide +kernel
      rw [hfiles]
      decide +kernel)
  have hrun : (observe step unlistedRun).1 = .error (.emission []) ∧
      first.options.files = ["/p/a.d.ts", "/p/lib.d.ts"] ∧ first.requests.length = 1 := by
    decide +kernel
  refine ⟨hrun.1, hsame, rfl, hrun.2.1, hrun.2.2, ?_⟩
  change first.requests = asked at hfirst
  change (left step again).requests = first.requests ++ asked at hagain
  rwa [← hfirst] at hagain

end Bundle

end DeclBundle
