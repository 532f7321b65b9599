import DeclBundle.Proofs.Bundle.Planning
import DeclBundle.Proofs.Configuration.FilesRead
import DeclBundle.Proofs.Document.Opening
import DeclBundle.Proofs.Log
set_option autoImplicit false

/-!
# What the output file held before

A run opens its output file before it asks the compiler, and opening empties the file.  Until then
nothing is read but the files of the project.  So two runs that differ only in what the output file
held are the same run from the opening on, whatever the compiler looks at; and if they do not get
there, they end with the same fault and leave the file as it was (`generate_eq_of_alike`).
-/

namespace DeclBundle.Bundle

open DeclBundle.Configuration (Options)
open DeclBundle.Files (Way Entry)
open DeclBundle.Files.FileTree (Alike SameKinds)

variable {grammar : Declaration.Grammar} {out : Way} {s s' : System} {α β : Type}

/-! ## Actions that do not look into the file -/

/-- Whether two systems are alike but for what one file holds. -/
structure SystemsAlike (out : Way) (s s' : System) : Prop where
  files : Alike out s.files s'.files
  rest : s' = { s with files := s'.files }

theorem SystemsAlike.place_eq (h : SystemsAlike out s s') : s'.place = s.place := by
  rw [h.rest]

/-- Whether two results are the same but for what one file holds. -/
inductive SameResult (out : Way) :
    EStateM.Result Fault System α → EStateM.Result Fault System α → Prop where
  | ok {a : α} {s s' : System} (h : SystemsAlike out s s') : SameResult out (.ok a s) (.ok a s')
  | error {e : Fault} {s s' : System} (h : SystemsAlike out s s') :
      SameResult out (.error e s) (.error e s')

theorem SameResult.exists_ok {a : α} {result : EStateM.Result Fault System α}
    (h : SameResult out (.ok a s) result) : ∃ s', result = .ok a s' ∧ SystemsAlike out s s' := by
  cases h with
  | ok h => exact ⟨_, rfl, h⟩

theorem SameResult.exists_error {e : Fault} {result : EStateM.Result Fault System α}
    (h : SameResult out (.error e s) result) :
    ∃ s', result = .error e s' ∧ SystemsAlike out s s' := by
  cases h with
  | error h => exact ⟨_, rfl, h⟩

/-- Whether two actions give the same on systems that are alike, and leave them alike. -/
def Agree (out : Way) (x x' : Action α) : Prop :=
  ∀ s s', SystemsAlike out s s' → SameResult out (x s) (x' s')

theorem agree_pure (a : α) : Agree out (pure a) (pure a) :=
  fun _ _ h => .ok h

theorem agree_throw (e : Fault) : Agree out (throw e : Action α) (throw e) :=
  fun _ _ h => .error h

theorem Agree.bind {x x' : Action α} {f f' : α → Action β} (hx : Agree out x x')
    (hf : ∀ a, Agree out (f a) (f' a)) : Agree out (x >>= f) (x' >>= f') := by
  intro s s' h
  have hresult := hx s s' h
  simp only [Bind.bind, EStateM.bind]
  generalize x s = result at hresult
  generalize x' s' = result' at hresult
  cases hresult with
  | ok h => exact hf _ _ _ h
  | error h => exact .error h

/-- Logging does not look into files, even where it writes to one. -/
theorem agree_log (level : Level) (part message : String) :
    Agree out (Action.log level part message) (Action.log level part message) := by
  intro s s' h
  have hlog : (s.log.add s'.files level part message).1 = (s.log.add s.files level part message).1 ∧
      Alike out (s.log.add s.files level part message).2
        (s.log.add s'.files level part message).2 := by
    obtain ⟨l', -, hadd | ⟨f, bytes, -, hadd⟩⟩ := s.log.exists_add_eq level part message
    · rw [hadd, hadd]
      exact ⟨rfl, h.files⟩
    · rw [hadd, hadd]
      exact ⟨rfl, h.files.writeAt _ _ _⟩
  refine .ok ⟨?_, ?_⟩
  · rw [h.rest]
    exact hlog.2
  · rw [h.rest]
    simp only [System.logged, hlog.1]

/-- An action that starts by looking at the system may go on with what it finds there. -/
theorem SameResult.get_bind {f f' : System → Action α} (h : SameResult out (f s s) (f' s' s')) :
    SameResult out ((get >>= f) s) ((get >>= f') s') :=
  h

theorem agree_logList (heading : String) (items : List String) :
    Agree out (logList heading items) (logList heading items) := by
  refine (agree_log _ _ _).bind fun _ => ?_
  induction items with
  | nil => exact agree_pure ()
  | cons item items ih => exact (agree_log _ _ _).bind fun _ => ih

theorem agree_outputDirectory? (base : String) (o : Options) :
    Agree out (outputDirectory? base o) (outputDirectory? base o) := by
  unfold outputDirectory?
  split
  · exact agree_pure none
  · refine (agree_log _ _ _).bind fun _ => ?_
    split
    · exact agree_pure _
    · exact agree_throw _

/-! ## The project files of a run -/

/-- The project files that a run opens, in order. -/
def projectFiles (o : Options) (s : System) : List Location :=
  if o.project.isNone && !o.files.isEmpty then []
  else
    let directory := (o.project.or o.baseDir).getD (.ofPath s.place.workingDirectory)
    let file := (directory.child Configuration.projectFileName).path
    match s.files.probe s.place file with
    | .ok (some _) =>
      Configuration.Merged.filesRead s.files s.place (Files.resolve s.place file)
    | _ => []

theorem sameResult_withProject (h : SystemsAlike out s s') (o : Options)
    (hread : ∀ l ∈ projectFiles o s, s.files.way s.place l.path ≠ .ok out) :
    SameResult out (withProject o s) (withProject o s') := by
  unfold withProject
  unfold projectFiles at hread
  split
  · exact agree_pure o s s' h
  · rename_i hgiven
    rw [if_neg hgiven] at hread
    refine .get_bind ?_
    rw [h.place_eq]
    refine Agree.bind (agree_log _ _ _) (fun _ => ?_) s s' h
    generalize (o.project.or o.baseDir).getD (.ofPath s.place.workingDirectory) = directory at hread ⊢
    dsimp only at hread ⊢
    rcases h.files.sameKinds.probe_cases s.place
        (directory.child Configuration.projectFileName).path with
      ⟨fault, ht, ht'⟩ | ⟨ht, ht'⟩ | ⟨e, e', ht, ht', -⟩
    · rw [ht, ht']
      exact agree_throw _
    · simp only [ht, ht', Action.ofFiles, pure_bind]
      exact (agree_log _ _ _).bind fun _ => agree_throw _
    · simp only [ht, ht', Action.ofFiles, pure_bind]
      rw [ht] at hread
      refine (agree_log _ _ _).bind fun _ => ?_
      rw [Configuration.Project.load_eq h.files hread]
      split
      · exact agree_throw _
      · exact agree_pure _

theorem sameResult_plan (grammar : Declaration.Grammar) (h : SystemsAlike out s s') (o : Options) :
    SameResult out (plan grammar o s) (plan grammar o s') := by
  have hexcludes : ∀ base patterns,
      expandExcludes s'.files s.place base patterns = expandExcludes s.files s.place base patterns := by
    intro base patterns
    simp only [expandExcludes, Files.Globe.expand_eq h.files]
  unfold plan
  refine .get_bind ?_
  simp only [h.place_eq, hexcludes]
  refine Agree.bind (agree_log _ _ _) (fun _ => ?_) s s' h
  refine (agree_log _ _ _).bind fun _ => ?_
  refine (agree_outputDirectory? _ o).bind fun outDir => ?_
  have hlists : ∀ (files patterns : List String) (p : Plan),
      Agree out (do
        logList "filenames:" files
        logList "exclude:" patterns
        return p) (do
        logList "filenames:" files
        logList "exclude:" patterns
        return p) := fun _ _ p =>
    (agree_logList _ _).bind fun _ => (agree_logList _ _).bind fun _ => agree_pure p
  split
  · exact (agree_log _ _ _).bind fun _ => hlists _ _ _
  · exact hlists _ _ _

/-! ## What is kept until the output is opened -/

/-- Whether an action only ever gives what has a property. -/
def Gives (P : α → Prop) (x : Action α) : Prop :=
  ∀ s a s', x s = .ok a s' → P a

theorem gives_pure {P : α → Prop} {a : α} (h : P a) : Gives P (pure a) := by
  intro s b s' hb
  obtain ⟨rfl, -⟩ := EStateM.Result.ok.inj hb
  exact h

theorem gives_throw {P : α → Prop} (e : Fault) : Gives P (throw e) :=
  fun _ _ _ h => nomatch h

theorem gives_bind {P : β → Prop} {x : Action α} {f : α → Action β} (hf : ∀ a, Gives P (f a)) :
    Gives P (x >>= f) := by
  intro s b s' hb
  simp only [Bind.bind, EStateM.bind] at hb
  split at hb
  · exact hf _ _ _ _ hb
  · cases hb

/-- A project says nothing about where the bundle goes. -/
theorem gives_out_withProject (o : Options) : Gives (fun o' => o'.out = o.out) (withProject o) := by
  unfold withProject
  split
  · exact gives_pure rfl
  · refine gives_bind fun s => gives_bind fun _ => gives_bind fun found => ?_
    split
    · exact gives_bind fun _ => gives_throw _
    · refine gives_bind fun _ => ?_
      split
      · exact gives_throw _
      · exact gives_pure rfl

/-- Where a system works, what it has started, and where its directories and files are. -/
def outline (s : System) : Files.Place × List Invocation × (Way → Option Bool) :=
  (s.place, s.invocations, s.files.kind?)

theorem carries_outline_log (level : Level) (part message : String) :
    Carries (fun s s' => outline s' = outline s) (Action.log level part message) := by
  intro s
  change (s.place, s.invocations, (s.log.add s.files level part message).2.kind?) = outline s
  obtain ⟨l', -, hadd | ⟨f, bytes, -, hadd⟩⟩ := s.log.exists_add_eq level part message
  · rw [hadd]
    rfl
  · rw [hadd]
    exact congrArg (fun kinds => (s.place, s.invocations, kinds))
      (funext (Files.FileTree.sameKinds_writeAt s.files f.way f.position bytes))

/-- The file of the log and what stands at the end of a way, unless that is this file. -/
def besideLog (out : Way) (s : System) : Option Way × Option Entry :=
  (s.log.file.map (·.way), if s.log.file.map (·.way) = some out then none else s.files.entry? out)

/-- Where that is the same, so is what stands at the end of the way, apart from the file of the
log. -/
theorem entry?_of_besideLog (h : besideLog out s' = besideLog out s)
    (hlog : s.log.file.map (·.way) ≠ some out) : s'.files.entry? out = s.files.entry? out := by
  simp only [besideLog, Prod.mk.injEq] at h
  obtain ⟨hfile, hentry⟩ := h
  rwa [hfile, if_neg hlog, if_neg hlog] at hentry

theorem carries_besideLog_log (out : Way) (level : Level) (part message : String) :
    Carries (fun s s' => besideLog out s' = besideLog out s) (Action.log level part message) := by
  intro s
  change besideLog out (s.logged level part message) = besideLog out s
  unfold besideLog
  rw [s.way_logged]
  split
  · rfl
  · rename_i hne
    rw [System.entry?_logged_of_ne hne]

/-! ## Runs over a file -/

/-- The run with another content in a file. -/
def Run.holding (r : Run) (out : Way) (content : List UInt8) : Run :=
  { r with system := { r.system with files := r.system.files.put out (.file content) } }

/-- Whether a run is to open its output over a file that is there and is none of its project
files. -/
structure IsOver (out : Way) (r : Run) : Prop where
  document : r.document = none
  names : r.options.out.HasNames
  way : r.system.files.way r.system.place r.options.out.path = .ok out
  file : r.system.files.HasFile out
  unread : ∀ l ∈ projectFiles r.options r.system, r.system.files.way r.system.place l.path ≠ .ok out

variable {r : Run} {other : List UInt8}

theorem IsOver.systemsAlike (h : IsOver out r) (other : List UInt8) :
    SystemsAlike out r.system (r.holding out other).system :=
  ⟨h.file.alike_put other, rfl⟩

/-- Opening the output over a file empties it and changes nothing else. -/
theorem openDocument_eq (hdocument : r.document = none) (hnames : r.options.out.HasNames)
    (hway : r.system.files.way r.system.place r.options.out.path = .ok out)
    (hfile : r.system.files.HasFile out) :
    Step.openDocument r = .ok () { r with
      document := some { name := r.options.out.path, file := some out }
      system := { r.system with files := r.system.files.put out (.file []) } } := by
  unfold Step.openDocument
  simp only [hdocument, Document.openFile_eq hnames hway hfile]

theorem way_of_outline {made : System} (h : outline made = outline s) (path : String) :
    made.files.way made.place path = s.files.way s.place path := by
  simp only [outline, Prod.mk.injEq] at h
  obtain ⟨hplace, -, hkinds⟩ := h
  rw [hplace]
  exact SameKinds.way_eq (fun way => congrFun hkinds way) s.place path

/-- Until the output is opened it leads where it led. -/
theorem way_of_plan {o : Options} {p : Plan} {read made : System}
    (hproject : withProject r.options r.system = .ok o read)
    (hplan : plan grammar o read = .ok p made) (path : String) :
    made.files.way made.place path = r.system.files.way r.system.place path := by
  have houtline :=
    after_plan_of_withProject (isCourse_view outline) carries_outline_log grammar hproject
  rw [after, hplan] at houtline
  exact way_of_outline houtline path

/-- A run that gets as far as opening its output does not show what the file held. -/
theorem IsOver.generate_eq (compiler : Compiler) (h : IsOver out r)
    (hplanned : IsPlanned grammar r) (other : List UInt8) :
    generate grammar compiler (r.holding out other) = generate grammar compiler r := by
  obtain ⟨o, read, p, made, hproject, hplan⟩ := hplanned
  have hread := sameResult_withProject (h.systemsAlike other) r.options h.unread
  rw [hproject] at hread
  obtain ⟨read', hproject', hread⟩ := hread.exists_ok
  have hmade := sameResult_plan grammar hread o
  rw [hplan] at hmade
  obtain ⟨made', hplan', hmade⟩ := hmade.exists_ok
  have hout : o.out = r.options.out := gives_out_withProject r.options _ _ _ hproject
  have hnames : o.out.HasNames := by
    rw [hout]
    exact h.names
  have hway : made.files.way made.place o.out.path = .ok out := by
    rw [way_of_plan hproject hplan, hout]
    exact h.way
  have hway' : made'.files.way made'.place o.out.path = .ok out := by
    rw [hmade.place_eq, hmade.files.sameKinds.way_eq]
    exact hway
  have hopen := openDocument_eq (r := { r with options := o, system := made }) h.document hnames hway
    hmade.files.hasFile
  have hopen' := openDocument_eq
    (r := { r.holding out other with options := o, system := made' }) h.document hnames hway'
    hmade.files.hasFile'
  rw [generate_eq_opening compiler hproject hplan, generate_eq_opening compiler hproject' hplan']
  -- the opening is where the two runs become the same
  simp only [Bind.bind, EStateM.bind, hopen, hopen', hmade.files.put_eq]
  rw [hmade.rest]
  rfl

/-! ## Runs that do not open their output -/

/-- Whether a run has ended before it opened its output: it has asked and started nothing, and a file
that is not the file of the log holds what it held. -/
structure Unopened (out : Way) (r ended : Run) : Prop where
  document : ended.document = r.document
  requests : ended.requests = r.requests
  invocations : ended.system.invocations = r.system.invocations
  entry : r.system.log.file.map (·.way) ≠ some out →
    ended.system.files.entry? out = r.system.files.entry? out

/-- A run without a plan does not open its output. -/
theorem Refused.unopened (compiler : Compiler) (out : Way) {fault : Fault}
    (h : Refused grammar r fault) :
    ∃ ended, generate grammar compiler r = .error fault ended ∧ Unopened out r ended := by
  have hkept : ∀ made, outline made = outline r.system →
      besideLog out made = besideLog out r.system → ∀ o,
      Unopened out r { r with options := o, system := made } := by
    intro made houtline hbeside o
    simp only [outline, Prod.mk.injEq] at houtline
    exact ⟨rfl, rfl, houtline.2.1, entry?_of_besideLog hbeside⟩
  have hlog := carries_besideLog_log out
  cases h with
  | @project _ read h =>
    have houtline := carries_withProject (isCourse_view outline) carries_outline_log r.options
      r.system
    have hbeside := carries_withProject (isCourse_view (besideLog out)) hlog r.options r.system
    rw [after, h] at houtline hbeside
    exact ⟨_, generate_eq_of_project compiler h, hkept read houtline hbeside r.options⟩
  | @plan o _ read made h hplan =>
    have houtline := after_plan_of_withProject (isCourse_view outline) carries_outline_log grammar h
    have hbeside := after_plan_of_withProject (isCourse_view (besideLog out)) hlog grammar h
    rw [after, hplan] at houtline hbeside
    exact ⟨_, generate_eq_of_plan compiler h hplan, hkept made houtline hbeside o⟩

/-- Runs that are alike are refused alike. -/
theorem IsOver.refused_alike (compiler : Compiler) (h : IsOver out r) {fault : Fault}
    (hrefused : Refused grammar r fault) (other : List UInt8) :
    Refused grammar (r.holding out other) fault ∧
      ∃ ended system', generate grammar compiler r = .error fault ended ∧
        generate grammar compiler (r.holding out other) =
          .error fault { ended with system := system' } ∧
        SystemsAlike out ended.system system' := by
  have hread := sameResult_withProject (h.systemsAlike other) r.options h.unread
  cases hrefused with
  | @project _ read hproject =>
    rw [hproject] at hread
    obtain ⟨read', hproject', hread⟩ := hread.exists_error
    exact ⟨.project hproject', _, read', generate_eq_of_project compiler hproject,
      generate_eq_of_project compiler hproject', hread⟩
  | @plan o _ read made hproject hplan =>
    rw [hproject] at hread
    obtain ⟨read', hproject', hread⟩ := hread.exists_ok
    have hmade := sameResult_plan grammar hread o
    rw [hplan] at hmade
    obtain ⟨made', hplan', hmade⟩ := hmade.exists_error
    exact ⟨.plan hproject' hplan', _, made', generate_eq_of_plan compiler hproject hplan,
      generate_eq_of_plan compiler hproject' hplan', hmade⟩

/-! ## Runs that differ in what their output held -/

/-- Two runs over the same output file that differ in what it held, which is none of their project
files: if their configuration passes, they are the same run, with the same result and the same files,
whatever the compiler looks at.  Otherwise both end with the fault of the configuration and have
started nothing; their logs and files are the same, save that the output file still holds what it
held, unless it is the file of the log. -/
theorem generate_eq_of_alike (grammar : Declaration.Grammar) (compiler : Compiler)
    (h : IsOver out r) (other : List UInt8) :
    (IsPlanned grammar r ∧
        generate grammar compiler (r.holding out other) = generate grammar compiler r) ∨
      ∃ fault ended system', Refused grammar r fault ∧
        generate grammar compiler r = .error fault ended ∧
        generate grammar compiler (r.holding out other) =
          .error fault { ended with system := system' } ∧
        SystemsAlike out ended.system system' ∧
        Unopened out r ended ∧
        Unopened out (r.holding out other) { ended with system := system' } := by
  rcases isPlanned_or_refused grammar r with hplanned | ⟨fault, hrefused⟩
  · exact .inl ⟨hplanned, h.generate_eq compiler hplanned other⟩
  · obtain ⟨hrefused', ended, system', hended, hended', halike⟩ :=
      h.refused_alike compiler hrefused other
    obtain ⟨last, hlast, hunopened⟩ := hrefused.unopened compiler out
    obtain ⟨last', hlast', hunopened'⟩ := hrefused'.unopened compiler out
    rw [hended] at hlast
    rw [hended'] at hlast'
    obtain ⟨-, rfl⟩ := EStateM.Result.error.inj hlast
    obtain ⟨-, rfl⟩ := EStateM.Result.error.inj hlast'
    exact .inr ⟨fault, ended, system', hrefused, hended, hended', halike, hunopened, hunopened'⟩

/-! ## An output that is an input, and an output that stays -/

/-- The bytes of a text. -/
def bytes (text : String) : List UInt8 :=
  Utf8.encode text.toList

/-- A run whose project lists the output file of the run. -/
def listedRun : Run where
  options := {
    name := "lib"
    out := .ofPath "lib.d.ts"
    project := some (.ofPath "/p")
    exclude := some [] }
  system := {
    place := { workingDirectory := "/p", home := "/" }
    files := ⟨[(["tmp"], .directory), (["p"], .directory),
      (["p", "tsconfig.json"], .file (bytes "\x7b\"files\": [\"a.d.ts\", \"lib.d.ts\"]\x7d")),
      (["p", "a.d.ts"], .file (bytes "export \x7b\x7d;")),
      (["p", "lib.d.ts"], .file (bytes "export const old: 1;"))]⟩ }

/-- A compiler that lists an input and the output file. -/
def outputListing : CommandCompiler where
  runner _ files := (.ok "/p/a.d.ts\n/p/lib.d.ts\n", files)

/-- The project that lists the output file. -/
def listedProject : Configuration.Project where
  file := ⟨1, ["p", "tsconfig.json"]⟩
  inputs := ["/p/a.d.ts", "/p/lib.d.ts"]

theorem load_listedProject :
    Configuration.Project.load listedRun.system.files listedRun.system.place listedProject.file =
      .ok listedProject := by
  have hload : (match Configuration.Project.load listedRun.system.files listedRun.system.place
      listedProject.file with
    | .ok p => decide (p = listedProject)
    | .error _ => false) = true := by
    decide +kernel
  split at hload
  · rename_i p hp
    rw [hp, of_decide_eq_true hload]
  · cases hload

theorem isOver_listedRun : IsOver ["p", "lib.d.ts"] listedRun where
  document := rfl
  names := Location.hasNames_ofPath _
  way := rfl
  file := ⟨_, rfl⟩
  unread := by
    have hfiles : projectFiles listedRun.options listedRun.system = [listedProject.file] := by
      decide +kernel
    rw [hfiles]
    decide +kernel

/-- The options of the run with its project. -/
def listedOptions : Options :=
  withProjectOptions listedRun.options listedProject

/-- The system once the project has been read. -/
def listedRead : System :=
  after (withProject listedRun.options) listedRun.system

theorem withProject_listedRun :
    withProject listedRun.options listedRun.system = .ok listedOptions listedRead := by
  refine answer_eq_ok_iff.1 ((answer_withProject _ _).trans ?_)
  exact projectOptions_of_load (e := .file _) (by decide) rfl load_listedProject

theorem plan_listedOptions :
    plan plainGrammar listedOptions listedRead =
      .ok (planned plainGrammar listedRead listedOptions none)
        (after (plan plainGrammar listedOptions) listedRead) :=
  answer_eq_ok_iff.1 (answer_plan_eq_ok_iff.2 ⟨none, rfl, rfl⟩)

/-- The bundle of a run whose output file is among its inputs has nothing in it of what that file
held. -/
theorem generate_eq_of_alike_listed :
    ∃ ended, generate plainGrammar outputListing.compile listedRun = .ok () ended ∧
      generate plainGrammar outputListing.compile
          (listedRun.holding ["p", "lib.d.ts"] (bytes "let other")) = .ok () ended ∧
      ended.system.files.entry? ["p", "lib.d.ts"] =
        some (.file (bytes "declare module 'lib/a' \x7b\n\texport \x7b\x7d;\n\x7d\n")) := by
  have hplanned : IsPlanned plainGrammar listedRun :=
    ⟨_, _, _, _, withProject_listedRun, plan_listedOptions⟩
  obtain ⟨step, opened, hrun, hends, hbundle⟩ : ∃ (step : Step Unit) (opened : Run),
      generate plainGrammar outputListing.compile listedRun = step opened ∧
        answer step opened = .ok () ∧
        Files.FileTree.entry? (after step opened).system.files ["p", "lib.d.ts"] =
          some (.file (bytes "declare module 'lib/a' \x7b\n\texport \x7b\x7d;\n\x7d\n")) :=
    ⟨_, _, generate_eq_opening _ withProject_listedRun plan_listedOptions, by decide +kernel,
      by decide +kernel⟩
  have hended := hrun.trans (answer_eq_ok_iff.1 hends)
  rcases generate_eq_of_alike plainGrammar outputListing.compile isOver_listedRun
      (bytes "let other") with
    ⟨-, hsame⟩ | ⟨fault, -, -, hrefused, -⟩
  · exact ⟨_, hended, hsame.trans hended, hbundle⟩
  · exact absurd hplanned hrefused.not_isPlanned

/-- A run over a file whose project is missing. -/
def homelessRun : Run where
  options := { name := "lib", out := .ofPath "out/lib.d.ts", baseDir := some (.ofPath "/p") }
  system := {
    place := { workingDirectory := "/p", home := "/" }
    files := ⟨[(["p"], .directory), (["p", "out"], .directory),
      (["p", "out", "lib.d.ts"], .file (bytes "old"))]⟩ }

/-- Runs whose project is missing leave what the output file held, and so may end with different
outputs. -/
theorem generate_keeps_old :
    IsOver ["p", "out", "lib.d.ts"] homelessRun ∧
      ∃ ended ended',
        generate plainGrammar (CommandCompiler.compile { runner := Runner.silent }) homelessRun =
          .error (.configuration .noProject) ended ∧
        generate plainGrammar (CommandCompiler.compile { runner := Runner.silent })
            (homelessRun.holding ["p", "out", "lib.d.ts"] []) =
          .error (.configuration .noProject) ended' ∧
        ended.system.files.entry? ["p", "out", "lib.d.ts"] = some (.file (bytes "old")) ∧
        ended'.system.files.entry? ["p", "out", "lib.d.ts"] = some (.file []) := by
  refine ⟨⟨rfl, Location.hasNames_ofPath _, rfl, ⟨_, rfl⟩, ?_⟩, _, _, generate_eq_of_project _ rfl,
    generate_eq_of_project _ rfl, rfl, rfl⟩
  have hfiles : projectFiles homelessRun.options homelessRun.system = [] := by
    decide +kernel
  rw [hfiles]
  nofun

end DeclBundle.Bundle
