import DeclBundle.Proofs.Bundle.Answer
import DeclBundle.Proofs.Bundle.Closing
import DeclBundle.Proofs.Compiler.Placement
import DeclBundle.Proofs.Path.Idempotent
set_option autoImplicit false

/-!
# What planning gives

Planning logs and reads.  The options with those of the project are written down here without the
logging (`projectOptions`), and reading the project answers with them (`answer_withProject`).  What is
left of a run with a plan is opening, asking and writing (`generate_eq_opening`), and declarations are
said to lie under the base directory (`isUnder_of_plan`).
-/

namespace DeclBundle.Bundle

open DeclBundle.Path
open DeclBundle.Configuration (Options)

variable {grammar : Declaration.Grammar}

/-! ## Projects -/

section

variable {R : System → System → Prop} (hR : IsCourse R)
  (hlog : ∀ level part message, Carries R (Action.log level part message))

include hR hlog

/-- Reading the project does nothing but log. -/
theorem carries_withProject (o : Options) : Carries R (withProject o) := by
  unfold withProject
  split
  · exact carries_pure hR o
  · refine (carries_get hR).bind hR fun s => (hlog _ _ _).bind hR fun _ => ?_
    refine Carries.bind hR ?_ fun found => ?_
    · unfold Action.ofFiles
      split
      · exact carries_pure hR _
      · exact carries_throw hR _
    · split
      · exact (hlog _ _ _).bind hR fun _ => carries_throw hR _
      · refine (hlog _ _ _).bind hR fun _ => ?_
        split
        · exact carries_throw hR _
        · exact carries_pure hR _

theorem carries_logList (heading : String) (items : List String) :
    Carries R (logList heading items) :=
  (hlog _ _ _).bind hR fun _ => carries_forM hR (fun _ => hlog _ _ _) items

/-- Planning does nothing but log. -/
theorem carries_plan (o : Options) : Carries R (plan grammar o) := by
  unfold plan
  refine (carries_get hR).bind hR fun s => (hlog _ _ _).bind hR fun _ => ?_
  refine (hlog _ _ _).bind hR fun _ => Carries.bind hR ?_ fun outDir => ?_
  · unfold outputDirectory?
    split
    · exact carries_pure hR none
    · refine (hlog _ _ _).bind hR fun _ => ?_
      split
      · exact carries_pure hR _
      · exact carries_throw hR _
  · have hlists : ∀ (files patterns : List String) (p : Plan), Carries R (do
        logList "filenames:" files
        logList "exclude:" patterns
        return p) := fun _ _ p =>
      (carries_logList hR hlog _ _).bind hR fun _ => (carries_logList hR hlog _ _).bind hR fun _ =>
        carries_pure hR p
    dsimp only
    split
    · exact (hlog _ _ _).bind hR fun _ => hlists _ _ _
    · exact hlists _ _ _

/-- Up to the plan a run does nothing but log. -/
theorem after_plan_of_withProject (grammar : Declaration.Grammar) {o o' : Options} {s read : System}
    (hproject : withProject o s = .ok o' read) : R s (after (plan grammar o') read) := by
  have hread := carries_withProject hR hlog o s
  rw [after, hproject] at hread
  exact hR.trans hread (carries_plan hR hlog o' read)

end

/-- Reading the project does not change where the run works. -/
theorem preserves_place_withProject (o : Options) : Preserves System.place (withProject o) :=
  carries_withProject (isCourse_view System.place) (fun _ _ _ _ => rfl) o

/-- The file of the project that options mean. -/
def projectFile (s : System) (o : Options) : Location :=
  ((o.project.or o.baseDir).getD (.ofPath s.place.workingDirectory)).child
    Configuration.projectFileName

/-- The options with what the project asks for, where a project is given or no files are. -/
def projectOptions (s : System) (o : Options) : Except Fault Options :=
  if o.project.isNone && !o.files.isEmpty then .ok o
  else
    match s.files.probe s.place (projectFile s o).path with
    | .error cause => .error (.files cause)
    | .ok none => .error (.configuration .noProject)
    | .ok (some _) =>
      (Configuration.Project.load s.files s.place (projectFile s o)).map (withProjectOptions o)

/-- What reading the project gives depends on the place and the files alone. -/
theorem answer_withProject (o : Options) (s : System) :
    answer (withProject o) s = projectOptions s o := by
  have hget : answer (get : Action System) s = .ok s := rfl
  unfold withProject projectOptions projectFile
  split
  · rfl
  · simp only [answer_bind, hget, ok_bind, answer_logDetail, Action.ofFiles]
    cases s.files.probe s.place _ with
    | error cause => rfl
    | ok found =>
      cases found with
      | none => rfl
      | some e =>
        simp only [answer_bind, answer_pure, ok_bind, answer_logDetail]
        cases Configuration.Project.load s.files s.place _ <;> rfl

/-- The options with a project that can be read. -/
theorem projectOptions_of_load {o : Options} {s : System} {e : Files.Entry}
    {p : Configuration.Project} (hgiven : ¬(o.project.isNone && !o.files.isEmpty) = true)
    (hprobe : s.files.probe s.place (projectFile s o).path = .ok (some e))
    (hload : Configuration.Project.load s.files s.place (projectFile s o) = .ok p) :
    projectOptions s o = .ok (withProjectOptions o p) := by
  rw [projectOptions, if_neg hgiven]
  simp only [hprobe, hload]
  rfl

/-- The options with the project are those that were given, or the project has been read. -/
theorem projectOptions_cases {o o' : Options} {s : System} (h : projectOptions s o = .ok o') :
    o' = o ∨ (¬ (o.project.isNone && !o.files.isEmpty) = true ∧ ∃ e p,
      s.files.probe s.place (projectFile s o).path = .ok (some e) ∧
      Configuration.Project.load s.files s.place (projectFile s o) = .ok p ∧
      o' = withProjectOptions o p) := by
  unfold projectOptions at h
  split at h
  · exact .inl (Except.ok.inj h).symm
  · rename_i hgiven
    split at h
    · cases h
    · cases h
    · rename_i e hprobe
      cases hload : Configuration.Project.load s.files s.place (projectFile s o) with
      | error fault =>
        rw [hload] at h
        cases h
      | ok p =>
        rw [hload] at h
        exact .inr ⟨hgiven, e, p, hprobe, rfl, (Except.ok.inj h).symm⟩

/-! ## Plans -/

/-- A run with a plan opens its document, asks the compiler and writes what it answers. -/
theorem generate_eq_opening (compiler : Compiler) {r : Run} {o : Options} {p : Plan}
    {read made : System} (hproject : withProject r.options r.system = .ok o read)
    (hplan : plan grammar o read = .ok p made) :
    generate grammar compiler r =
      (Step.openDocument >>= fun _ =>
        Step.closing (Step.ask compiler p.request >>= writeCompilation o p.assembly))
        { r with options := o, system := made } := by
  simp only [generate, Step.ofAction, Bind.bind, EStateM.bind, Step.get_eq, Step.modify_eq,
    hproject, hplan]

/-! ## Where declarations are said to lie -/

theorem isAbsolute_normalize {p : String} (h : isAbsolute p = true) :
    isAbsolute (normalize p) = true := by
  obtain ⟨slashes, segs, hslashes, -, hroot⟩ := exists_ofRoot_normalize h
  rw [hroot, isAbsolute_iff, toList_ofRoot]
  rcases hslashes with rfl | rfl <;> exact ⟨_, rfl⟩

theorem isAbsolute_absolute {cwd : String} (h : isAbsolute cwd = true) (p : String) :
    isAbsolute (absolute cwd p) = true := by
  unfold absolute
  split
  · exact isAbsolute_normalize ‹_›
  · exact isAbsolute_normalize (isAbsolute_join h p)

theorem isAbsolute_baseDirectory {cwd : String} (h : isAbsolute cwd = true) (o : Options) :
    isAbsolute (baseDirectory cwd o) = true := by
  unfold baseDirectory
  split
  · exact isAbsolute_absolute h _
  · exact isAbsolute_absolute h _

/-- The base directory of a run is in canonical form. -/
theorem normalize_baseDirectory (cwd : String) (o : Options) :
    normalize (baseDirectory cwd o) = baseDirectory cwd o := by
  unfold baseDirectory absolute
  split <;> exact normalize_normalize _

/-- What lies under an absolute directory has an absolute path. -/
theorem isAbsolute_of_isUnder {path base : String} (hbase : isAbsolute base = true)
    (h : isUnder path base = true) : isAbsolute path = true := by
  rcases ModuleId.isUnder_iff.1 h with rfl | hbegins
  · exact hbase
  · obtain ⟨tail, htail⟩ := Text.beginsWith_iff.1 hbegins
    obtain ⟨slashes, hsplit, -⟩ := exists_stripped_append base
    obtain ⟨rest, hrest⟩ := isAbsolute_iff.1 hbase
    rw [hsplit, String.toList_append] at hrest
    rw [isAbsolute_iff, ← htail, String.toList_append]
    cases hstripped : (stripped base).toList with
    | nil => exact ⟨_, rfl⟩
    | cons c cs =>
      rw [hstripped] at hrest
      obtain ⟨rfl, -⟩ := List.cons.inj hrest
      exact ⟨_, rfl⟩

/-- A plan compiles with the base directory that its blocks are made with, and declarations are said
to lie under it. -/
theorem isUnder_of_plan {o : Options} {s : System} {p : Plan}
    (hplace : isAbsolute s.place.workingDirectory = true) (h : answer (plan grammar o) s = .ok p) :
    p.assembly.base = p.request.base ∧
      isUnder p.request.declarationDirectory p.request.base = true := by
  obtain ⟨outDir, hout, rfl⟩ := answer_plan_eq_ok_iff.1 h
  have habsolute := isAbsolute_baseDirectory hplace o
  have hbase : (planned grammar s o outDir).request.base =
      baseDirectory s.place.workingDirectory o := normalize_baseDirectory _ o
  refine ⟨hbase.symm, ?_⟩
  unfold Request.declarationDirectory
  rw [hbase]
  unfold declarationsIn at hout
  cases hgiven : nonempty? o.outDir with
  | none =>
    rw [hgiven] at hout
    obtain rfl := Except.ok.inj hout
    exact ModuleId.isUnder_iff.2 (.inl rfl)
  | some d =>
    rw [hgiven] at hout
    dsimp only at hout
    split at hout
    · rename_i hunder
      obtain rfl := Except.ok.inj hout
      have hdirectory : nonempty? (some (normalize (join (baseDirectory s.place.workingDirectory o) d)))
          = some (normalize (join (baseDirectory s.place.workingDirectory o) d)) := by
        simp [nonempty?, normalize_ne_empty]
      simp only [planned, hdirectory]
      rw [join, if_pos (isAbsolute_of_isUnder habsolute hunder), normalize_normalize]
      exact hunder
    · cases hout

end DeclBundle.Bundle
