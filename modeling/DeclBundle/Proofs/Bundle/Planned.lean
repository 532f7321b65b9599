import DeclBundle.Bundle.Plan
import DeclBundle.Proofs.Bundle.Answer
set_option autoImplicit false

/-!
# The plan that options mean

Planning logs, reads the files once and changes none.  The plan that options mean is written down
here without the logging (`planned`), and planning answers with it (`answer_plan`).
-/

namespace DeclBundle.Bundle

open DeclBundle.Path
open DeclBundle.Configuration (Options)

variable {grammar : Declaration.Grammar}

theorem answer_logDetail (message : String) (s : System) : answer (logDetail message) s = .ok () :=
  rfl

theorem answer_logList (heading : String) (items : List String) (s : System) :
    answer (logList heading items) s = .ok () := by
  have hitems : ∀ s, answer (items.forM fun item => logDetail ("  " ++ item)) s = .ok () := by
    induction items with
    | nil => exact fun s => rfl
    | cons item items ih => exact fun s => ih _
  exact hitems _

/-- The directory of the declarations that options ask for, if it lies under the base directory. -/
def declarationsIn (base : String) (o : Options) : Except Fault (Option String) :=
  match nonempty? o.outDir with
  | none => .ok none
  | some d =>
    let directory := normalize (join base d)
    if isUnder directory base then .ok (some directory)
    else .error (.configuration (.outputOutside directory base))

/-- The plan that options mean, with the directory of the declarations. -/
def planned (grammar : Declaration.Grammar) (s : System) (o : Options) (outDir : Option String) :
    Plan :=
  let base := baseDirectory s.place.workingDirectory o
  { request := ⟨resolveInputs s.place.workingDirectory base o.files,
      { base, target := (nonempty? o.target).getD "esnext", outDir,
        moduleResolution := o.moduleResolution }⟩
    assembly := {
      grammar
      base
      package := o.name
      format := { eol := o.eol.getD "\n", indent := o.indent }
      excludes := expandExcludes s.files s.place base (o.exclude.getD defaultExcludes) } }

theorem answer_outputDirectory? (base : String) (o : Options) (s : System) :
    answer (outputDirectory? base o) s = declarationsIn base o := by
  unfold outputDirectory? declarationsIn
  cases nonempty? o.outDir with
  | none => rfl
  | some d =>
    dsimp only
    rw [answer_bind, answer_logDetail]
    split <;> rfl

/-- Planning fails only where the declarations would not lie under the base directory. -/
theorem answer_plan (o : Options) (s : System) :
    answer (plan grammar o) s =
      (declarationsIn (baseDirectory s.place.workingDirectory o) o).map (planned grammar s o) := by
  have hget : answer (get : Action System) s = .ok s := rfl
  have hafter : after (get : Action System) s = s := rfl
  unfold plan
  cases nonempty? o.moduleResolution with
  | none =>
    simp only [answer_bind, answer_logDetail, answer_outputDirectory?, answer_logList, answer_pure,
      hget, hafter, ok_bind]
    rfl
  | some m =>
    simp only [answer_bind, answer_logDetail, answer_outputDirectory?, answer_logList, answer_pure,
      hget, hafter, ok_bind]
    rfl

theorem answer_plan_eq_ok_iff {o : Options} {s : System} {p : Plan} :
    answer (plan grammar o) s = .ok p ↔
      ∃ outDir, declarationsIn (baseDirectory s.place.workingDirectory o) o = .ok outDir ∧
        p = planned grammar s o outDir := by
  rw [answer_plan]
  cases declarationsIn (baseDirectory s.place.workingDirectory o) o with
  | error e => simp [Except.map]
  | ok outDir => simp [Except.map, eq_comm]

end DeclBundle.Bundle
