import DeclBundle.Bundle.Generate
import DeclBundle.Proofs.Document.Writing
set_option autoImplicit false

/-!
# What a run offers to its document

Writing a bundle is offering texts to a document, one after the other, until all are taken, one is
refused, or a fault stops the run.  A script says this without the run: the texts, and the fault
behind them.  Every part of writing performs a script of its own, the parts one after the other
perform the scripts one after the other (`Performs.andThen`, `Performs.forM`), and so a whole
compilation performs one script (`performs_writeCompilation`).
-/

namespace DeclBundle.Bundle

open DeclBundle.Configuration (Options)

/-! ## Scripts -/

/-- Texts to be written, and the fault that is met once all of them have been taken, if any. -/
structure Script where
  texts : List String := []
  fault : Option Fault := none

namespace Script

/-- One script behind another.  It is not begun if the first one ends in a fault. -/
def andThen (s t : Script) : Script :=
  match s.fault with
  | some _ => s
  | none => ⟨s.texts ++ t.texts, t.fault⟩

/-- Scripts one behind the other, up to the first one that ends in a fault. -/
def all : List Script → Script
  | [] => {}
  | s :: ss => s.andThen (all ss)

/-- What a document becomes by a script, and how the script ends. -/
def playOn (s : Script) (d : Document) : Except Fault Unit × Document :=
  match d.writeAll s.texts with
  | (.error e, d) => (.error e, d)
  | (.ok _, d) =>
    match s.fault with
    | none => (.ok (), d)
    | some e => (.error e, d)

/-- How a script ends on a document that takes everything. -/
def ending (s : Script) : Except Fault Unit :=
  match s.fault with
  | none => .ok ()
  | some e => .error e

theorem andThen_empty (s : Script) : s.andThen {} = s := by
  rcases s with ⟨texts, _ | fault⟩ <;> simp [andThen]

theorem playOn_andThen (s t : Script) (d : Document) :
    (s.andThen t).playOn d =
      match s.playOn d with
      | (.ok _, d) => t.playOn d
      | (.error e, d) => (.error e, d) := by
  cases hfault : s.fault with
  | some e =>
    simp only [andThen, hfault, playOn]
    rcases d.writeAll s.texts with ⟨_ | _, next⟩ <;> rfl
  | none =>
    simp only [andThen, hfault, playOn, Document.writeAll_append]
    rcases d.writeAll s.texts with ⟨_ | _, next⟩ <;> rfl

/-- A document that takes everything gets all texts of a script behind what it has. -/
theorem exists_playOn_eq (s : Script) {d : Document} (h : d.IsReady) :
    ∃ next, s.playOn d = (s.ending, next) ∧ next.IsReady ∧
      next.contents = d.contents ++ String.join s.texts := by
  obtain ⟨next, hwriteAll, hnext, hcontents⟩ := h.writeAll s.texts
  refine ⟨next, ?_, hnext, hcontents⟩
  unfold playOn ending
  rw [hwriteAll]
  cases s.fault <;> rfl

end Script

/-! ## Steps that perform scripts -/

/-- How a step of a run ends, and the document that it leaves. -/
def observe {α : Type} (step : Step α) (r : Run) : Except Fault α × Option Document :=
  match step r with
  | .ok x r => (.ok x, r.document)
  | .error e r => (.error e, r.document)

/-- Whether a step does to the document of a run what a script does, and ends as the script does. -/
def Performs (step : Step Unit) (s : Script) : Prop :=
  ∀ r d, r.document = some d → observe step r = ((s.playOn d).1, some (s.playOn d).2)

theorem Performs.andThen {step next : Step Unit} {s t : Script} (hstep : Performs step s)
    (hnext : Performs next t) : Performs (do step; next) (s.andThen t) := by
  intro r d hd
  have hfirst := hstep r d hd
  rw [Script.playOn_andThen]
  unfold observe at hfirst ⊢
  simp only [bind, EStateM.bind]
  rcases hplay : s.playOn d with ⟨result, mid⟩
  rw [hplay] at hfirst
  cases hrun : step r with
  | error e r' =>
    rw [hrun] at hfirst
    obtain ⟨rfl, hd'⟩ := Prod.mk.inj hfirst
    simp only [hd']
  | ok _ r' =>
    rw [hrun] at hfirst
    obtain ⟨rfl, hd'⟩ := Prod.mk.inj hfirst
    exact hnext r' mid hd'

/-- A step for every item of a list, in order. -/
theorem Performs.forM {α : Type} {step : α → Step Unit} {script : α → Script} {xs : List α}
    (h : ∀ x ∈ xs, Performs (step x) (script x)) :
    Performs (xs.forM step) (.all (xs.map script)) := by
  induction xs with
  | nil =>
    intro r d hd
    simp [observe, List.forM, pure, EStateM.pure, Script.all, Script.playOn, Document.writeAll, hd]
  | cons x xs ih =>
    have hrest : Performs (xs.forM step) (.all (xs.map script)) := by
      apply ih
      intro y hy
      exact h y (List.mem_cons_of_mem x hy)
    exact (h x (List.mem_cons_self ..)).andThen hrest

theorem performs_pure : Performs (pure ()) {} := by
  intro r d hd
  simp [observe, pure, EStateM.pure, Script.playOn, Document.writeAll, hd]

theorem performs_throw (e : Fault) : Performs (throw e) ⟨[], some e⟩ := by
  intro r d hd
  exact congrArg (Prod.mk (Except.error e)) hd

/-- Logging does not touch the document. -/
theorem performs_progress (message : String) : Performs (Step.progress message) {} := by
  intro r d hd
  exact congrArg (Prod.mk (Except.ok ())) hd

theorem performs_writeAll (texts : List String) :
    Performs (Step.ofDocument fun d => d.writeAll texts) ⟨texts, none⟩ := by
  intro r d hd
  simp only [observe, Step.ofDocument, Script.playOn, hd, Option.getD_some]
  rcases d.writeAll texts with ⟨_ | _, next⟩ <;> rfl

theorem performs_write (text : String) : Performs (Step.write text) ⟨[text], none⟩ := by
  intro r d hd
  simp only [observe, Step.write, Step.ofDocument, Script.playOn, Document.writeAll, hd,
    Option.getD_some]
  rcases d.write text with ⟨_ | _, next⟩ <;> rfl

/-! ## The script of a compilation -/

/-- What the block of a declaration file offers to the document.  An empty block is not offered. -/
def blockScript : Except AssemblyFault String → Script
  | .error e => ⟨[], some e.asFault⟩
  | .ok block => ⟨if block = "" then [] else [block], none⟩

/-- What a file offers to the document. -/
def fileScript (a : Assembly) (file : CompiledFile) : Script :=
  if isIncluded a file then
    match declarationOf file with
    | .error e => ⟨[], some e⟩
    | .ok d => blockScript (a.assemble d)
  else {}

/-- What the references to files outside the bundle offer to the document. -/
def externScript (eol : String) (paths : List String) : Script :=
  .all (paths.map fun path => ⟨[externLine path eol], none⟩)

/-- What the main module offers to the document, if there is one. -/
def mainScript (f : Format) (o : Options) : Script :=
  match nonempty? o.main with
  | none => {}
  | some main => ⟨mainAlias f o.name main, none⟩

/-- What a compilation offers to the document. -/
def compilationScript (o : Options) (a : Assembly) (c : Compilation) : Script :=
  if c.diagnostics.isEmpty then
    (externScript a.format.eol o.externs).andThen
      ((Script.all (c.files.map (fileScript a))).andThen (mainScript a.format o))
  else ⟨[], some (.emission c.diagnostics)⟩

theorem performs_assembly_write (a : Assembly) (file : SourceFile) :
    Performs (Step.ofDocument (a.write file)) (blockScript (a.assemble file)) := by
  intro r d hd
  unfold observe Step.ofDocument Assembly.write blockScript Script.playOn
  rw [hd, Option.getD_some]
  cases a.assemble file with
  | error e => rfl
  | ok block =>
    by_cases hempty : block = ""
    · simp [hempty, Document.writeAll]
    · simp only [hempty, if_false, Document.writeAll]
      rcases d.write block with ⟨_ | _, next⟩ <;> rfl

theorem performs_writeFile (a : Assembly) (file : CompiledFile) :
    Performs (writeFile a file) (fileScript a file) := by
  unfold writeFile fileScript
  split
  · have hprogress := performs_progress ("  " ++ file.fileName)
    cases declarationOf file with
    | error e => exact hprogress.andThen (performs_throw e)
    | ok d => exact hprogress.andThen (performs_assembly_write a d)
  · exact performs_pure

theorem performs_writeExtern (eol path : String) :
    Performs (writeExtern eol path) ⟨[externLine path eol], none⟩ :=
  (performs_progress _).andThen (performs_write _)

theorem performs_writeMain (f : Format) (o : Options) :
    Performs (writeMain f o) (mainScript f o) := by
  unfold writeMain mainScript
  cases nonempty? o.main with
  | none => exact performs_pure
  | some main =>
    have halias := (performs_writeAll (mainAlias f o.name main)).andThen
      (performs_progress ("Aliased main module " ++ o.name ++ " to " ++ main))
    rw [Script.andThen_empty] at halias
    exact halias

/-- Writing a compilation performs its script. -/
theorem performs_writeCompilation (o : Options) (a : Assembly) (c : Compilation) :
    Performs (writeCompilation o a c) (compilationScript o a c) := by
  unfold writeCompilation compilationScript
  cases c.diagnostics.isEmpty with
  | false => exact performs_throw _
  | true =>
    have hexterns : Performs (o.externs.forM (writeExtern a.format.eol))
        (externScript a.format.eol o.externs) :=
      .forM fun path _ => performs_writeExtern a.format.eol path
    have hfiles : Performs (c.files.forM (writeFile a)) (.all (c.files.map (fileScript a))) :=
      .forM fun file _ => performs_writeFile a file
    have hmain := (performs_writeMain a.format o).andThen
      (performs_progress ("output to " ++ inQuotes o.out.path))
    rw [Script.andThen_empty] at hmain
    exact hexterns.andThen ((performs_progress "processing:").andThen (hfiles.andThen hmain))

end DeclBundle.Bundle
