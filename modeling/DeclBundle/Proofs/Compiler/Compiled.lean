import DeclBundle.Proofs.Compiler.Collected
import Mathlib.Data.List.Forall2
set_option autoImplicit false

/-!
# What a run of the compiler gives

A run of the compiler that ends well has printed a listing (`exists_listing_of_compile`), and every
file of the listing has been collected, in order (`forall₂_of_compilation`).
-/

namespace DeclBundle.CommandCompiler

/-- Answers for all items of a list are an answer for each. -/
theorem forall₂_of_mapM {ε α β : Type} {f : α → Except ε β} {xs : List α} {ys : List β}
    (h : xs.mapM f = .ok ys) : List.Forall₂ (fun x y => f x = .ok y) xs ys := by
  induction xs generalizing ys with
  | nil =>
    obtain rfl := Except.ok.inj h
    exact .nil
  | cons x xs ih =>
    rw [List.mapM_cons] at h
    cases hfirst : f x with
    | error e =>
      rw [hfirst] at h
      cases h
    | ok first =>
      cases hrest : xs.mapM f with
      | error e =>
        rw [hfirst, hrest] at h
        cases h
      | ok rest =>
        rw [hfirst, hrest] at h
        obtain rfl := Except.ok.inj h
        exact .cons hfirst (ih hrest)

/-- A listing that has a meaning is collected file by file. -/
theorem forall₂_of_compilation {place : Files.Place} {files : Files.FileTree} {request : Request}
    {directory output : String} {result : Compilation}
    (h : compilation place files request directory output = .ok result) :
    List.Forall₂ (fun file collected =>
        collect place files request directory (Listing.parse request.base output) file =
          .ok collected)
      (Listing.parse request.base output).files result.files := by
  unfold compilation at h
  simp only [bind, Except.bind] at h
  split at h
  · cases h
  · rename_i collected hcollected
    obtain rfl := Except.ok.inj h
    exact forall₂_of_mapM hcollected

/-- A run of the compiler that ends well has printed a listing that has a meaning. -/
theorem exists_listing_of_compile {c : CommandCompiler} {request : Request}
    {system after : System} {result : Compilation}
    (h : c.compile request system = .ok result after) :
    ∃ directory before files output,
      c.runner (c.invocation request directory) before = (.ok output, files) ∧
      compilation system.place files request directory output = .ok result := by
  unfold compile at h
  simp only [bind, Except.bind] at h
  split at h
  · rename_i compilation hcompilation
    obtain ⟨rfl, -⟩ := EStateM.Result.ok.inj h
    split at hcompilation
    · cases hcompilation
    · rename_i output houtput
      exact ⟨_, _, _, output, Prod.ext houtput rfl, hcompilation⟩
  · cases h

end DeclBundle.CommandCompiler
