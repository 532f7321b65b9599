import DeclBundle.Compiler.Run
set_option autoImplicit false

/-!
# What becomes of a listed file

A file of the listing has one of four fates: it lies outside the base directory and has no
declaration, it is a declaration itself, its declaration has been written, or nothing has been
written for it.  Everything that is said about collected files comes from the statement that these
are all (`collect_cases`).
-/

namespace DeclBundle.CommandCompiler

variable {place : Files.Place} {files : Files.FileTree} {request : Request}
variable {directory file : String} {listing : Listing} {collected : CompiledFile}

theorem mapError_ok {ε ε' α : Type} (f : ε → ε') (a : α) :
    Except.mapError f (.ok a) = .ok a := rfl

theorem mapError_error {ε ε' α : Type} (f : ε → ε') (e : ε) :
    Except.mapError f (.error e : Except ε α) = .error (f e) := rfl

/-- The fates of a listed file. -/
inductive Fate (place : Files.Place) (files : Files.FileTree) (request : Request)
    (directory file : String) : Option SourceFile → Bool → Prop where
  /-- the file lies outside the base directory -/
  | outside (h : Path.isUnder file request.base = false) :
      Fate place files request directory file none false
  /-- the file is a declaration from the start -/
  | preDeclared (text : String) (h : Path.isUnder file request.base = true)
      (hsuffix : Text.finishesWith file ModuleId.declarationSuffix = true)
      (htext : readText files place (Location.ofPath file).path = .ok text) :
      Fate place files request directory file (some ⟨file, text, true⟩) false
  /-- a declaration has been written for the file -/
  | written (text : String) (h : Path.isUnder file request.base = true)
      (hsuffix : Text.finishesWith file ModuleId.declarationSuffix = false)
      (htext : readText files place
        ((Location.ofPath directory).child (emittedName place request file)).path = .ok text) :
      Fate place files request directory file
        (some ⟨Path.join request.declarationDirectory (emittedName place request file), text, false⟩)
        false
  /-- no declaration has been written for the file -/
  | skipped (h : Path.isUnder file request.base = true)
      (hsuffix : Text.finishesWith file ModuleId.declarationSuffix = false)
      (hprobe : files.probe place
        ((Location.ofPath directory).child (emittedName place request file)).path = .ok none) :
      Fate place files request directory file none true

/-- A file that has been collected keeps its name and its diagnostics, and has met one of the
fates. -/
theorem collect_cases
    (h : collect place files request directory listing file = .ok collected) :
    collected.fileName = file ∧ collected.diagnostics = listing.diagnosticsOf file ∧
      Fate place files request directory file collected.declaration collected.emitSkipped := by
  unfold collect at h
  cases hunder : Path.isUnder file request.base with
  | false =>
    simp only [hunder, Bool.not_false, if_true] at h
    obtain rfl := Except.ok.inj h
    exact ⟨rfl, rfl, .outside hunder⟩
  | true =>
    cases hsuffix : Text.finishesWith file ModuleId.declarationSuffix with
    | true =>
      cases htext : readText files place (Location.ofPath file).path with
      | error fault => simp [hunder, hsuffix, htext, bind, Except.bind] at h
      | ok text =>
        simp only [hunder, hsuffix, htext, Bool.not_true, Bool.false_eq_true, if_false, if_true]
          at h
        obtain rfl := Except.ok.inj h
        exact ⟨rfl, rfl, .preDeclared text hunder hsuffix htext⟩
    | false =>
      simp only [hunder, hsuffix, Bool.not_true, Bool.false_eq_true, if_false, emitted] at h
      cases hprobe : files.probe place
          ((Location.ofPath directory).child (emittedName place request file)).path with
      | error fault => simp [hprobe, bind, Except.bind, mapError_error] at h
      | ok entry =>
        cases entry with
        | none =>
          simp only [hprobe, bind, Except.bind, mapError_ok] at h
          obtain rfl := Except.ok.inj h
          exact ⟨rfl, rfl, .skipped hunder hsuffix hprobe⟩
        | some entry =>
          cases htext : readText files place
              ((Location.ofPath directory).child (emittedName place request file)).path with
          | error fault => simp [hprobe, htext, bind, Except.bind, mapError_ok] at h
          | ok text =>
            simp only [hprobe, htext, bind, Except.bind, mapError_ok] at h
            obtain rfl := Except.ok.inj h
            exact ⟨rfl, rfl, .written text hunder hsuffix htext⟩

/-- A declaration that has been written for a file below the base directory is said to lie in the
directory of declarations. -/
theorem fileName_of_collect {declaration : SourceFile}
    (h : collect place files request directory listing file = .ok collected)
    (hsuffix : Text.finishesWith file ModuleId.declarationSuffix = false)
    (hdeclaration : collected.declaration = some declaration) :
    declaration.fileName =
      Path.join request.declarationDirectory (emittedName place request file) := by
  obtain ⟨-, -, hfate⟩ := collect_cases h
  generalize hfound : collected.declaration = found at hfate
  generalize collected.emitSkipped = skipped at hfate
  rw [hdeclaration] at hfound
  cases hfate with
  | outside => cases hfound
  | preDeclared text hunder hends htext => exact absurd hends (by simp [hsuffix])
  | written text hunder hends htext => rw [Option.some.inj hfound]
  | skipped => cases hfound

end DeclBundle.CommandCompiler
