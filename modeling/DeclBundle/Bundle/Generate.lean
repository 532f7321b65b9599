import DeclBundle.Bundle.Plan
import DeclBundle.Document
set_option autoImplicit false

/-!
# Making a bundle

A run asks the compiler for declarations and writes a block for each of them, in the order of the
compiler.  The first file with a complaint ends the run; what has been written by then stays.  The
document is closed in any case, once writing has begun.
-/

namespace DeclBundle

namespace Assembly

/-- Writes the block of a declaration file, unless it is empty. -/
def write (a : Assembly) (file : SourceFile) (d : Document) : Except Fault Unit × Document :=
  match a.assemble file with
  | .error e => (.error e.asFault, d)
  | .ok block => if block = "" then (.ok (), d) else d.write block

end Assembly

namespace Bundle

open DeclBundle.Configuration (Options)

/-! ## Runs -/

/-- The state of a run.  The options take in what the project asks for. -/
structure Run where
  options : Options
  system : System
  /-- the document to write to; if there is none yet, the output file is opened -/
  document : Option Document := none
  /-- what the compiler has been asked for -/
  requests : List Request := []

/-- A step of a run. -/
abbrev Step (α : Type) := EStateM Fault Run α

namespace Step

/-- An action on the system as a step. -/
def ofAction {α : Type} (a : Action α) : Step α := fun r =>
  match a r.system with
  | .ok x system => .ok x { r with system }
  | .error e system => .error e { r with system }

/-- A use of the document as a step. -/
def ofDocument {α : Type} (use : Document → Except Fault α × Document) : Step α := fun r =>
  match use (r.document.getD {}) with
  | (.ok x, d) => .ok x { r with document := some d }
  | (.error e, d) => .error e { r with document := some d }

/-- Opens the output file, unless there is a document already.  Directories that have been made for it
stay if the file cannot be opened. -/
def openDocument : Step Unit := fun r =>
  match r.document with
  | some _ => .ok () r
  | none =>
    match Document.openFile r.system.files r.system.place r.options.out with
    | .error e =>
      let files := r.system.files.made r.system.place r.options.out.parent
      .error (.files e) { r with system := { r.system with files } }
    | .ok (d, files) =>
      .ok () { r with document := some d, system := { r.system with files } }

/-- Closes the document and gives its text to its file. -/
def closeDocument : Step Unit := fun r =>
  let d := r.document.getD {}
  let (result, closed) := d.close
  let files := if d.isClosed then r.system.files else closed.save r.system.files
  let r := { r with document := some closed, system := { r.system with files } }
  match result with
  | .ok _ => .ok () r
  | .error e => .error e r

/-- Takes a step and closes the document, whatever the step gives.  A fault of closing stands in
place of one of the step. -/
def closing {α : Type} (step : Step α) : Step α := fun r =>
  match step r with
  | .ok x r =>
    match closeDocument r with
    | .ok _ r => .ok x r
    | .error e r => .error e r
  | .error e r =>
    match closeDocument r with
    | .ok _ r => .error e r
    | .error e' r => .error e' r

/-- Logs progress. -/
def progress (message : String) : Step Unit :=
  ofAction (logProgress message)

/-- Writes a text to the document. -/
def write (text : String) : Step Unit :=
  ofDocument fun d => d.write text

/-- Asks the compiler. -/
def ask (compiler : Compiler) (request : Request) : Step Compilation := do
  modify fun r => { r with requests := r.requests ++ [request] }
  ofAction (compiler request)

end Step

/-! ## What is written -/

/-- The line that refers to a file outside the bundle. -/
def externLine (path eol : String) : String :=
  "/// <reference path=\"" ++ path ++ "\" />" ++ eol

/-- The texts of the block by which the package has the name of its main module. -/
def mainAlias (f : Format) (package main : String) : List String :=
  ["declare module '" ++ package ++ "' \x7b" ++ f.eol ++ f.indent,
    "import main = require('" ++ main ++ "');" ++ f.eol ++ f.indent,
    "export = main;" ++ f.eol,
    "\x7d" ++ f.eol]

/-- Whether a file that the compiler has looked at belongs to the bundle. -/
def isIncluded (a : Assembly) (file : CompiledFile) : Bool :=
  let path := Path.normalize file.fileName
  Path.isUnder path a.base && !a.isExcluded path

/-- The declaration of a file, or its diagnostics if it has none that can be used.  A file that was
a declaration from the start can always be used. -/
def declarationOf (file : CompiledFile) : Except Fault SourceFile :=
  match file.declaration with
  | none => .error (.emission file.diagnostics)
  | some d =>
    if d.isPreDeclared then .ok d
    else if file.emitSkipped || !file.diagnostics.isEmpty then .error (.emission file.diagnostics)
    else .ok d

/-- Writes what a file contributes to the bundle. -/
def writeFile (a : Assembly) (file : CompiledFile) : Step Unit := do
  if isIncluded a file then
    Step.progress ("  " ++ file.fileName)
    match declarationOf file with
    | .error e => throw e
    | .ok d => Step.ofDocument (a.write d)

/-- Writes the line that refers to a file outside the bundle. -/
def writeExtern (eol path : String) : Step Unit := do
  Step.progress ("Writing external dependency " ++ path)
  Step.write (externLine path eol)

/-- Writes the block for the main module, if there is one. -/
def writeMain (f : Format) (o : Options) : Step Unit := do
  match nonempty? o.main with
  | none => pure ()
  | some main =>
    Step.ofDocument fun d => d.writeAll (mainAlias f o.name main)
    Step.progress ("Aliased main module " ++ o.name ++ " to " ++ main)

/-- Writes a compilation to the document. -/
def writeCompilation (o : Options) (a : Assembly) (c : Compilation) : Step Unit := do
  if !c.diagnostics.isEmpty then throw (.emission c.diagnostics)
  o.externs.forM (writeExtern a.format.eol)
  Step.progress "processing:"
  c.files.forM (writeFile a)
  writeMain a.format o
  Step.progress ("output to " ++ inQuotes o.out.path)

/-! ## The run -/

/-- Makes the bundle that the options of the run describe.  The grammar gives the declarations of the
compiler their trees. -/
def generate (grammar : Declaration.Grammar) (compiler : Compiler) : Step Unit := do
  let o ← Step.ofAction (withProject (← get).options)
  modify fun r => { r with options := o }
  let plan ← Step.ofAction (plan grammar o)
  Step.openDocument
  Step.closing do
    writeCompilation o plan.assembly (← Step.ask compiler plan.request)

end Bundle

end DeclBundle
