set_option autoImplicit false

/-!
# What the compiler reports

The answer of one compiler run: the files that it looked at, in its order, each with its
declaration and its diagnostics, and the diagnostics that belong to no file.
-/

namespace DeclBundle

/-- The declaration text of one file. -/
structure SourceFile where
  fileName : String
  text : String
  /-- whether the file was a declaration file from the start -/
  isPreDeclared : Bool := false
  deriving DecidableEq, Repr

/-- The kinds of complaints, told apart by their codes. -/
inductive Category where
  | syntactic
  | declaration
  | emit
  | semantic
  deriving DecidableEq, Repr

/-- The kind of complaint that a code stands for. -/
def Category.ofCode (code : Int) : Category :=
  if 1000 ≤ code && code < 2000 then .syntactic
  else if 4000 ≤ code && code < 5000 then .declaration
  else if 5000 ≤ code then .emit
  else .semantic

/-- The name of a kind of complaint. -/
def Category.name : Category → String
  | .syntactic => "syntactic"
  | .declaration => "declaration"
  | .emit => "emit"
  | .semantic => "semantic"

/-- A complaint of the compiler.  One without a file has an empty file name. -/
structure Diagnostic where
  fileName : String
  line : Int
  column : Int
  code : Int
  message : String
  /-- the name of its kind -/
  category : String := Category.semantic.name
  deriving DecidableEq, Repr

/-- The line that shows a diagnostic. -/
def Diagnostic.format (d : Diagnostic) : String :=
  let problem := "error TS" ++ toString d.code ++ ": " ++ d.message
  if d.fileName = "" then problem
  else d.fileName ++ "(" ++ toString d.line ++ "," ++ toString d.column ++ "): " ++ problem

/-- The message that shows several diagnostics. -/
def formatDiagnostics (ds : List Diagnostic) : String :=
  ds.foldl (fun text d => text ++ "\n" ++ d.format) "Declaration generation failed"

/-- What the compiler made of one file. -/
structure CompiledFile where
  fileName : String
  declaration : Option SourceFile := none
  diagnostics : List Diagnostic := []
  emitSkipped : Bool := false
  deriving DecidableEq, Repr

/-- The answer of one compiler run. -/
structure Compilation where
  files : List CompiledFile := []
  /-- complaints that belong to no file -/
  diagnostics : List Diagnostic := []
  deriving DecidableEq, Repr

end DeclBundle
