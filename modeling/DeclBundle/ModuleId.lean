import DeclBundle.Path.Basic
set_option autoImplicit false

/-!
# Module identifiers

A bundled module is named by its package and the path of its declaration file below the base
directory, without the declaration suffix.  A relative specifier in a module names the module it
reaches from there.
-/

namespace DeclBundle.ModuleId

open Text

/-- The suffix of declaration files. -/
def declarationSuffix : String := ".d.ts"

/-- A file that does not lie under the base directory has no identifier. -/
structure OutsideBase where
  file : String
  base : String
  deriving DecidableEq, Repr

/-- The words for a file outside the base directory. -/
def OutsideBase.message (e : OutsideBase) : String :=
  e.file ++ " is not under " ++ e.base

/-- A text without one given ending. -/
def withoutSuffix (s suffix : String) : String :=
  if finishesWith s suffix then withoutLast s suffix.toList.length else s

/-- The identifier of the module that a declaration file below a base directory declares. -/
def ofFile (base package file : String) : Except OutsideBase String :=
  let root := String.ofList (stripEnd (· == '/') (Path.withSlashes base).toList)
  let path := Path.withSlashes file
  if path != root && !beginsWith path (root ++ "/") then .error ⟨file, base⟩
  else
    let below := String.ofList (path.toList.drop root.toList.length)
    .ok (package ++ withoutSuffix below declarationSuffix)

/-- Whether a specifier is relative to the module that contains it. -/
def isRelative (specifier : String) : Bool :=
  beginsWith specifier "."

/-- The identifier that a specifier means inside a module.  A specifier that does not start with
a dot names a package and stands for itself. -/
def resolve (containing specifier : String) : String :=
  if isRelative specifier then
    Path.normalize (Path.join (Path.directory containing) specifier)
  else specifier

/-- A specifier that names a package stands for itself. -/
theorem resolve_of_not_isRelative (containing specifier : String)
    (h : isRelative specifier = false) : resolve containing specifier = specifier := by
  simp [resolve, h]

end DeclBundle.ModuleId
