import DeclBundle.Compilation
import DeclBundle.Declaration.Rules
import DeclBundle.Format
set_option autoImplicit false

/-!
# Blocks of a bundle

Each declaration file becomes a block of the bundle.  An external module is wrapped in a module
declaration and its content is written anew; any other file stands as it is; an excluded file is
left out.  The grammar of the language comes from outside: nothing here depends on which one it is.
-/

namespace DeclBundle

/-- Why a declaration file has no block. -/
inductive AssemblyFault where
  | outsideBase (cause : ModuleId.OutsideBase)
  | undecodable (cause : Utf8.Fault)
  deriving DecidableEq, Repr

/-- What decides how blocks are made. -/
structure Assembly where
  /-- what gives a declaration file its syntax tree -/
  grammar : Declaration.Grammar
  base : String
  package : String
  format : Format := {}
  /-- canonical paths of the files that are left out -/
  excludes : List String := []

namespace Assembly

/-- Whether a file is left out. -/
def isExcluded (a : Assembly) (file : String) : Bool :=
  a.excludes.contains (Path.withSlashes file)

/-- The identifier of the module that a file declares. -/
def moduleId (a : Assembly) (file : String) : Except AssemblyFault String :=
  (ModuleId.ofFile a.base a.package file).mapError .outsideBase

/-- The block of a declaration file; it is empty if the file is left out. -/
def assemble (a : Assembly) (file : SourceFile) : Except AssemblyFault String :=
  if a.isExcluded file.fileName then .ok ""
  else do
    let id ← a.moduleId file.fileName
    let tree := a.grammar file.text.toList
    if !Declaration.isExternalModule tree then .ok file.text
    else
      let source := Utf8.encode file.text.toList
      let content ← (Declaration.moduleContent id source tree).mapError .undecodable
      .ok (a.format.moduleBlock id content)

end Assembly

end DeclBundle
