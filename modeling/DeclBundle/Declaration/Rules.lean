import DeclBundle.Declaration.Syntax
import DeclBundle.ModuleId
set_option autoImplicit false

/-!
# What bundling writes anew

The rules for the content of one bundled module.  Relative specifiers become identifiers of the
bundle, an import with a default or with names is written in one form, and `declare` goes, since
everything inside a declared module is declared.  A `declare` that begins its line goes together
with the blanks behind it; elsewhere only the word goes.
-/

namespace DeclBundle.Declaration

open Utf8

/-! ## Statements in the form of bundles -/

/-- A module between quotes. -/
def quotedModule (target : String) : String :=
  "'" ++ target ++ "'"

/-- An import statement that binds what is given. -/
def importText (bound target : String) : String :=
  "import " ++ bound ++ " from '" ++ target ++ "';"

/-- Names between braces. -/
def bracedText (names : List String) : String :=
  "\x7b" ++ ", ".intercalate names ++ "\x7d"

/-- A name of an import that gets another name. -/
def aliasText (name other : String) : String :=
  name ++ " as " ++ other

/-- A require clause that binds a name. -/
def requireText (name target : String) : String :=
  name ++ " = require('" ++ target ++ "')"

/-! ## Rules for single nodes -/

/-- What binds one name of an import, if the node does. -/
def boundName? (source : List UInt8) (n : Node) : Except Fault (Option String) :=
  if n.label.type == "import_specifier" && n.label.isNamed then
    match field? n "name" with
    | none => .ok none
    | some name => do
      let text ← textOf source name
      match field? n "alias" with
      | none => return some text
      | some other => return some (aliasText text (← textOf source other))
  else .ok none

/-- What binds the names of an import. -/
def boundNames (source : List UInt8) : List Node → Except Fault (List String)
  | [] => .ok []
  | n :: ns => do
    match ← boundName? source n with
    | none => boundNames source ns
    | some text => return text :: (← boundNames source ns)

/-- The text for an import statement in the module `id`. -/
def importRule (id : String) (source : List UInt8) (n : Node) : Except Fault (Option String) :=
  match field? n "source", firstOfType? n "import_clause" with
  | some named, some clause => do
    let target := ModuleId.resolve id (← valueOf source named)
    match firstOfType? clause "identifier" with
    | some name => return some (importText (← textOf source name) target)
    | none =>
      match firstOfType? clause "named_imports" with
      | some names => return some (importText (bracedText (← boundNames source names.children)) target)
      | none => return none
  | _, _ => .ok none

/-- The text for a require clause in the module `id`. -/
def requireRule (id : String) (source : List UInt8) (n : Node) : Except Fault (Option String) :=
  match firstOfType? n "identifier", (field? n "source").or (firstOfType? n "string") with
  | some name, some named => do
    let value ← valueOf source named
    if ModuleId.isRelative value then
      return some (requireText (← textOf source name) (ModuleId.resolve id value))
    else return none
  | _, _ => .ok none

/-- The text for a literal that names a module in the module `id`. -/
def literalRule (id : String) (source : List UInt8) (n : Node) : Except Fault (Option String) := do
  let value ← valueOf source n
  return if ModuleId.isRelative value then some (quotedModule (ModuleId.resolve id value)) else none

/-- The text that stands for a node by itself in the module `id`, if any does. -/
def nodeRule (id : String) (source : List UInt8) (n : Node) (place : Place) :
    Except Fault (Option String) :=
  if n.label.type == "import_require_clause" then requireRule id source n
  else if n.label.type == "declare" && !n.label.isNamed then .ok (some "")
  else if n.label.type == "import_statement" then importRule id source n
  else if isModuleSource n place || isImportArgument n place then literalRule id source n
  else .ok none

/-! ## Rules for trees -/

/-- Whether a node is a declaration whose `declare` begins its line and has more behind it. -/
def beginsLineAmbient (source : List UInt8) (n : Node) : Bool :=
  n.label.type == "ambient_declaration" &&
    (match n.children with
      | m :: _ :: _ => m.label.type == "declare"
      | _ => false) &&
    startsLine source n.start

/-- The rules for the module `id` on trees of at most a given height. -/
def rulesUpTo (id : String) (source : List UInt8) : Nat → Rewrite.Rule Located
  | 0, _ => .ok none
  | height + 1, t =>
    if beginsLineAmbient source t.label.1 then
      (Rewrite.siblings source (t.children.drop 1) (rulesUpTo id source height)).map some
    else nodeRule id source t.label.1 t.label.2

/-- The rules for the module `id`. -/
def rules (id : String) (source : List UInt8) : Rewrite.Rule Located :=
  fun t => rulesUpTo id source t.height t

/-- The content of the module `id`, with everything written anew that bundling writes anew. -/
def moduleContent (id : String) (source : List UInt8) (file : Node) : Except Fault String :=
  Rewrite.whole source (locate .root file) (rules id source)

end DeclBundle.Declaration
