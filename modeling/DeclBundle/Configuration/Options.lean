import DeclBundle.Configuration.Fault
set_option autoImplicit false

/-!
# Options of a run

What a run is to do.  The options come from the settings file of a directory, where those that are
given on the command line win.
-/

namespace DeclBundle.Configuration

/-- What a run is to do. -/
structure Options where
  name : String
  out : Location
  baseDir : Option Location := none
  project : Option Location := none
  files : List String := []
  exclude : Option (List String) := none
  externs : List String := []
  main : Option String := none
  eol : Option String := none
  indent : String := "\t"
  target : Option String := none
  outDir : Option String := none
  moduleResolution : Option String := none
  verbose : Bool := false
  logFile : Option Location := none
  deriving DecidableEq, Repr

/-- The settings of a settings file. -/
structure Settings where
  /-- the directory of the file -/
  root : Location
  name : Option String := none
  out : Option Location := none
  main : Option String := none
  baseDir : Option Location := none
  project : Option Location := none
  exclude : List String := []
  externs : List String := []
  eol : Option String := none
  indent : Option String := none
  verbose : Bool := false
  logFile : Option Location := none
  deriving DecidableEq, Repr

/-- Options that win over settings, where they are given: an empty list is none, and `verbose` is
given if it holds. -/
structure Overrides where
  name : Option String := none
  out : Option Location := none
  baseDir : Option Location := none
  project : Option Location := none
  files : List String := []
  exclude : List String := []
  externs : List String := []
  main : Option String := none
  eol : Option String := none
  indent : Option String := none
  target : Option String := none
  outDir : Option String := none
  moduleResolution : Option String := none
  verbose : Bool := false
  logFile : Option Location := none
  deriving DecidableEq, Repr

/-- The first list, unless it is empty. -/
def firstNonempty (a b : List String) : List String :=
  if a.isEmpty then b else a

/-- The list, unless it is empty. -/
def nonemptyList? (a : List String) : Option (List String) :=
  if a.isEmpty then none else some a

/-- The package name that is given, where an empty one does not count. -/
def packageName? (s : Settings) (o : Overrides) : Option String :=
  ((o.name.filter (· != "")).or s.name).filter (· != "")

/-- The options that settings and overrides give together.  A package name and an output file have
to be among them. -/
def Settings.toOptions (s : Settings) (o : Overrides) : Except Fault Options :=
  match packageName? s o, o.out.or s.out with
  | none, _ => .error .noPackageName
  | some _, none => .error .noOutput
  | some name, some out =>
    .ok {
      name
      out
      baseDir := o.baseDir.or s.baseDir
      project := o.project.or s.project
      files := o.files
      exclude := nonemptyList? (firstNonempty o.exclude s.exclude)
      externs := firstNonempty o.externs s.externs
      main := o.main.or s.main
      eol := o.eol.or s.eol
      indent := (o.indent.or s.indent).getD "\t"
      target := o.target
      outDir := o.outDir
      moduleResolution := o.moduleResolution
      verbose := o.verbose || s.verbose
      logFile := o.logFile.or s.logFile }

end DeclBundle.Configuration
