set_option autoImplicit false

/-!
# Flags

The flags of the command line: how they are spelled, whether they take a value, and what they are
for.
-/

namespace DeclBundle.CommandLine

/-- A flag. -/
inductive Flag where
  | help
  | name
  | out
  | main
  | baseDir
  | project
  | exclude
  | externs
  | eol
  | indent
  | config
  | logFile
  | verbose
  deriving DecidableEq, Repr

namespace Flag

/-- All flags, in the order in which they are shown. -/
def all : List Flag :=
  [help, name, out, main, baseDir, project, exclude, externs, eol, indent, config, logFile, verbose]

/-- The letter that a flag may be spelled with, behind one dash. -/
def letter? : Flag → Option Char
  | help => some 'h'
  | verbose => some 'v'
  | _ => none

/-- The word that a flag may be spelled with, behind two dashes. -/
def word : Flag → String
  | help => "help"
  | name => "name"
  | out => "out"
  | main => "main"
  | baseDir => "base-dir"
  | project => "project"
  | exclude => "exclude"
  | externs => "extern"
  | eol => "eol"
  | indent => "indent"
  | config => "config"
  | logFile => "log-file"
  | verbose => "verbose"

/-- How a flag is spelled. -/
def spellings (f : Flag) : List String :=
  (f.letter?.map fun c => "-" ++ c.toString).toList ++ ["--" ++ f.word]

/-- What stands for the value of a flag, if it takes one. -/
def placeholder? : Flag → Option String
  | help | verbose => none
  | name => some "NAME"
  | out => some "OUT"
  | main => some "MAIN"
  | baseDir => some "BASE_DIR"
  | project => some "PROJECT"
  | exclude => some "EXCLUDE"
  | externs => some "EXTERNS"
  | eol => some "EOL"
  | indent => some "INDENT"
  | config => some "CONFIG"
  | logFile => some "LOG_FILE"

/-- What a flag is for. -/
def purpose : Flag → String
  | help => "show this help message and exit"
  | name => "Package name used as the root of every module id."
  | out => "Path of the bundled declaration file to write."
  | main => "Module id to alias as the package's main module."
  | baseDir => "Directory module ids are computed relative to (defaults to the project)."
  | project => "Directory containing tsconfig.json; read when no files are given."
  | exclude => "Glob of files to leave out of the bundle (repeatable)."
  | externs => "Path emitted as a triple-slash reference at the top (repeatable)."
  | eol => "Line terminator for generated text."
  | indent => "Indent string for module bodies (defaults to a tab)."
  | config => "Path to .dtsbundle.yml or its directory (defaults to current directory)."
  | logFile => "Also write the full debug log to this file."
  | verbose => "Increase log verbosity for troubleshooting."

/-- Whether a flag takes a value. -/
def takesValue (f : Flag) : Bool :=
  f.placeholder?.isSome

/-- The flag that a letter spells. -/
def ofLetter? (c : Char) : Option Flag :=
  all.find? fun f => f.letter? == some c

/-- All spellings with their flags, in order. -/
def bySpelling : List (String × Flag) :=
  all.flatMap fun f => f.spellings.map fun s => (s, f)

end Flag

end DeclBundle.CommandLine
