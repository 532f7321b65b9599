import DeclBundle.CommandLine.Flag
import DeclBundle.Text.Digit
import DeclBundle.Text.Lines
import DeclBundle.Text.Quoted
set_option autoImplicit false

/-!
# Arguments

The arguments of the command line are told apart first: flags with what is attached to them, the
mark that ends the flags, and plain arguments.  Then they are read from left to right.  The first
run of plain arguments names the files; there must be no second one.
-/

namespace DeclBundle.CommandLine

open Text

/-! ## Misuse -/

/-- Why arguments cannot be read. -/
inductive Misuse where
  | ambiguous (argument : String) (candidates : List String)
  | expectsValue (flag : Flag)
  | ignoredValue (flag : Flag) (value : String)
  | unrecognized (arguments : List String)
  deriving DecidableEq, Repr

/-- How a flag is named in a message. -/
def Flag.shown (f : Flag) : String :=
  "/".intercalate f.spellings

/-- The words for a misuse. -/
def Misuse.message : Misuse → String
  | .ambiguous argument candidates =>
    "ambiguous option: " ++ argument ++ " could match " ++ ", ".intercalate candidates
  | .expectsValue flag => "argument " ++ flag.shown ++ ": expected one argument"
  | .ignoredValue flag value =>
    "argument " ++ flag.shown ++ ": ignored explicit argument " ++ quoted value
  | .unrecognized arguments => "unrecognized arguments: " ++ " ".intercalate arguments

/-! ## Telling arguments apart -/

/-- What an argument is. -/
inductive Word where
  | plain (text : String)
  /-- the mark behind which no argument is a flag -/
  | separator
  /-- a flag, whether it is spelled with a single letter, and what is attached to it -/
  | flag (flag : Flag) (isShort : Bool) (attached : Option String)
  | unknown (text : String)
  deriving DecidableEq, Repr

/-- Whether a text is a negative number.  A line feed at its end does not count. -/
def isNegativeNumber : List Char → Bool
  | '-' :: cs =>
    let cs := if cs.getLast? = some '\n' then cs.dropLast else cs
    match cs.dropWhile isDigit with
    | [] => !cs.isEmpty
    | '.' :: ds => !ds.isEmpty && ds.all isDigit
    | _ => false
  | _ => false

/-- What stands before the first equals sign, and what stands behind it, if there is one. -/
def splitAttached (arg : String) : String × Option String :=
  let cs := arg.toList
  let before := cs.takeWhile (· != '=')
  match cs.drop before.length with
  | [] => (arg, none)
  | _ :: value => (.ofList before, some (.ofList value))

/-- The flags that a beginning of a long spelling, or a letter with something attached, can mean. -/
def candidates (arg : String) : List (String × Word) :=
  match arg.toList with
  | '-' :: '-' :: _ =>
    let (start, attached) := splitAttached arg
    (Flag.bySpelling.filter fun s => beginsWith s.1 start).map fun s =>
      (s.1, .flag s.2 false attached)
  | '-' :: c :: cs =>
    ((Flag.ofLetter? c).map fun f => ("-" ++ c.toString, .flag f true (some (.ofList cs)))).toList
  | _ => []

/-- Whether a spelling has a single dash. -/
def isShortSpelling (s : String) : Bool :=
  !beginsWith s "--"

/-- The flag that an argument spells in full, with what is attached by an equals sign. -/
def spelled? (arg : String) : Option Word :=
  match Flag.bySpelling.lookup arg with
  | some f => some (.flag f (isShortSpelling arg) none)
  | none =>
    let (spelling, attached) := splitAttached arg
    if attached.isNone then none
    else
      (Flag.bySpelling.lookup spelling).map fun f => .flag f (isShortSpelling spelling) attached

/-- What an argument is that begins with a dash and is more than that. -/
def dashedWord (arg : String) : Except Misuse Word :=
  match spelled? arg with
  | some w => .ok w
  | none =>
    match candidates arg with
    | [] =>
      if isNegativeNumber arg.toList || arg.toList.contains ' ' then .ok (.plain arg)
      else .ok (.unknown arg)
    | [c] => .ok c.2
    | cs => .error (.ambiguous arg (cs.map (·.1)))

/-- What an argument is. -/
def wordOf (arg : String) : Except Misuse Word :=
  match arg.toList with
  | '-' :: _ :: _ => dashedWord arg
  | _ => .ok (.plain arg)

/-- What arguments are.  Behind the mark that ends the flags all are plain. -/
def wordsOf : List String → Except Misuse (List Word)
  | [] => .ok []
  | arg :: args =>
    if arg = "--" then .ok (.separator :: args.map .plain)
    else do return (← wordOf arg) :: (← wordsOf args)

/-! ## Reading -/

/-- What the arguments ask for. -/
structure Arguments where
  name : Option String := none
  out : Option String := none
  main : Option String := none
  baseDir : Option String := none
  project : Option String := none
  exclude : List String := []
  externs : List String := []
  eol : Option String := none
  indent : Option String := none
  config : String := "."
  logFile : Option String := none
  verbose : Bool := false
  files : List String := []
  deriving DecidableEq, Repr

/-- The arguments with the value of a flag. -/
def Arguments.set (a : Arguments) (f : Flag) (value : String) : Arguments :=
  match f with
  | .name => { a with name := some value }
  | .out => { a with out := some value }
  | .main => { a with main := some value }
  | .baseDir => { a with baseDir := some value }
  | .project => { a with project := some value }
  | .exclude => { a with exclude := a.exclude ++ [value] }
  | .externs => { a with externs := a.externs ++ [value] }
  | .eol => { a with eol := some value }
  | .indent => { a with indent := some value }
  | .config => { a with config := value }
  | .logFile => { a with logFile := some value }
  | .help | .verbose => a

/-- Why reading ends before all arguments are read. -/
inductive Stop where
  | help
  | misuse (cause : Misuse)
  deriving DecidableEq, Repr

/-- Where the run of plain arguments is that names the files. -/
inductive FilesPhase where
  | ahead
  | here
  | behind
  deriving DecidableEq, Repr

/-- What has been read. -/
structure Reader where
  arguments : Arguments := {}
  phase : FilesPhase := .ahead
  /-- arguments that mean nothing where they stand -/
  leftovers : List String := []

namespace Reader

/-- A plain argument, or the mark that ends the flags, has been read. -/
def plain (r : Reader) (text : String) : Reader :=
  match r.phase with
  | .behind => { r with leftovers := r.leftovers ++ [text] }
  | _ =>
    { r with phase := .here, arguments := { r.arguments with files := r.arguments.files ++ [text] } }

/-- Something that is no plain argument comes next. -/
def leaveFiles (r : Reader) : Reader :=
  if r.phase = .here then { r with phase := .behind } else r

/-- A flag with a value has been read. -/
def value (r : Reader) (f : Flag) (v : String) : Reader :=
  { r.leaveFiles with arguments := r.arguments.set f v }

/-- A flag without a value has been read. -/
def switch (r : Reader) (f : Flag) : Except Stop Reader :=
  match f with
  | .help => .error .help
  | .verbose => .ok { r.leaveFiles with arguments := { r.arguments with verbose := true } }
  | _ => .ok r.leaveFiles

/-- Flags without a value have been read. -/
def switchAll (r : Reader) : List Flag → Except Stop Reader
  | [] => .ok r
  | f :: fs => do (← r.switch f).switchAll fs

end Reader

/-- The flags of letters behind a flag that has no value of its own. -/
def cluster (f : Flag) : List Char → Except Misuse (List Flag)
  | [] => .ok [f]
  | c :: cs =>
    match Flag.ofLetter? c with
    | some next => (cluster next cs).map (f :: ·)
    | none => .error (.ignoredValue f (.ofList (c :: cs)))

/-- The flags that a flag without a value stands for, with what is attached to it. -/
def switches (f : Flag) (isShort : Bool) : Option String → Except Misuse (List Flag)
  | none => .ok [f]
  | some attached =>
    if isShort && attached != "" then cluster f attached.toList
    else .error (.ignoredValue f attached)

/-- Reads words. -/
def readWords (r : Reader) : List Word → Except Stop Reader
  | [] => .ok r
  | .plain text :: ws => readWords (r.plain text) ws
  | .separator :: ws => readWords (r.plain "--") ws
  | .unknown text :: ws =>
    let r := r.leaveFiles
    readWords { r with leftovers := r.leftovers ++ [text] } ws
  | .flag f isShort attached :: ws =>
    if f.takesValue then
      match attached, ws with
      | some v, ws => readWords (r.value f v) ws
      | none, .plain v :: ws => readWords (r.value f v) ws
      | none, _ => .error (.misuse (.expectsValue f))
    else do
      let fs ← (switches f isShort attached).mapError .misuse
      readWords (← r.switchAll fs) ws

/-- What the arguments of the command line ask for. -/
def parse (args : List String) : Except Stop Arguments := do
  let ws ← (wordsOf args).mapError .misuse
  let r ← readWords {} ws
  if r.leftovers.isEmpty then
    return { r.arguments with files := r.arguments.files.erase "--" }
  else throw (.misuse (.unrecognized r.leftovers))

end DeclBundle.CommandLine
