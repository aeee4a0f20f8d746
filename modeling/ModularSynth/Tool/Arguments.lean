-- Reading the options from the words of a command line. Flags of one letter may share a
-- dash; an option's value may follow its letter, an equals sign, or in a word of its own
-- that does not start with a dash. After two dashes, all words are paths.
import ModularSynth.Tool.Options

namespace ModularSynth

/-! ## Options and flags -/

/-- An option without a value. -/
inductive Flag
  | safe
  | list
  | stdout
  | library
  | json
  | yaml
  | pcm16
  | singleThread
  | version
  | rowSync
  | verbose
  | help
  /-- Show the version at once, whatever else is asked for. -/
  | showVersion
  deriving DecidableEq, Repr, Inhabited

/-- An option with a value. -/
inductive Choice
  | templates
  | output
  | extensions
  | architecture
  | operatingSystem
  deriving DecidableEq, Repr, Inhabited

namespace Flag

def all : List Flag :=
  [.safe, .list, .stdout, .library, .json, .yaml, .pcm16, .singleThread, .version, .rowSync,
    .verbose, .help, .showVersion]

def letter? : Flag → Option Char
  | .safe => some 'n'
  | .list => some 'l'
  | .stdout => some 's'
  | .library => some 'a'
  | .json => some 'j'
  | .yaml => some 'y'
  | .pcm16 => some 'i'
  | .singleThread => some 'f'
  | .version => some 'v'
  | .rowSync => some 'r'
  | .verbose => none
  | .help => some 'h'
  | .showVersion => some 'V'

def word? : Flag → Option String
  | .verbose => some "verbose"
  | .help => some "help"
  | .showVersion => some "version"
  | _ => none

/-- May the flag be given more than once? -/
def repeats (f : Flag) : Bool :=
  f == .verbose

def ofLetter? (c : Char) : Option Flag :=
  all.find? fun f => f.letter? == some c

def ofWord? (word : String) : Option Flag :=
  all.find? fun f => f.word? == some word

end Flag

namespace Choice

def all : List Choice := [.templates, .output, .extensions, .architecture, .operatingSystem]

def letter? : Choice → Option Char
  | .templates => some 't'
  | .output => some 'o'
  | .extensions => some 'e'
  | .architecture => none
  | .operatingSystem => none

def word? : Choice → Option String
  | .architecture => some "arch"
  | .operatingSystem => some "os"
  | _ => none

/-- How the option is named to the user. -/
def name (c : Choice) : String :=
  match c.letter? with
  | some letter => String.ofList ['-', letter]
  | none => "--" ++ c.word?.getD ""

def ofLetter? (letter : Char) : Option Choice :=
  all.find? fun c => c.letter? == some letter

def ofWord? (word : String) : Option Choice :=
  all.find? fun c => c.word? == some word

end Choice

/-! ## Errors -/

/-- Why a command line cannot be followed, or need not be followed further. -/
inductive UsageError
  | unknownArgument (word : String)
  | missingValue (option : Choice)
  | unknownArchitecture (name : String)
  | usedTwice (word : String)
  | helpWanted
  | versionWanted
  deriving DecidableEq, Repr, Inhabited

def UsageError.message : UsageError → String
  | .unknownArgument word => s!"Found argument '{word}' which wasn't expected"
  | .missingValue option => s!"The argument '{option.name}' requires a value but none was supplied"
  | .unknownArchitecture name =>
    s!"Invalid value for '{Choice.architecture.name}': {Architecture.unknownMessage name}"
  | .usedTwice word => s!"The argument '{word}' was provided more than once"
  | .helpWanted => "help"
  | .versionWanted => "version"

/-! ## Words -/

/-- What words of a command line mean. -/
inductive Argument
  | flag (flag : Flag)
  /-- An option; it has no value if no word followed that could be one. -/
  | choice (option : Choice) (value : Option String)
  | path (text : String)
  deriving DecidableEq, Repr, Inhabited

namespace Argument

/-- A flag, unless it is one that ends the reading at once. -/
def ofFlag : Flag → Except UsageError Argument
  | .help => .error .helpWanted
  | .showVersion => .error .versionWanted
  | f => .ok (.flag f)

/-- How the words after a word are to be read. -/
inductive Next
  | words
  /-- The next word may be the value of an option. -/
  | valueOf (option : Choice)
  /-- All words are paths. -/
  | paths
  deriving DecidableEq, Repr, Inhabited

/-- The arguments of letters that share a dash. -/
def ofLetters : List Char → Except UsageError (List Argument × Next)
  | [] => .ok ([], .words)
  | c :: rest =>
    match Choice.ofLetter? c with
    | some option =>
      if rest.isEmpty then .ok ([], .valueOf option)
      else .ok ([.choice option (some (String.ofList (rest.dropWhile (· == '='))))], .words)
    | none =>
      match Flag.ofLetter? c with
      | none => .error (.unknownArgument (String.ofList ['-', c]))
      | some f => do
        let argument ← ofFlag f
        let (arguments, next) ← ofLetters rest
        return (argument :: arguments, next)

/-- The argument of a word without its dashes. A flag takes no heed of a value. -/
def ofLong (text : List Char) : Except UsageError (List Argument × Next) := do
  let name := String.ofList (text.takeWhile (· != '='))
  match Choice.ofWord? name with
  | some option =>
    match text.dropWhile (· != '=') with
    | [] => return ([], .valueOf option)
    | value =>
      return ([.choice option (some (String.ofList (value.dropWhile (· == '='))))], .words)
  | none =>
    match Flag.ofWord? name with
    | some f => return ([← ofFlag f], .words)
    | none => .error (.unknownArgument ("--" ++ name))

/-- Is a word nothing but a value or a path? A single dash is. -/
def isPlain (word : String) : Bool :=
  match word.toList with
  | '-' :: _ :: _ => false
  | _ => true

/-- The arguments of a word that starts with a dash. -/
def ofDashed (word : String) : Except UsageError (List Argument × Next) :=
  match word.toList with
  | ['-', '-'] => .ok ([], .paths)
  | '-' :: '-' :: text => ofLong (text.dropWhile (· == '-'))
  | text => ofLetters (text.dropWhile (· == '-'))

/-- The option that waits for a value, if no value comes. -/
def Next.unanswered : Next → List Argument
  | .valueOf option => [.choice option none]
  | _ => []

def Next.plain (next : Next) (word : String) : Argument :=
  match next with
  | .valueOf option => .choice option (some word)
  | _ => .path word

def ofWords : Next → List String → Except UsageError (List Argument)
  | .paths, words => .ok (words.map .path)
  | next, [] => .ok next.unanswered
  | next, word :: rest =>
    if isPlain word then do
      return next.plain word :: (← ofWords .words rest)
    else do
      let (arguments, after) ← ofDashed word
      return next.unanswered ++ arguments ++ (← ofWords after rest)

end Argument

/-! ## Options -/

namespace ToolOptions

def has (arguments : List Argument) (f : Flag) : Bool :=
  arguments.contains (.flag f)

/-- The values that an option is given. -/
def valuesOf (arguments : List Argument) (option : Choice) : List String :=
  arguments.filterMap fun
    | .choice c value => if c = option then value else none
    | _ => none

/-- The number of times that an option is given. -/
def timesOf (arguments : List Argument) (option : Choice) : Nat :=
  arguments.countP fun
    | .choice c _ => c = option
    | _ => false

/-- Why options cannot be followed although each of them is known: one has no value, or
one that means nothing, or is given twice. -/
def misuse? (arguments : List Argument) : Option UsageError :=
  let missing := Choice.all.find? fun c =>
    timesOf arguments c > 0 && (valuesOf arguments c).isEmpty
  let unknown := (valuesOf arguments .architecture).find? fun name =>
    (Architecture.ofName? name).isNone
  let repeatedChoice := Choice.all.find? fun c => timesOf arguments c > 1
  let repeatedFlag := Flag.all.find? fun f => !f.repeats && arguments.count (.flag f) > 1
  (missing.map .missingValue).or <| (unknown.map .unknownArchitecture).or <|
    (repeatedChoice.map fun c => .usedTwice c.name).or <|
      repeatedFlag.map fun f => .usedTwice (String.ofList ('-' :: f.letter?.toList))

def ofArguments (arguments : List Argument) : ToolOptions :=
  let value option := (valuesOf arguments option).head?
  { safe := has arguments .safe
    list := has arguments .list
    stdout := has arguments .stdout
    library := has arguments .library
    json := has arguments .json
    yaml := has arguments .yaml
    templates := (value .templates).map Path.mk
    output := (value .output).map Path.mk
    extensions := value .extensions
    architecture := value .architecture >>= Architecture.ofName?
    operatingSystem := value .operatingSystem
    pcm16 := has arguments .pcm16
    singleThread := has arguments .singleThread
    version := has arguments .version
    rowSync := has arguments .rowSync
    verbose := arguments.count (.flag .verbose)
    paths := arguments.filterMap fun
      | .path text => some ⟨text⟩
      | _ => none }

/-- The options that the words of a command line ask for. -/
def ofWords (words : List String) : Except UsageError ToolOptions := do
  let arguments ← Argument.ofWords .words words
  match misuse? arguments with
  | some e => .error e
  | none => .ok (ofArguments arguments)

end ToolOptions

end ModularSynth
