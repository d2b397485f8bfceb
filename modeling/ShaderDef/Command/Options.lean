/-! Options of the command line, written `-name` or `-name=value`. Any other argument is the path of
the input. -/

namespace ShaderDef

namespace Command

inductive Mode where
  | compile | tokens | help | version
deriving DecidableEq, Repr

inductive Input where
  | stdin
  | file (path : String)
deriving DecidableEq, Repr

structure Options where
  mode : Mode
  verbose : Bool
  input : Option Input
  output : Option String
deriving DecidableEq, Repr

inductive Argument where
  | help | version | verbose | stdin | tokens
  | output (path : String)
  | file (path : String)
deriving DecidableEq, Repr

inductive UsageError where
  | severalFiles
  | outputWithoutPath
  | valueNotTaken (option : String)
  | unknownOption (argument : String)
  | stdinAndFile (path : String)
  | noInput
deriving DecidableEq, Repr

def UsageError.message : UsageError → String
  | .severalFiles => "more than one input file given"
  | .outputWithoutPath => "option -o needs a path, as in -o=<path>"
  | .valueNotTaken option => s!"option -{option} takes no value"
  | .unknownOption argument => s!"unknown option: {argument}"
  | .stdinAndFile path => s!"cannot read both stdin and {path}"
  | .noInput => "no input given; pass a file or -stdin"

namespace Argument

def flags : List (String × Argument) :=
  [("help", .help), ("h", .help), ("?", .help), ("version", .version), ("verbose", .verbose),
   ("stdin", .stdin), ("tokens", .tokens)]

def divide (option : List Char) : String × Option String :=
  let name := String.ofList (option.takeWhile (· != '='))
  match option.dropWhile (· != '=') with
  | [] => (name, none)
  | _ :: value => (name, some (String.ofList value))

def ofOption (argument : String) (option : List Char) : Except UsageError Argument :=
  match divide option with
  | ("o", value) =>
    match value with
    | none => .error .outputWithoutPath
    | some path => if path = "" then .error .outputWithoutPath else .ok (.output path)
  | (name, value) =>
    match flags.lookup name, value with
    | some flag, none => .ok flag
    | some _, some _ => .error (.valueNotTaken name)
    | none, _ => .error (.unknownOption argument)

def ofString (argument : String) : Except UsageError Argument :=
  match argument.toList with
  | '-' :: option => ofOption argument option
  | _ => .ok (.file argument)

end Argument

def Mode.needsInput : Mode → Bool
  | .compile | .tokens => true
  | .help | .version => false

structure Seen where
  mode : Mode := .compile
  verbose : Bool := false
  stdin : Bool := false
  file : Option String := none
  output : Option String := none
deriving DecidableEq, Repr

namespace Seen

def add (s : Seen) : Argument → Except UsageError Seen
  | .help => .ok { s with mode := .help }
  | .version => .ok (if s.mode = .help then s else { s with mode := .version })
  | .verbose => .ok { s with verbose := true }
  | .stdin => .ok { s with stdin := true }
  | .tokens => .ok (if s.mode = .compile then { s with mode := .tokens } else s)
  | .output path => .ok { s with output := some path }
  | .file path => if s.file.isSome then .error .severalFiles else .ok { s with file := some path }

def read (s : Seen) (argument : String) : Except UsageError Seen := do
  s.add (← Argument.ofString argument)

def input? (s : Seen) : Except UsageError (Option Input) :=
  match s.stdin, s.file with
  | true, some path => .error (.stdinAndFile path)
  | true, none => .ok (some .stdin)
  | false, some path => .ok (some (.file path))
  | false, none => .ok none

def options (s : Seen) : Except UsageError Options := do
  let input ← s.input?
  if s.mode.needsInput && input.isNone then .error .noInput
  return { mode := s.mode, verbose := s.verbose, input := input, output := s.output }

end Seen

namespace Options

def parse (arguments : List String) : Except UsageError Options := do
  let seen ← arguments.foldlM Seen.read {}
  seen.options

def displayName (o : Options) : String :=
  match o.input with
  | some (.file path) => path
  | _ => "<stdin>"

end Options

end Command

end ShaderDef
