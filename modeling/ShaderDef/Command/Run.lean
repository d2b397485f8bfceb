import ShaderDef.Command.Directory
import ShaderDef.Command.Options
import ShaderDef.Compiler
import ShaderDef.Definition.Json
import ShaderDef.Log
import ShaderDef.Text.Shown

/-! Runs of the command: what it prints, what it writes, and its exit status, as a function of its
arguments and of what it reads. -/

namespace ShaderDef

namespace Command

def usage : String :=
  "Usage: nslc [options] <input>\n"
    ++ "\n"
    ++ "Compiles a shader definition and writes its metadata and stage sources as JSON.\n"
    ++ "\n"
    ++ "Options:\n"
    ++ "  -help, -h, -?    Print this help and exit\n"
    ++ "  -version         Print the version and exit\n"
    ++ "  -verbose         Log compiler progress to stderr\n"
    ++ "  -stdin           Read the definition from standard input\n"
    ++ "  -tokens          Print the token stream instead of compiling\n"
    ++ "  -o=<path>        Write the JSON output to <path> instead of stdout\n"

def version : String :=
  "nslc 0.1.0"

structure Outcome where
  exit : Nat := 0
  stdout : String := ""
  stderr : String := ""
  written : Option (String × String) := none
deriving DecidableEq, Repr

namespace Outcome

def usageError (e : UsageError) : Outcome where
  exit := 1
  stderr := s!"error: {e.message}\n\n{usage}\n"

def failure (what : String) (cause : Failure) : Outcome where
  exit := 1
  stderr := s!"Error: failed to {what}\n\nCaused by:\n    {cause.message}\n"

/-- A refusal of the definition. A report that cannot be laid out ends the run abnormally. -/
def refusal (report : Except Report.Overflow String) : Outcome :=
  match report with
  | .ok text => { exit := 1, stderr := text }
  | .error _ => { exit := 101 }

end Outcome

/-- A log record with its origin, as the verbose command prints it: later lines of the message are
indented, and what is not text is left out, be it the end of the line. -/
def logLine (origin : String) (r : Log.Record) : String :=
  let level := r.level.name.toList.rightpad 5 ' '
  let message := r.message.toList.flatMap fun c =>
    if c = '\n' then '\n' :: List.replicate 4 ' ' else [c]
  String.ofList <| Text.plain <|
    ['['] ++ level ++ [' '] ++ origin.toList ++ [']', ' '] ++ message ++ ['\n']

def progress (source : String) : String :=
  let records := (Log.ofSource source false).filter fun r => r.level != .trace
  "".intercalate (records.map (logLine "nsl_compiler::compiler"))

namespace Options

def inputName (o : Options) : String :=
  match o.input with
  | some (.file path) => path
  | _ => "stdin"

def read (o : Options) (stdin : ByteArray) (files : Files) : Except Failure ByteArray :=
  match o.input with
  | some (.file path) => files.read path
  | _ => .ok stdin

def printTokens (source : String) : Outcome where
  stdout := "".intercalate ((Token.ofSource source).map fun t => t.display ++ "\n")

def deliver (o : Options) (text log : String) (refused : Option Failure) : Outcome :=
  match o.output, refused with
  | none, _ => { stdout := text, stderr := log }
  | some path, some cause =>
    let failed := Outcome.failure s!"write {path}" cause
    { failed with stderr := log ++ failed.stderr }
  | some path, none =>
    let wrote := if o.verbose then logLine "nslc" ⟨.info, s!"wrote {path}"⟩ else ""
    { stderr := log ++ wrote, written := some (path, text) }

def compile (o : Options) (source : String) (refused : Option Failure) : Outcome :=
  let compiler := Compiler.ofSource source
  match compiler.compile with
  | (.error fault, failed) => .refusal (failed.explain fault.diagnostic o.displayName)
  | (.ok _, done) =>
    let log := if o.verbose then progress source else ""
    o.deliver (done.output.toJson.pretty ++ "\n") log refused

def execute (o : Options) (contents : Except Failure ByteArray) (refused : Option Failure) :
    Outcome :=
  let withSource (act : String → Outcome) : Outcome :=
    match contents with
    | .error cause => .failure s!"read {o.inputName}" cause
    | .ok bytes =>
      match String.fromUTF8? bytes with
      | none => .failure s!"read {o.inputName}" .encoding
      | some source => act source
  match o.mode with
  | .help => { stdout := usage }
  | .version => { stdout := version ++ "\n" }
  | .tokens => withSource printTokens
  | .compile => withSource fun source => o.compile source refused

end Options

def runOn (arguments : List String) (stdin : ByteArray) (files : Files) : Outcome :=
  match Options.parse arguments with
  | .error e => .usageError e
  | .ok o => o.execute (o.read stdin files) (o.output.bind files.refuses?)

def run (arguments : List String) (stdin : ByteArray) (d : Directory) : Outcome :=
  runOn arguments stdin ⟨d.read, d.refuses?⟩

end Command

end ShaderDef
