import ShaderDef.Command.Run

/-! The command line: performs a run on the files and the streams of the process. -/

namespace ShaderDef

namespace Command

/-- The number of a system error, which some actions report negated. -/
def errorNumber (code : UInt32) : UInt32 :=
  min code (0 - code)

def Failure.ofError (e : IO.Error) : Failure :=
  match e with
  | .noFileOrDirectory .. => .missing
  | .permissionDenied .. => .denied
  | .inappropriateType _ code _ => if errorNumber code = 21 then .isDirectory else .notDirectory
  | .invalidArgument _ code _ =>
    if errorNumber code = 36 then .nameTooLong else .other (toString e)
  | _ => .other (toString e)

def attempt {α : Type} (act : IO α) : IO (Except Failure α) := do
  try
    return .ok (← act)
  catch e =>
    return .error (.ofError e)

def Options.load (o : Options) : IO (Except Failure ByteArray) :=
  match o.input with
  | some (.file path) => attempt (IO.FS.readBinFile path)
  | _ => attempt do (← IO.getStdin).readBinToEnd

/-- Performs a run, and again in vain if its file cannot be written. -/
def Options.perform (o : Options) : IO Outcome := do
  let contents ← if o.mode.needsInput then o.load else pure (.error .missing)
  let hoped := o.execute contents none
  match hoped.written with
  | none => return hoped
  | some (path, text) =>
    match ← attempt (IO.FS.writeFile path text) with
    | .ok _ => return hoped
    | .error cause => return o.execute contents (some cause)

end Command

end ShaderDef

open ShaderDef.Command in
def main (arguments : List String) : IO UInt32 := do
  let outcome ←
    match Options.parse arguments with
    | .error e => pure (Outcome.usageError e)
    | .ok o => o.perform
  (← IO.getStdout).putStr outcome.stdout
  (← IO.getStderr).putStr outcome.stderr
  return outcome.exit.toUInt32
