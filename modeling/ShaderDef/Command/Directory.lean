/-! Files, as a run of the command finds them, and directories: where a path leads to, and why
reading or writing there fails. -/

namespace ShaderDef

namespace Command

inductive Failure where
  | missing | denied | notDirectory | isDirectory | nameTooLong | encoding
  | other (text : String)
deriving DecidableEq, Repr

def Failure.message : Failure → String
  | .missing => "No such file or directory (os error 2)"
  | .denied => "Permission denied (os error 13)"
  | .notDirectory => "Not a directory (os error 20)"
  | .isDirectory => "Is a directory (os error 21)"
  | .nameTooLong => "File name too long (os error 36)"
  | .encoding => "stream did not contain valid UTF-8"
  | .other text => text

structure Files where
  read : String → Except Failure ByteArray
  refuses? : String → Option Failure

/-- A directory that holds files only. It stands in a directory of which nothing more is known, up
to the root. -/
structure Directory where
  files : List (String × ByteArray) := []

inductive Directory.Stand where
  | inside | above
deriving DecidableEq, Repr

inductive Directory.Target where
  | directory
  | name (stand : Stand) (name : String)
deriving DecidableEq, Repr

namespace Directory

def nameLimit : Nat := 255

def pathLimit : Nat := 4095

def contents? (d : Directory) (name : String) : Option ByteArray :=
  d.files.lookup name

def parts (path : String) : List String :=
  (path.splitOn "/").filter (· != "")

def blocked (d : Directory) : Stand → String → Failure
  | .inside, name => if (d.contents? name).isSome then .notDirectory else .missing
  | .above, _ => .missing

def walk (d : Directory) (stand : Stand) : List String → Except Failure Target
  | [] => .ok .directory
  | part :: rest =>
    if part = "." then d.walk stand rest
    else if part = ".." then d.walk .above rest
    else if rest = [] then .ok (.name stand part)
    else if nameLimit < part.utf8ByteSize then .error .nameTooLong
    else .error (d.blocked stand part)

def locate (d : Directory) (path : String) : Except Failure Target :=
  if path = "" then .error .missing
  else if pathLimit < path.utf8ByteSize then .error .nameTooLong
  else d.walk (if path.startsWith "/" then .above else .inside) (parts path)

def read (d : Directory) (path : String) : Except Failure ByteArray := do
  match ← d.locate path with
  | .directory => .error .isDirectory
  | .name stand name =>
    if nameLimit < name.utf8ByteSize then .error .nameTooLong
    else
      match stand, d.contents? name with
      | .inside, some contents => if path.endsWith "/" then .error .notDirectory else .ok contents
      | _, _ => .error .missing

/-- Why a file cannot be written, if it cannot. Writing makes files but no directories. -/
def refuses? (d : Directory) (path : String) : Option Failure :=
  match d.locate path with
  | .error failure => some failure
  | .ok .directory => some .isDirectory
  | .ok (.name _ name) =>
    if path.endsWith "/" then some .isDirectory
    else if nameLimit < name.utf8ByteSize then some .nameTooLong
    else none

end Directory

end Command

end ShaderDef
