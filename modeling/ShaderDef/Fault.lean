import ShaderDef.Token

/-! Faults: why a definition is refused, and at which token; and diagnostics, what a user is told
about it. -/

namespace ShaderDef

inductive Diagnostic.Kind where
  | invalidToken | unexpectedToken | unknownToken | unterminatedScope | alreadySet | invalidSyntax
deriving DecidableEq, Repr

structure Diagnostic where
  kind : Diagnostic.Kind
  message : String
  index : Nat
deriving DecidableEq, Repr

namespace Diagnostic.Kind

def description : Kind → String
  | .invalidToken => "invalid token"
  | .unexpectedToken => "unexpected token"
  | .unknownToken => "unknown token"
  | .unterminatedScope => "unterminated scope"
  | .alreadySet => "declared more than once"
  | .invalidSyntax => "invalid syntax"

def suggestion : Kind → Option String
  | .invalidToken => some "the source may only contain printable ASCII"
  | .unterminatedScope => some "add a closing brace \x7d"
  | .alreadySet => some "remove the duplicate declaration"
  | .invalidSyntax => some "declare each entry as \x60type name : slot;\x60"
  | .unexpectedToken | .unknownToken => none

end Diagnostic.Kind

inductive Fault.Cause where
  | invalid
  | unexpected (expected found : Token.Kind)
  | unknown
  | unknownIn (scope : String)
  | unterminated
  | alreadySet (what : String)
  /-- A list of bindings does not consist of whole entries. -/
  | misaligned (list : String)
deriving DecidableEq, Repr

structure Fault where
  cause : Fault.Cause
  index : Nat
deriving DecidableEq, Repr

namespace Fault

def Cause.kind : Cause → Diagnostic.Kind
  | .invalid => .invalidToken
  | .unexpected .. => .unexpectedToken
  | .unknown | .unknownIn _ => .unknownToken
  | .unterminated => .unterminatedScope
  | .alreadySet _ => .alreadySet
  | .misaligned _ => .invalidSyntax

def Cause.message : Cause → String
  | .invalid => "Invalid token"
  | .unexpected expected found => s!"Expected token {expected.name} got: {found.name}"
  | .unknown => "Unknown token"
  | .unknownIn scope => s!"Unknown token inside scope '{scope}'"
  | .unterminated => "Expected '\x7d'"
  | .alreadySet what => s!"{what} already set"
  | .misaligned list => s!"Invalid syntax for '{list}'"

def blame (cause : Cause) (t : Token) : Fault :=
  ⟨cause, t.index⟩

def mismatch (expected : Token.Kind) (found : Token) : Fault :=
  .blame (.unexpected expected found.kind) found

def diagnostic (f : Fault) : Diagnostic :=
  ⟨f.cause.kind, f.cause.message, f.index⟩

end Fault

end ShaderDef
