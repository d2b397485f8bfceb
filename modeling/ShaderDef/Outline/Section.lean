import ShaderDef.Outline.Block
import ShaderDef.Outline.Reading

/-! Sections: what stands behind a keyword, lists of bindings among it. An entry of a list consists
of five tokens, `type name : slot ;`, and nothing is left over. Each reader is given the tokens
behind the keyword of a source of `size` bytes, without comments, and returns the tokens behind the
section. -/

namespace ShaderDef

def Token.require (expected : Kind) (t : Token) : Except Fault Unit :=
  if t.kind = expected then .ok () else .error (.mismatch expected t)

def Token.requireSlot (t : Token) : Except Fault Unit :=
  if t.kind = .numberLiteral then .ok () else t.require .symbol

namespace Binding

def ofTokens (type name colon slot semicolon : Token) : Except Fault Binding := do
  type.require .symbol
  name.require .symbol
  colon.require .colon
  slot.requireSlot
  semicolon.require .semicolon
  return ⟨type.text, name.text, slot.text⟩

def listOfTokens (label : String) : List Token → Except Fault (List Binding)
  | type :: name :: colon :: slot :: semicolon :: rest => do
    let binding ← ofTokens type name colon slot semicolon
    let bindings ← listOfTokens label rest
    return binding :: bindings
  | [] => .ok []
  | t :: _ => .error (.blame (.misaligned label) t)

end Binding

namespace Outline

def take (size : Nat) (expected : Token.Kind) : List Token → Except Fault (Token × List Token)
  | [] => .error (.mismatch expected (.finish size))
  | t :: ts => do
    t.require expected
    return (t, ts)

def name (size : Nat) (ts : List Token) : Reading (List Token) := do
  let (text, ts) ← .lift (take size .stringLiteral ts)
  let (_, ts) ← .lift (take size .semicolon ts)
  .emit (.name text.text)
  return ts

def bindings (size : Nat) (label : String) (event : List Binding → Event) (ts : List Token) :
    Reading (List Token) := do
  let (_, ts) ← .lift (take size .leftBrace ts)
  let block ← .lift (Block.declarations size ts)
  let list ← .lift (Binding.listOfTokens label block.body)
  .emit (event list)
  return block.rest

def uniforms (size : Nat) (ts : List Token) : Reading (List Token) := do
  let (buffer, ts) ← .lift (take size .stringLiteral ts)
  bindings size "Uniforms" (fun list => .uniforms ⟨buffer.text, list⟩) ts

def code (size : Nat) (stage : Stage) (ts : List Token) : Reading (List Token) := do
  let (brace, ts) ← .lift (take size .leftBrace ts)
  let block ← .lift (Block.code size ts)
  .emit (.code stage (brace.index + 1) block.close.index)
  return block.rest

/-- Reads entry points, each a keyword, a string and a semicolon. Where the block ends too early,
its closing brace is blamed. -/
def entries (close : Token) : List Token → Reading Unit
  | [] => pure ()
  | t :: ts =>
    match Entry.ofKeyword? t.kind with
    | none => .fail (.blame (.unknownIn "Entrypoint") t)
    | some entry => do
      let text := ts.headD close
      .emit (.opens (.entry entry) t.index)
      .lift (text.require .stringLiteral)
      .lift ((ts.tail.headD close).require .semicolon)
      .emit (.entry entry text.text)
      entries close ts.tail.tail
termination_by ts => ts.length

def entrypoints (size : Nat) (ts : List Token) : Reading (List Token) := do
  let (_, ts) ← .lift (take size .leftBrace ts)
  let block ← .lift (Block.declarations size ts)
  entries block.close block.body
  return block.rest

end Outline

end ShaderDef
