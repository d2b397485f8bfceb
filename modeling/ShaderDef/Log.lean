import ShaderDef.Compile
import ShaderDef.Text.Shown

/-! Logs: what compiling a source tells on the way. Every completed declaration leaves a record, and
so does a success. -/

namespace ShaderDef

inductive Log.Level where
  | trace | debug | info
deriving DecidableEq, Repr

structure Log.Record where
  level : Log.Level
  message : String
deriving DecidableEq, Repr

def Log.Level.name : Level → String
  | .trace => "TRACE"
  | .debug => "DEBUG"
  | .info => "INFO"

open Text

def Event.record? : Event → Option Log.Record
  | .opens .. => none
  | .name text => some ⟨.trace, s!"program name {quoteLogged text}"⟩
  | .uniforms buffer =>
    some ⟨.trace,
      s!"uniform buffer {quoteLogged buffer.name} with {buffer.bindings.length} bindings"⟩
  | .textures list => some ⟨.trace, s!"{list.length} textures"⟩
  | .input list => some ⟨.trace, s!"Input section with {list.length} entries"⟩
  | .pixelInput list => some ⟨.trace, s!"PixelInput section with {list.length} entries"⟩
  | .code stage start stop => some ⟨.trace, s!"{stage.label} with {stop - start} bytes"⟩
  | .entry point text => some ⟨.trace, s!"{point.label} {quoteLogged text}"⟩

def Definition.record (d : Definition) : Log.Record :=
  let i := d.interface
  let name := quoteLogged (i.name.getD "<unnamed>")
  let counts := s!"{i.uniformBuffers.length} uniform buffers, {i.textures.length} textures"
    ++ s!", {i.inputs.length} inputs, {i.pixelInputs.length} pixel inputs"
  ⟨.debug, s!"compiled {name}: {counts}"⟩

namespace Log

def declarations (source : String) : List Record :=
  (Outline.ofSource source).events.filterMap Event.record?

def success (source : String) : List Record :=
  match compile source with
  | .ok d => [d.record]
  | .error _ => []

def tokens (source : String) : List Record :=
  (Token.ofSource source).map fun t => ⟨.debug, t.display⟩

def ofSource (source : String) (showTokens : Bool) : List Record :=
  (if showTokens then tokens source else []) ++ declarations source ++ success source

end Log

end ShaderDef
