import ShaderDef.Cursor
import ShaderDef.Outline.Scope

/-! Compilation: the definition that the events of a source declare. -/

namespace ShaderDef

def Outline.ofSource (source : String) : Reading Unit :=
  ofTokens (Text.size source.toList) (Token.ofSource source)

namespace Event

def name? : Event → Option String
  | .name text => some text
  | _ => none

def uniforms? : Event → Option UniformBuffer
  | .uniforms buffer => some buffer
  | _ => none

def textureList : Event → List Binding
  | .textures list => list
  | _ => []

def inputList : Event → List Binding
  | .input list => list
  | _ => []

def pixelInputList : Event → List Binding
  | .pixelInput list => list
  | _ => []

def entry? (which : Entry) : Event → Option String
  | .entry point text => if point = which then some text else none
  | _ => none

def code? (source : String) (which : Stage) : Event → Option String
  | .code stage start stop =>
    if stage = which then some (String.ofList (Text.slice start stop source.toList)) else none
  | _ => none

end Event

namespace Definition

/-- Buffers and textures add up in source order; every other item is declared once at most. -/
def ofEvents (source : String) (events : List Event) : Definition where
  interface :=
    { name := events.findSome? Event.name?
      uniformBuffers := events.filterMap Event.uniforms?
      textures := events.flatMap Event.textureList
      inputs := events.flatMap Event.inputList
      pixelInputs := events.flatMap Event.pixelInputList
      vertexEntry := events.findSome? (Event.entry? .vertex)
      pixelEntry := events.findSome? (Event.entry? .fragment) }
  sources :=
    { shared := events.findSome? (Event.code? source .shared)
      vertex := events.findSome? (Event.code? source .vertex)
      fragment := events.findSome? (Event.code? source .fragment) }

end Definition

def compile (source : String) : Except Fault Definition :=
  let reading := Outline.ofSource source
  reading.result.map fun _ => .ofEvents source reading.events

end ShaderDef
