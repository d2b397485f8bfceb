import ShaderDef.Token

/-! Definitions: what a shader definition declares, and the events in which a source declares it.
The interface names the program, its bindings and its entry points; the sources are the stage texts,
taken over as they stand. An item that may be declared once is opened by its keyword before the
declaration is complete. -/

namespace ShaderDef

structure Binding where
  type : String
  name : String
  slot : String
deriving DecidableEq, Repr

structure UniformBuffer where
  name : String
  bindings : List Binding
deriving DecidableEq, Repr

structure Interface where
  name : Option String := none
  uniformBuffers : List UniformBuffer := []
  textures : List Binding := []
  inputs : List Binding := []
  pixelInputs : List Binding := []
  vertexEntry : Option String := none
  pixelEntry : Option String := none
deriving DecidableEq, Repr

structure Sources where
  shared : Option String := none
  vertex : Option String := none
  fragment : Option String := none
deriving DecidableEq, Repr

structure Definition where
  interface : Interface := {}
  sources : Sources := {}
deriving DecidableEq, Repr

inductive Stage where
  | shared | vertex | fragment
deriving DecidableEq, Repr

inductive Entry where
  | vertex | fragment
deriving DecidableEq, Repr

inductive Item where
  | name | input | pixelInput
  | code (stage : Stage)
  | entry (entry : Entry)
deriving DecidableEq, Repr

inductive Event where
  /-- The keyword of an item has been read, at a byte offset. -/
  | opens (item : Item) (index : Nat)
  | name (text : String)
  | uniforms (buffer : UniformBuffer)
  | textures (bindings : List Binding)
  | input (bindings : List Binding)
  | pixelInput (bindings : List Binding)
  /-- The code of a stage stands between two byte offsets. -/
  | code (stage : Stage) (start stop : Nat)
  | entry (entry : Entry) (text : String)
deriving DecidableEq, Repr

def Stage.ofKeyword? : Token.Kind → Option Stage
  | .sharedKeyword => some .shared
  | .vertexKeyword => some .vertex
  | .fragmentKeyword => some .fragment
  | _ => none

def Entry.ofKeyword? : Token.Kind → Option Entry
  | .vertexKeyword => some .vertex
  | .fragmentKeyword => some .fragment
  | _ => none

def Stage.label : Stage → String
  | .shared => "Shared shader"
  | .vertex => "Vertex shader"
  | .fragment => "Fragment shader"

def Entry.label : Entry → String
  | .vertex => "Vertex entrypoint"
  | .fragment => "Fragment entrypoint"

def Item.label : Item → String
  | .name => "Name"
  | .input => "Input"
  | .pixelInput => "PixelInput"
  | .code stage => stage.label
  | .entry point => point.label

def Event.opened? : Event → Option Item
  | .opens item _ => some item
  | _ => none

end ShaderDef
