import ShaderDef.Definition.Basic
import ShaderDef.Text.Shown

/-! Definitions as JSON. The text of a value has one item a line, indented by two spaces a level. -/

namespace ShaderDef

inductive Json where
  | null
  | string (text : String)
  | array (items : List Json)
  | object (fields : List (String × Json))

namespace Json

def indent (depth : Nat) : String :=
  String.ofList (List.replicate (2 * depth) ' ')

def enclose (left right : String) (depth : Nat) (items : List String) : String :=
  if items.isEmpty then left ++ right
  else
    let lines := items.map fun item => indent (depth + 1) ++ item
    left ++ "\n" ++ ",\n".intercalate lines ++ "\n" ++ indent depth ++ right

mutual

def render (depth : Nat) : Json → String
  | .null => "null"
  | .string text => Text.quoteJson text
  | .array items => enclose "[" "]" depth (renderItems (depth + 1) items)
  | .object fields => enclose "\x7b" "\x7d" depth (renderFields (depth + 1) fields)

def renderItems (depth : Nat) : List Json → List String
  | [] => []
  | item :: items => item.render depth :: renderItems depth items

def renderFields (depth : Nat) : List (String × Json) → List String
  | [] => []
  | (key, value) :: fields =>
    (Text.quoteJson key ++ ": " ++ value.render depth) :: renderFields depth fields

end

def pretty (value : Json) : String :=
  value.render 0

def ofOption : Option String → Json
  | none => .null
  | some text => .string text

end Json

def Binding.toJson (b : Binding) : Json :=
  .object [("type", .string b.type), ("name", .string b.name), ("slot", .string b.slot)]

def UniformBuffer.toJson (b : UniformBuffer) : Json :=
  .object [("name", .string b.name), ("bindings", .array (b.bindings.map Binding.toJson))]

def Interface.toJson (i : Interface) : Json :=
  .object
    [("name", .ofOption i.name),
     ("uniform_buffers", .array (i.uniformBuffers.map UniformBuffer.toJson)),
     ("textures", .array (i.textures.map Binding.toJson)),
     ("inputs", .array (i.inputs.map Binding.toJson)),
     ("fragment_inputs", .array (i.pixelInputs.map Binding.toJson)),
     ("vertex_entrypoint", .ofOption i.vertexEntry),
     ("fragment_entrypoint", .ofOption i.pixelEntry)]

def Sources.toJson (s : Sources) : Json :=
  .object
    [("shared", .ofOption s.shared), ("vertex", .ofOption s.vertex),
     ("fragment", .ofOption s.fragment)]

def Definition.toJson (d : Definition) : Json :=
  .object [("meta", d.interface.toJson), ("sources", d.sources.toJson)]

end ShaderDef
