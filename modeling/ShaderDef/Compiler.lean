import ShaderDef.Compile
import ShaderDef.Report

/-! Compilers: a source with the definition last compiled from it. A failure leaves no definition
behind. Bindings are handed on with names for what their slots stand for. -/

namespace ShaderDef

def Diagnostic.report (d : Diagnostic) (source filename : String) : Report where
  message := d.message
  source := source
  position := d.index
  filename := filename
  annotation := some d.kind.description
  help := d.kind.suggestion

structure Resource where
  type : String
  name : String
  target : String
deriving DecidableEq, Repr

structure ResourceBuffer where
  name : String
  bindings : List Resource
deriving DecidableEq, Repr

structure Attribute where
  type : String
  name : String
  semantic : String
deriving DecidableEq, Repr

def Binding.toResource (b : Binding) : Resource :=
  ⟨b.type, b.name, b.slot⟩

def Binding.toAttribute (b : Binding) : Attribute :=
  ⟨b.type, b.name, b.slot⟩

def UniformBuffer.toResources (b : UniformBuffer) : ResourceBuffer :=
  ⟨b.name, b.bindings.map Binding.toResource⟩

structure Compiler where
  source : String := ""
  output : Definition := {}
deriving DecidableEq, Repr

namespace Compiler

def ofSource (source : String) : Compiler where
  source := source

def compile (c : Compiler) : Except Fault Unit × Compiler :=
  match ShaderDef.compile c.source with
  | .ok d => (.ok (), { c with output := d })
  | .error fault => (.error fault, { c with output := {} })

def name (c : Compiler) : Option String :=
  c.output.interface.name

def uniformBuffers (c : Compiler) : List ResourceBuffer :=
  c.output.interface.uniformBuffers.map UniformBuffer.toResources

def textures (c : Compiler) : List Resource :=
  c.output.interface.textures.map Binding.toResource

def inputs (c : Compiler) : List Attribute :=
  c.output.interface.inputs.map Binding.toAttribute

def pixelInputs (c : Compiler) : List Attribute :=
  c.output.interface.pixelInputs.map Binding.toAttribute

def vertexEntry (c : Compiler) : Option String :=
  c.output.interface.vertexEntry

def pixelEntry (c : Compiler) : Option String :=
  c.output.interface.pixelEntry

def tokens (c : Compiler) : List Token :=
  Token.ofSource c.source

def locate (c : Compiler) (index : Nat) : Location :=
  .ofOffset c.source index

def explain (c : Compiler) (d : Diagnostic) (filename : String) :
    Except Report.Overflow String :=
  (d.report c.source filename).render

end Compiler

end ShaderDef
