import ShaderDef.Proofs.Grammar.Value
import ShaderDef.Proofs.Lexical.Join

/-! Well-formed definitions: what a source can declare. Names hold what a string literal may, types
and names of bindings are symbols, slots are symbols or numbers, and the code of a stage is
self-contained: a closing brace behind it is the first that it leaves unmatched. -/

namespace ShaderDef

open Text Grammar

def PlainText (text : String) : Prop :=
  ∀ c ∈ text.toList, (isPrintable c = true ∨ isSpace c = true) ∧ c ≠ '"' ∧ c ≠ '\n' ∧ c ≠ '\r'

structure SymbolText (text : String) : Prop where
  shape : ∃ c cs, text.toList = c :: cs ∧ c.isAlpha = true ∧
    ∀ d ∈ cs, d.isAlphanum = true ∨ d = '_'
  free : text ∉ Token.Kind.keywords.map Prod.fst

def NumberText (text : String) : Prop :=
  text ≠ "" ∧ ∀ d ∈ text.toList, d.isDigit = true

structure Binding.WellFormed (b : Binding) : Prop where
  type : SymbolText b.type
  name : SymbolText b.name
  slot : SymbolText b.slot ∨ NumberText b.slot

structure UniformBuffer.WellFormed (buffer : UniformBuffer) : Prop where
  name : PlainText buffer.name
  bindings : ∀ b ∈ buffer.bindings, b.WellFormed

/-- With a closing brace behind it, the text holds no foreign character, and that brace is the
first without an opening one. -/
structure SelfContained (text : String) : Prop where
  native : ∀ t ∈ Token.ofSource (text ++ "\x7d"), t.kind ≠ .invalid
  closed : ∃ body close rest, Token.ofSource (text ++ "\x7d") = body ++ close :: rest ∧
    Balanced body ∧ close.kind = .rightBrace ∧ close.index = size text.toList

structure Definition.WellFormed (d : Definition) : Prop where
  name : ∀ text, d.interface.name = some text → PlainText text
  entry : ∀ which text, d.interface.entry which = some text → PlainText text
  uniformBuffers : ∀ buffer ∈ d.interface.uniformBuffers, buffer.WellFormed
  textures : ∀ b ∈ d.interface.textures, b.WellFormed
  inputs : ∀ b ∈ d.interface.inputs, b.WellFormed
  pixelInputs : ∀ b ∈ d.interface.pixelInputs, b.WellFormed
  code : ∀ stage text, d.sources.code stage = some text → SelfContained text

def Declaration.WellFormed : Declaration → Prop
  | .name text => PlainText text
  | .uniforms buffer => buffer.WellFormed
  | .textures list | .input list | .pixelInput list => ∀ b ∈ list, b.WellFormed
  | .code _ text => SelfContained text
  | .entry _ text => PlainText text

namespace Declaration.WellFormed

variable {c : Declaration}

theorem uniforms {buffer : UniformBuffer} (shape : c.WellFormed)
    (said : c.uniforms? = some buffer) : buffer.WellFormed := by
  cases c with
  | uniforms other =>
    obtain rfl : other = buffer := by simpa [uniforms?] using said
    exact shape
  | _ => simp [uniforms?] at said

theorem textures (shape : c.WellFormed) : ∀ b ∈ c.textureList, b.WellFormed := by
  cases c with
  | textures list => exact shape
  | _ => simp [textureList]

theorem inputs (shape : c.WellFormed) : ∀ b ∈ c.inputList, b.WellFormed := by
  cases c with
  | input list => exact shape
  | _ => simp [inputList]

theorem pixelInputs (shape : c.WellFormed) : ∀ b ∈ c.pixelInputList, b.WellFormed := by
  cases c with
  | pixelInput list => exact shape
  | _ => simp [pixelInputList]

end Declaration.WellFormed

/-- Well-formed declarations give a well-formed definition. -/
theorem Definition.WellFormed.of_declares {d : Definition} {ds : List Declaration}
    (declares : d.Declares ds) (each : ∀ c ∈ ds, c.WellFormed) : d.WellFormed := by
  have lists : ∀ {list : Declaration → List Binding} {bs : List Binding}, bs = ds.flatMap list →
      (∀ c : Declaration, c.WellFormed → ∀ b ∈ list c, b.WellFormed) →
      ∀ b ∈ bs, b.WellFormed := by
    intro list bs same shapes b member
    rw [same] at member
    obtain ⟨c, there, inside⟩ := List.mem_flatMap.1 member
    exact shapes c (each c there) b inside
  refine
    { name := fun text set => each _ ((declares.name text).1 set)
      entry := fun which text set => each _ ((declares.entry which text).1 set)
      uniformBuffers := ?_
      textures := lists declares.textures fun _ => Declaration.WellFormed.textures
      inputs := lists declares.inputs fun _ => Declaration.WellFormed.inputs
      pixelInputs := lists declares.pixelInputs fun _ => Declaration.WellFormed.pixelInputs
      code := fun stage text set => each _ ((declares.code stage text).1 set) }
  intro buffer member
  rw [declares.uniformBuffers] at member
  obtain ⟨c, there, said⟩ := List.mem_filterMap.1 member
  exact (each c there).uniforms said

theorem isStringPart_iff {c : Char} : Lexeme.isStringPart c = true ↔
    (isPrintable c = true ∨ isSpace c = true) ∧ c ≠ '"' ∧ c ≠ '\n' ∧ c ≠ '\r' := by
  simp only [Lexeme.isStringPart, isBreak, isForeign, Bool.and_eq_true, bne_iff_ne, ne_eq,
    Bool.not_eq_true', Bool.or_eq_false_iff, beq_eq_false_iff_ne, Bool.and_eq_false_iff,
    Bool.not_eq_false']
  tauto

theorem isWordPart_iff {c : Char} :
    isWordPart c = true ↔ c.isAlphanum = true ∨ c = '_' := by
  simp [isWordPart]

namespace Token

variable {ts : List Token}

theorem nested_map_shift (n depth : Nat) :
    Nested depth (ts.map (shift n)) ↔ Nested depth ts := by
  induction ts generalizing depth with
  | nil => rfl
  | cons t ts ih => rw [List.map_cons, nested_cons, nested_cons, kind_shift, ih]

end Token

theorem ofSource_close (text : String) :
    Token.ofSource (text ++ "\x7d") = Token.scan 0 (text.toList ++ ['\x7d']) := by
  rw [Token.ofSource_eq_scan, String.toList_append]
  rfl

end ShaderDef
