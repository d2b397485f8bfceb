import ShaderDef.Proofs.Grammar.Native
import ShaderDef.Proofs.Roundtrip.Image

/-! Output: what a compiled definition hands on. Main statement: every foreign character of a
source is a token that no definition has a place for, so a source with one is refused, and all
texts of a compiled definition are printable characters and white space. -/

namespace ShaderDef

open Text

def Binding.texts (b : Binding) : List String :=
  [b.type, b.name, b.slot]

def UniformBuffer.texts (buffer : UniformBuffer) : List String :=
  buffer.name :: buffer.bindings.flatMap Binding.texts

def Interface.texts (i : Interface) : List String :=
  i.name.toList ++ i.uniformBuffers.flatMap UniformBuffer.texts ++
    (i.textures ++ i.inputs ++ i.pixelInputs).flatMap Binding.texts ++
    i.vertexEntry.toList ++ i.pixelEntry.toList

def Sources.texts (s : Sources) : List String :=
  s.shared.toList ++ s.vertex.toList ++ s.fragment.toList

def Definition.texts (d : Definition) : List String :=
  d.interface.texts ++ d.sources.texts

def NativeText (text : String) : Prop :=
  ∀ c ∈ text.toList, isForeign c = false

theorem isForeign_eq_false_iff {c : Char} :
    isForeign c = false ↔ isPrintable c = true ∨ isSpace c = true := by
  rw [isForeign, Bool.and_eq_false_iff, Bool.not_eq_false', Bool.not_eq_false']

theorem PlainText.native {text : String} (plain : PlainText text) : NativeText text :=
  fun c inside => isForeign_eq_false_iff.2 (plain c inside).1

theorem SymbolText.native {text : String} (symbol : SymbolText text) : NativeText text := by
  obtain ⟨c, cs, whole, letter, parts⟩ := symbol.shape
  rw [NativeText, whole, List.forall_mem_cons]
  refine ⟨(class_of_isAlpha letter).1, fun d inside => ?_⟩
  exact Lexeme.native_of_wordPart (isWordPart_iff.2 (parts d inside))

theorem NumberText.native {text : String} (number : NumberText text) : NativeText text :=
  fun c inside => (class_of_isDigit (number.2 c inside)).1

theorem SelfContained.text_native {text : String} (code : SelfContained text) :
    NativeText text := by
  intro c inside
  apply Token.native_of_tokens code.native
  rw [String.toList_append]
  exact List.mem_append_left _ inside

theorem Binding.WellFormed.native {b : Binding} (shape : b.WellFormed) :
    ∀ text ∈ b.texts, NativeText text := by
  have slot : NativeText b.slot := shape.slot.elim SymbolText.native NumberText.native
  simp only [texts, List.forall_mem_cons]
  exact ⟨shape.type.native, shape.name.native, slot, List.forall_mem_nil _⟩

theorem list_native {list : List Binding} (shapes : ∀ b ∈ list, b.WellFormed) :
    ∀ text ∈ list.flatMap Binding.texts, NativeText text := by
  intro text inside
  obtain ⟨b, listed, said⟩ := List.mem_flatMap.1 inside
  exact (shapes b listed).native text said

theorem UniformBuffer.WellFormed.native {buffer : UniformBuffer} (shape : buffer.WellFormed) :
    ∀ text ∈ buffer.texts, NativeText text :=
  List.forall_mem_cons.2 ⟨shape.name.native, list_native shape.bindings⟩

theorem option_native {value : Option String}
    (shape : ∀ text, value = some text → NativeText text) :
    ∀ text ∈ value.toList, NativeText text :=
  fun text inside => shape text (Option.mem_toList.1 inside)

theorem Definition.WellFormed.native {d : Definition} (shape : d.WellFormed) :
    ∀ text ∈ d.texts, NativeText text := by
  have name := option_native fun text set => (shape.name text set).native
  have entry := fun which => option_native fun text set => (shape.entry which text set).native
  have code := fun stage => option_native fun text set => (shape.code stage text set).text_native
  have buffers : ∀ text ∈ d.interface.uniformBuffers.flatMap UniformBuffer.texts,
      NativeText text := by
    intro text inside
    obtain ⟨buffer, listed, said⟩ := List.mem_flatMap.1 inside
    exact (shape.uniformBuffers buffer listed).native text said
  simp only [texts, Interface.texts, Sources.texts, List.flatMap_append, List.forall_mem_append]
  exact ⟨⟨⟨⟨⟨name, buffers⟩, ⟨list_native shape.textures, list_native shape.inputs⟩,
    list_native shape.pixelInputs⟩, entry .vertex⟩, entry .fragment⟩,
    ⟨code .shared, code .vertex⟩, code .fragment⟩

theorem native_of_compile {source : String} {d : Definition} (ok : compile source = .ok d) :
    NativeText source := by
  obtain ⟨ds, program, _⟩ := program_of_compile ok
  exact Token.native_of_tokens program.native

/-- The foreign characters of a source are, in their order, its foreign tokens. With one of them no
source compiles, and no output has one. -/
theorem compile_native (source : String) :
    ((Token.stream source).filter fun t => t.kind = .invalid) =
      (foreigners 0 source.toList).map Token.ofForeign ∧
    ((∃ c ∈ source.toList, isForeign c = true) → ∃ f, compile source = .error f) ∧
    ∀ d, compile source = .ok d →
      ∀ text ∈ d.texts, ∀ c ∈ text.toList, isPrintable c = true ∨ isSpace c = true := by
  refine ⟨Token.foreigners_ofSource source, ?_, ?_⟩
  · rintro ⟨c, inside, foreign⟩
    cases done : compile source with
    | error f => exact ⟨f, rfl⟩
    | ok d =>
      have native := native_of_compile done c inside
      rw [foreign] at native
      contradiction
  · intro d ok text said c inside
    have shape := wellFormed_of_compile ok
    exact isForeign_eq_false_iff.1 (shape.native text said c inside)

/-- A foreign character behind an operator, and a definition with code between its braces. -/
theorem compile_native_code :
    (∃ f, compile "Name =é \"n\";" = .error f) ∧
    ∃ d, compile "Name \"n\"; Shader \x7b Vertex \x7b =\t1 \x7d \x7d" = .ok d ∧
      d.texts = ["n", " =\t1 "] ∧
      ∀ text ∈ d.texts, ∀ c ∈ text.toList, isPrintable c = true ∨ isSpace c = true := by
  have foreign : ∃ c ∈ "Name =é \"n\";".toList, isForeign c = true :=
    ⟨'é', by decide, by decide⟩
  have ok : compile "Name \"n\"; Shader \x7b Vertex \x7b =\t1 \x7d \x7d" =
      .ok { interface := { name := some "n" }, sources := { vertex := some " =\t1 " } } := by
    decide +kernel
  exact ⟨(compile_native _).2.1 foreign, _, ok, rfl, (compile_native _).2.2 _ ok⟩

end ShaderDef
