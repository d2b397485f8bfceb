import ShaderDef.Proofs.Roundtrip.Image
import ShaderDef.Proofs.Roundtrip.Spells

/-! The canonical text of a well-formed definition compiles to that definition. Main statement: the
well-formed definitions are the compiled ones, and their canonical texts are read back. -/

namespace ShaderDef

open Text Grammar

namespace Grammar

variable {α : Type} {P : List Token → α → Prop} {ts us : List Token} {as bs : List α} {a : α}

theorem Star.append (first : Star P ts as) (second : Star P us bs) :
    Star P (ts ++ us) (as ++ bs) := by
  induction first with
  | nil => exact second
  | cons head _ ih =>
    rw [List.append_assoc]
    exact .cons head ih

theorem Star.single (part : P ts a) : Star P ts [a] := by
  have star := Star.cons part .nil
  rwa [List.append_nil] at star

end Grammar

/-- The tokens of self-contained code are code wherever a closing brace stands behind it. -/
theorem SelfContained.scan {text : String} (self : SelfContained text) (offset : Nat)
    (behind : List Char) :
    ∃ body, Raw body ∧ Token.scan offset (text.toList ++ '\x7d' :: behind) =
      body ++ ⟨.rightBrace, offset + size text.toList, "\x7d"⟩ ::
        Token.scan (offset + size text.toList + 1) behind := by
  obtain ⟨native, body, close, rest, whole, balanced, _, place⟩ := self
  rw [ofSource_close] at native whole
  rw [whole] at native
  obtain ⟨rfl, exchanged⟩ :=
    Token.scan_exchange Token.alone_rightBrace whole (by rw [place, Nat.zero_add])
  have moved := Token.scan_shift 0 offset (text.toList ++ '\x7d' :: behind)
  rw [exchanged behind, List.map_append, List.map_cons, ← Token.scan_shift] at moved
  refine ⟨body.map (Token.shift offset), ⟨?_, fun t inside => ?_⟩, ?_⟩
  · exact balanced_iff.2 ((Token.nested_map_shift offset 0).2 (balanced_iff.1 balanced))
  · obtain ⟨s, there, rfl⟩ := List.mem_map.1 inside
    exact native s (List.mem_append_left _ there)
  · simp only [Token.shift, Nat.zero_add, Nat.add_right_comm _ _ offset] at moved
    rw [Nat.add_comm offset]
    exact moved

section Sections

variable {source : String} {d : Definition}

theorem spells_line {keyword text : String} {kind : Token.Kind}
    (listed : (keyword, kind) ∈ Token.Kind.keywords) (plain : PlainText text) :
    Spells source (Both (Named kind keyword) (Both (Named .stringLiteral text)
      (Named .semicolon ";"))) (Render.line keyword text) :=
  (spells_keyword listed).both ((spells_string plain).both spells_semicolon)

theorem spells_name {text : String} (plain : PlainText text) :
    Spells source (fun ts => Section source ts [.name text]) (Render.line "Name" text) := by
  have listed : ("Name", Token.Kind.nameKeyword) ∈ Token.Kind.keywords := by decide
  apply (spells_line listed plain).imp
  intro _ spelled
  obtain ⟨s₁, _, rfl, ⟨_, opened, _⟩, s₂, s₃, rfl, ⟨_, named, rfl⟩, ⟨_, ended, _⟩⟩ := spelled
  exact .name opened named ended

theorem spells_entry {e : Entry × String} (plain : PlainText e.2) :
    Spells source (fun ts => Entered ts (.entry e.1 e.2)) (Render.entry e) := by
  obtain ⟨which, text⟩ := e
  have listed : (which.word, which.keyword) ∈ Token.Kind.keywords := by cases which <;> decide
  apply (spells_line listed plain).imp
  intro _ spelled
  obtain ⟨s₁, _, rfl, ⟨_, opened, _⟩, s₂, s₃, rfl, ⟨_, named, rfl⟩, ⟨_, ended, _⟩⟩ := spelled
  exact .intro which opened named ended

theorem spells_buffer {u : UniformBuffer} (shape : u.WellFormed) :
    Spells source (fun ts => Bindings ts [.uniforms u]) (Render.buffer u) := by
  obtain ⟨name, bindings⟩ := u
  have keyword : Spells source (Named .uniformsKeyword "Uniforms") ("Uniforms" ++ " ") :=
    spells_keyword (by decide)
  have head := (keyword.both (spells_string shape.name)).space
  apply (spells_scope head (spells_list shape.bindings)).imp
  intro _ spelled
  obtain ⟨_, s₃, rfl, ⟨s₁, s₂, rfl, ⟨_, opened, _⟩, ⟨_, named, rfl⟩⟩, listed⟩ := spelled
  rw [List.append_assoc]
  exact .uniforms opened named listed

theorem spells_bindings (shape : d.WellFormed) :
    Spells source (fun ts => Section source ts d.bindingsParts.flatten)
      (Render.bindings d.interface) := by
  have buffers : Spells source (fun ts => Star Bindings ts
      (d.interface.uniformBuffers.map fun u => [.uniforms u]))
      (.join (d.interface.uniformBuffers.map Render.buffer)) :=
    spells_star fun u member => spells_buffer (shape.uniformBuffers u member)
  have head : Spells source (Named .texturesKeyword "Textures") ("Textures" ++ " ") :=
    spells_keyword (by decide)
  have keyword : Spells source (Named .bindingsKeyword "Bindings") ("Bindings" ++ " ") :=
    spells_keyword (by decide)
  have inside := buffers.both (spells_scope head (spells_list shape.textures))
  refine (spells_scope keyword (inside.imp (Q := fun ts => Star Bindings ts d.bindingsParts)
    ?_)).imp ?_
  · intro _ spelled
    obtain ⟨ts, _, rfl, star, s₁, s₂, rfl, ⟨_, opened, _⟩, listed⟩ := spelled
    exact star.append (.single (.textures opened listed))
  · intro _ spelled
    obtain ⟨s₁, s₂, rfl, ⟨_, opened, _⟩, listed⟩ := spelled
    exact .bindings opened listed

theorem spells_stage {s : Stage × String} (self : SelfContained s.2) :
    Spells source (fun ts => Shader source ts [.code s.1 s.2]) (Render.stage s) := by
  obtain ⟨stage, text⟩ := s
  have listed : (stage.word, stage.keyword) ∈ Token.Kind.keywords := by cases stage <;> decide
  -- The text of the code is a piece of the source, so the pieces around it are taken by hand.
  have left : '\x7b'.utf8Size = 1 := rfl
  have right : '\x7d'.utf8Size = 1 := rfl
  have inside : Spells source (fun ts => ∃ s₂ body brace close, ts = s₂ ++ (body ++ [close]) ∧
      Terminal .leftBrace s₂ brace ∧ Raw body ∧ close.kind = .rightBrace ∧
      slice (brace.index + 1) close.index source.toList = text.toList)
      ("\x7b" ++ (text ++ "\x7d")) := by
    intro front behind whole
    have spelled : ("\x7b" ++ (text ++ "\x7d")).toList = '\x7b' :: (text.toList ++ ['\x7d']) := by
      rw [String.toList_append, String.toList_append]
      rfl
    rw [spelled, List.cons_append, List.append_assoc, List.singleton_append] at whole ⊢
    obtain ⟨body, raw, read⟩ := self.scan (size front + 1) behind
    have opened : Token.scan (size front) ('\x7b' :: (text.toList ++ '\x7d' :: behind)) =
        ⟨.leftBrace, size front, "\x7b"⟩ ::
          Token.scan (size front + 1) (text.toList ++ '\x7d' :: behind) :=
      Token.scan_mark (by decide) _ _
    refine ⟨[⟨.leftBrace, size front, "\x7b"⟩] ++ (body ++
      [⟨.rightBrace, size front + 1 + size text.toList, "\x7d"⟩]), ?_, [_], body, _, _, rfl,
      @Terminal.intro _ [] _ (by simp) rfl, raw, rfl, ?_⟩
    · rw [opened, read]
      simp [left, right, Nat.add_assoc]
    · have cut := slice_append (front ++ ['\x7b']) text.toList ('\x7d' :: behind)
      rw [whole]
      simpa [left] using cut
  apply ((spells_keyword listed).both inside).imp
  intro _ spelled
  obtain ⟨s₁, _, rfl, ⟨_, opened, _⟩, s₂, body, brace, close, rfl, front, raw, closed, same⟩ :=
    spelled
  have code : Shader source _ _ := .code stage opened front raw closed
  rwa [same, String.ofList_toList] at code

theorem spells_shader (shape : d.WellFormed) :
    Spells source (fun ts => Section source ts d.shaderParts.flatten) (Render.shader d) := by
  have stages : Spells source (fun ts => Star (Shader source) ts
      (d.sources.stages.map fun s => [.code s.1 s.2]))
      (.join (d.sources.stages.map Render.stage)) :=
    spells_star fun s member => spells_stage (shape.code _ _ (Sources.mem_stages.1 member))
  have entries : Spells source (fun ts => Star Entered ts
      (d.interface.entries.map fun e => .entry e.1 e.2))
      (.join (d.interface.entries.map Render.entry)) :=
    spells_star fun e member => spells_entry (shape.entry _ _ (Interface.mem_entries.1 member))
  have head : Spells source (Named .entrypointKeyword "Entrypoint") ("Entrypoint" ++ " ") :=
    spells_keyword (by decide)
  have keyword : Spells source (Named .shaderKeyword "Shader") ("Shader" ++ " ") :=
    spells_keyword (by decide)
  have inside := stages.both (spells_scope head entries)
  refine (spells_scope keyword (inside.imp (Q := fun ts => Star (Shader source) ts d.shaderParts)
    ?_)).imp ?_
  · intro _ spelled
    obtain ⟨ts, _, rfl, star, s₁, s₂, rfl, ⟨_, opened, _⟩, listed⟩ := spelled
    exact star.append (.single (.entrypoint opened listed))
  · intro _ spelled
    obtain ⟨s₁, s₂, rfl, ⟨_, opened, _⟩, listed⟩ := spelled
    exact .shader opened listed

theorem spells_inputs {head : String} {kind : Token.Kind} {build : List Binding → Declaration}
    {bs : List Binding} (listed : (head, kind) ∈ Token.Kind.keywords)
    (shapes : ∀ b ∈ bs, b.WellFormed)
    (part : ∀ {s₁ s₂ : List Token} {keyword : Token}, Terminal kind s₁ keyword →
      Braced (Star Bound) s₂ bs → Section source (s₁ ++ s₂) [build bs]) :
    Spells source (fun ts => Star (Section source) ts (Definition.inputParts build bs))
      (Render.inputs head bs) := by
  unfold Render.inputs Definition.inputParts
  split
  · exact spells_empty .nil
  · apply (spells_scope (spells_keyword listed) (spells_list shapes)).imp
    intro _ spelled
    obtain ⟨s₁, s₂, rfl, ⟨_, opened, _⟩, listed⟩ := spelled
    exact .single (part opened listed)

theorem spells_render (shape : d.WellFormed) :
    Spells source (fun ts => Star (Section source) ts d.parts) d.render := by
  have names : Spells source (fun ts => Star (Section source) ts
      (d.interface.name.toList.map fun text => [.name text]))
      (.join (d.interface.name.toList.map (Render.line "Name"))) :=
    spells_star fun text member => spells_name (shape.name text (Option.mem_toList.1 member))
  have input : ("Input", Token.Kind.inputKeyword) ∈ Token.Kind.keywords := by decide
  have pixelInput : ("PixelInput", Token.Kind.pixelInputKeyword) ∈ Token.Kind.keywords := by decide
  have inputs : Spells source (fun ts => Star (Section source) ts
      (Definition.inputParts .input d.interface.inputs)) _ :=
    spells_inputs input shape.inputs fun opened listed => .input opened listed
  have pixelInputs : Spells source (fun ts => Star (Section source) ts
      (Definition.inputParts .pixelInput d.interface.pixelInputs)) _ :=
    spells_inputs pixelInput shape.pixelInputs fun opened listed => .pixelInput opened listed
  refine (names.both ((spells_bindings shape).both (inputs.both
    (pixelInputs.both (spells_shader shape))))).imp ?_
  intro _ spelled
  obtain ⟨_, _, rfl, first, _, _, rfl, second, _, _, rfl, third, _, _, rfl, fourth, fifth⟩ :=
    spelled
  exact first.append ((Star.single second).append (third.append (fourth.append (.single fifth))))

end Sections

theorem compile_render {d : Definition} (shape : d.WellFormed) : compile d.render = .ok d := by
  obtain ⟨ts, read, star⟩ := spells_render shape [] [] (List.append_nil d.render.toList).symm
  rw [List.append_nil, Token.scan_nil, List.append_nil, size_nil, ← Token.ofSource_eq_scan] at read
  have program := Program.intro star (by simp : ∀ c ∈ ([] : List Token), c.kind.isComment = true)
  rw [List.append_nil, ← read] at program
  exact compile_of_program program d.parts_single d.declares_parts

/-- Compiled definitions are well formed, and every well-formed definition is compiled from its
canonical text. -/
theorem compile_wellFormed_render :
    (∀ source d, compile source = .ok d → d.WellFormed) ∧
      ∀ d : Definition, d.WellFormed → compile d.render = .ok d :=
  ⟨fun _ _ => wellFormed_of_compile, fun _ => compile_render⟩

theorem compile_wellFormed_render_stage :
    let source := "Name \"n\"; Shader \x7b Vertex \x7b '\x7d // \x7d\n\x7d \x7d"
    let d : Definition := {
      interface := { name := some "n" }
      sources := { vertex := some " '\x7d // \x7d\n" } }
    compile source = .ok d ∧ d.WellFormed ∧ compile d.render = .ok d := by
  intro source d
  have compiled : compile source = .ok d := by decide +kernel
  have shape := compile_wellFormed_render.1 source d compiled
  exact ⟨compiled, shape, compile_wellFormed_render.2 d shape⟩

end ShaderDef
