import ShaderDef.Proofs.Grammar.Value

/-! White space and comments. Two sources whose other tokens have the same kinds and texts are
compiled alike: what is accepted, what the interface says and which token is blamed depend on
nothing else. -/

namespace ShaderDef

open Outline
open List (Forall₂)

def Token.spelling (t : Token) : Token.Kind × String :=
  (t.kind, t.text)

namespace Outline

def stream (source : String) : List Token :=
  significant (Token.ofSource source) ++ [.finish (Text.size source.toList)]

def SameRank (source source' : String) (i j : Nat) : Prop :=
  ∃ (rank : Nat) (s t : Token), (stream source)[rank]? = some s ∧
    (stream source')[rank]? = some t ∧ s.index = i ∧ t.index = j

variable {source source' : String}

/-- Tokens with the same spellings are alike up to their ranks. -/
theorem significant_alike
    (same : (significant (Token.ofSource source)).map Token.spelling =
      (significant (Token.ofSource source')).map Token.spelling) :
    Forall₂ (Token.Alike (SameRank source source')) (significant (Token.ofSource source))
      (significant (Token.ofSource source')) := by
  have lengths := congrArg List.length same
  rw [List.length_map, List.length_map] at lengths
  refine List.forall₂_iff_get.2 ⟨lengths, fun rank left right => ?_⟩
  have spelled := congrArg (fun spellings => spellings[rank]?) same
  simp only [List.getElem?_map, List.getElem?_eq_getElem left, List.getElem?_eq_getElem right,
    Option.map_some, Option.some.injEq, Token.spelling, Prod.mk.injEq] at spelled
  refine ⟨spelled.1, fun _ => spelled.2, rank, _, _, ?_, ?_, rfl, rfl⟩
  · rw [stream, List.getElem?_append_left left]
    exact List.getElem?_eq_getElem left
  · rw [stream, List.getElem?_append_left right]
    exact List.getElem?_eq_getElem right

theorem sameRank_size
    (lengths : (significant (Token.ofSource source)).length =
      (significant (Token.ofSource source')).length) :
    SameRank source source' (Text.size source.toList) (Text.size source'.toList) := by
  refine ⟨(significant (Token.ofSource source)).length, .finish _, .finish _, ?_, ?_, rfl, rfl⟩
  · exact List.getElem?_concat_length
  · rw [lengths]
    exact List.getElem?_concat_length

end Outline

theorem Event.code?_of_free {e : Event} (free : e.isPlaced = false) (source : String)
    (stage : Stage) : e.code? source stage = none := by
  cases e with
  | code => simp [isPlaced] at free
  | _ => rfl

namespace Definition

variable {R : Nat → Nat → Prop} {source source' : String} {es fs : List Event}

theorem interface_alike (alike : Forall₂ (Event.Alike R) es fs) :
    (ofEvents source es).interface = (ofEvents source' fs).interface := by
  have name : es.findSome? Event.name? = fs.findSome? Event.name? :=
    Event.findSome?_alike (fun _ _ same => by cases same <;> rfl) alike
  have buffers : es.filterMap Event.uniforms? = fs.filterMap Event.uniforms? :=
    Event.filterMap_alike (fun _ _ same => by cases same <;> rfl) alike
  have textures : es.flatMap Event.textureList = fs.flatMap Event.textureList :=
    Event.flatMap_alike (fun _ _ same => by cases same <;> rfl) alike
  have inputs : es.flatMap Event.inputList = fs.flatMap Event.inputList :=
    Event.flatMap_alike (fun _ _ same => by cases same <;> rfl) alike
  have pixelInputs : es.flatMap Event.pixelInputList = fs.flatMap Event.pixelInputList :=
    Event.flatMap_alike (fun _ _ same => by cases same <;> rfl) alike
  have entry : ∀ which, es.findSome? (Event.entry? which) = fs.findSome? (Event.entry? which) :=
    fun which => Event.findSome?_alike (fun _ _ same => by cases same <;> rfl) alike
  simp only [ofEvents, name, buffers, textures, inputs, pixelInputs, entry]

theorem code_ofEvents (source : String) (es : List Event) (stage : Stage) :
    (ofEvents source es).sources.code stage = es.findSome? (Event.code? source stage) := by
  cases stage <;> rfl

theorem stages_alike (alike : Forall₂ (Event.Alike R) es fs) (stage : Stage) :
    ((ofEvents source es).sources.code stage).isSome =
      ((ofEvents source' fs).sources.code stage).isSome := by
  have picked : ∀ (source : String) (es : List Event),
      ((ofEvents source es).sources.code stage).isSome =
        es.any fun e => (Event.code? source stage e).isSome := by
    intro source es
    rw [code_ofEvents, Bool.eq_iff_iff, List.findSome?_isSome_iff, List.any_eq_true]
  have mapped : es.map (fun e => (Event.code? source stage e).isSome) =
      fs.map fun e => (Event.code? source' stage e).isSome := by
    refine Event.map_alike (fun e e' same => ?_) alike
    cases same with
    | opens => rfl
    | code other => by_cases chosen : other = stage <;> simp [Event.code?, chosen]
    | same free => rw [Event.code?_of_free free, Event.code?_of_free free]
  rw [picked, picked]
  simpa only [List.any_map, Function.id_comp] using congrArg (List.any · id) mapped

end Definition

variable {source source' : String} {f : Fault}

/-- White space and comments change neither what is accepted, nor the interface and the stages
found, nor which token is blamed and for what. -/
theorem compile_insensitive
    (same : (significant (Token.ofSource source)).map Token.spelling =
      (significant (Token.ofSource source')).map Token.spelling) :
    (∃ d d', compile source = .ok d ∧ compile source' = .ok d' ∧ d.interface = d'.interface ∧
      ∀ stage, (d.sources.code stage).isSome = (d'.sources.code stage).isSome) ∨
    (∃ f f', compile source = .error f ∧ compile source' = .error f' ∧
      f.diagnostic.kind = f'.diagnostic.kind ∧ f.diagnostic.message = f'.diagnostic.message ∧
      SameRank source source' f.diagnostic.index f'.diagnostic.index) := by
  have lengths := congrArg List.length same
  rw [List.length_map, List.length_map] at lengths
  obtain ⟨result, events⟩ := ofTokens_alike (sameRank_size lengths) (significant_alike same)
  change Result.Alike _ _ (ofSource source).result (ofSource source').result at result
  change Forall₂ _ (ofSource source).events (ofSource source').events at events
  generalize outcome : (ofSource source).result = r at result
  generalize outcome' : (ofSource source').result = r' at result
  cases result with
  | ok _ =>
    left
    refine ⟨_, _, compile_eq_ok.2 ⟨outcome, rfl⟩, compile_eq_ok.2 ⟨outcome', rfl⟩, ?_, ?_⟩
    · exact Definition.interface_alike events
    · exact Definition.stages_alike events
  | @error f f' alike =>
    right
    refine ⟨f, f', compile_eq_error.2 outcome, compile_eq_error.2 outcome', ?_, ?_, alike.place⟩
    · exact congrArg Fault.Cause.kind alike.cause
    · exact congrArg Fault.Cause.message alike.cause

theorem compile_insensitive_stage :
    (significant (Token.ofSource "Shader \x7b Vertex \x7b x \x7d ; \x7d")).map Token.spelling =
      (significant (Token.ofSource "Shader/**/\x7bVertex\x7bx // \x7d\n\x7d/* y */;\x7d")).map
        Token.spelling ∧
    ∃ f f', compile "Shader \x7b Vertex \x7b x \x7d ; \x7d" = .error f ∧
      compile "Shader/**/\x7bVertex\x7bx // \x7d\n\x7d/* y */;\x7d" = .error f' ∧
      f.diagnostic.kind = f'.diagnostic.kind ∧ f.diagnostic.message = f'.diagnostic.message ∧
      SameRank "Shader \x7b Vertex \x7b x \x7d ; \x7d"
        "Shader/**/\x7bVertex\x7bx // \x7d\n\x7d/* y */;\x7d" f.diagnostic.index
        f'.diagnostic.index := by
  have same : (significant (Token.ofSource "Shader \x7b Vertex \x7b x \x7d ; \x7d")).map
        Token.spelling =
      (significant (Token.ofSource "Shader/**/\x7bVertex\x7bx // \x7d\n\x7d/* y */;\x7d")).map
        Token.spelling := by decide +kernel
  have stopped : compile "Shader \x7b Vertex \x7b x \x7d ; \x7d" =
      .error ⟨.unknownIn "Shader", 22⟩ := by decide +kernel
  refine ⟨same, (compile_insensitive same).resolve_left ?_⟩
  intro accepted
  obtain ⟨d, _, done, _⟩ := accepted
  rw [stopped] at done
  exact absurd done (by simp)

end ShaderDef
