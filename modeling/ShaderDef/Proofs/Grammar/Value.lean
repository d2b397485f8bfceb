import ShaderDef.Compile
import ShaderDef.Proofs.Grammar.Recognize
import ShaderDef.Proofs.Outline.Once
import Mathlib.Data.List.Pairwise

/-! The value of a derivation: the definition that a list of declarations gives. Main statement: a
source compiles exactly if the grammar derives its tokens and no item is declared twice, and the
result is what the derivation declares. -/

namespace ShaderDef

def Interface.entry (i : Interface) : Entry → Option String
  | .vertex => i.vertexEntry
  | .fragment => i.pixelEntry

def Sources.code (s : Sources) : Stage → Option String
  | .shared => s.shared
  | .vertex => s.vertex
  | .fragment => s.fragment

namespace Declaration

def uniforms? : Declaration → Option UniformBuffer
  | .uniforms buffer => some buffer
  | _ => none

def textureList : Declaration → List Binding
  | .textures list => list
  | _ => []

def inputList : Declaration → List Binding
  | .input list => list
  | _ => []

def pixelInputList : Declaration → List Binding
  | .pixelInput list => list
  | _ => []

theorem item?_of_inputList {d : Declaration} (some : d.inputList ≠ []) : d.item? = Item.input := by
  cases d with
  | input list => rfl
  | _ => exact absurd rfl some

theorem item?_of_pixelInputList {d : Declaration} (some : d.pixelInputList ≠ []) :
    d.item? = Item.pixelInput := by
  cases d with
  | pixelInput list => rfl
  | _ => exact absurd rfl some

/-- The items of a list that no item occurs in twice belong to one declaration each. -/
theorem eq_of_item {ds : List Declaration} {d e : Declaration} {item : Item}
    (single : (ds.filterMap item?).Nodup) (left : d ∈ ds) (right : e ∈ ds)
    (first : d.item? = some item) (second : e.item? = some item) : d = e := by
  have apart := List.pairwise_filterMap.1 single
  have symmetric : Std.Symm fun d e : Declaration =>
      ∀ i, d.item? = some i → ∀ j, e.item? = some j → i ≠ j :=
    ⟨fun _ _ differ i first j second => (differ j second i first).symm⟩
  by_contra other
  exact apart.forall left right other item first item second rfl

end Declaration

/-- The definition that declarations give: buffers and textures in order, and each other item as
its declaration says. -/
structure Definition.Declares (d : Definition) (ds : List Declaration) : Prop where
  name : ∀ text, d.interface.name = some text ↔ .name text ∈ ds
  uniformBuffers : d.interface.uniformBuffers = ds.filterMap Declaration.uniforms?
  textures : d.interface.textures = ds.flatMap Declaration.textureList
  inputs : d.interface.inputs = ds.flatMap Declaration.inputList
  pixelInputs : d.interface.pixelInputs = ds.flatMap Declaration.pixelInputList
  entry : ∀ which text, d.interface.entry which = some text ↔ .entry which text ∈ ds
  code : ∀ stage text, d.sources.code stage = some text ↔ .code stage text ∈ ds

namespace Definition

variable {source : String} {d : Definition} {events : List Event} {ds : List Declaration}

theorem Declares.unique {d' : Definition} (first : d.Declares ds) (second : d'.Declares ds) :
    d = d' := by
  have name : d.interface.name = d'.interface.name :=
    Option.ext fun text => (first.name text).trans (second.name text).symm
  have entry : ∀ which, d.interface.entry which = d'.interface.entry which := fun which =>
    Option.ext fun text => (first.entry which text).trans (second.entry which text).symm
  have code : ∀ stage, d.sources.code stage = d'.sources.code stage := fun stage =>
    Option.ext fun text => (first.code stage text).trans (second.code stage text).symm
  have buffers := first.uniformBuffers.trans second.uniformBuffers.symm
  have textures := first.textures.trans second.textures.symm
  have inputs := first.inputs.trans second.inputs.symm
  have pixelInputs := first.pixelInputs.trans second.pixelInputs.symm
  obtain ⟨⟨_, _, _, _, _, _, _⟩, ⟨_, _, _⟩⟩ := d
  obtain ⟨⟨_, _, _, _, _, _, _⟩, ⟨_, _, _⟩⟩ := d'
  obtain rfl := name
  obtain rfl := buffers
  obtain rfl := textures
  obtain rfl := inputs
  obtain rfl := pixelInputs
  obtain rfl := entry .vertex
  obtain rfl := entry .fragment
  obtain rfl := code .shared
  obtain rfl := code .vertex
  obtain rfl := code .fragment
  rfl

/-- What an event of a kind says is found exactly if a declaration of that kind says it. -/
theorem findSome?_eq_some_iff {item : Item} {pick : Event → Option String}
    {build : String → Declaration} (declared : events.filterMap (Event.declared? source) = ds)
    (single : (ds.filterMap Declaration.item?).Nodup)
    (picks : ∀ e text, pick e = some text ↔ e.declared? source = some (build text))
    (belongs : ∀ text, (build text).item? = some item)
    (faithful : ∀ text text', build text = build text' → text = text') (text : String) :
    events.findSome? pick = some text ↔ build text ∈ ds := by
  have listed : ∀ text, build text ∈ ds ↔ ∃ e ∈ events, pick e = some text := by
    intro text
    rw [← declared, List.mem_filterMap]
    simp only [picks]
  constructor
  · intro found
    exact (listed text).2 (List.exists_of_findSome?_eq_some found)
  · intro member
    obtain ⟨e, there, picked⟩ := (listed text).1 member
    cases found : events.findSome? pick with
    | none =>
      have missing := List.findSome?_eq_none_iff.1 found e there
      rw [missing] at picked
      exact picked
    | some text' =>
      have other := (listed text').2 (List.exists_of_findSome?_eq_some found)
      have same := Declaration.eq_of_item single other member (belongs text') (belongs text)
      rw [faithful _ _ same]

theorem flatMap_eq {pick : Event → List Binding} {list : Declaration → List Binding}
    (declared : events.filterMap (Event.declared? source) = ds)
    (picks : ∀ e, pick e = ((e.declared? source).map list).getD []) :
    events.flatMap pick = ds.flatMap list := by
  subst declared
  induction events with
  | nil => rfl
  | cons e events ih =>
    rw [List.flatMap_cons, ih, picks e]
    cases said : e.declared? source with
    | none => rw [List.filterMap_cons_none said, Option.map_none, Option.getD_none, List.nil_append]
    | some d => rw [List.filterMap_cons_some said, List.flatMap_cons, Option.map_some,
        Option.getD_some]

theorem declares_ofEvents (declared : events.filterMap (Event.declared? source) = ds)
    (single : (ds.filterMap Declaration.item?).Nodup) : (ofEvents source events).Declares ds where
  name := by
    refine findSome?_eq_some_iff declared single (fun e text => ?_) (fun _ => rfl) (by simp)
    cases e <;> simp [Event.name?, Event.declared?]
  uniformBuffers := by
    rw [← declared, List.filterMap_filterMap]
    refine List.filterMap_congr fun e _ => ?_
    cases e <;> rfl
  textures := flatMap_eq declared fun e => by cases e <;> rfl
  inputs := flatMap_eq declared fun e => by cases e <;> rfl
  pixelInputs := flatMap_eq declared fun e => by cases e <;> rfl
  entry := by
    rintro (_ | _)
    all_goals
      refine findSome?_eq_some_iff declared single (fun e text => ?_) (fun _ => rfl) (by simp)
      cases e <;> simp [Event.entry?, Event.declared?]
  code := by
    rintro (_ | _ | _)
    all_goals
      refine findSome?_eq_some_iff declared single (fun e text => ?_) (fun _ => rfl) (by simp)
      cases e <;> simp [Event.code?, Event.declared?]

end Definition

open Grammar Outline

variable {source : String} {d : Definition} {ds : List Declaration}

theorem Outline.ofSource_of_program (program : Program source (Token.ofSource source) ds)
    (single : (ds.filterMap Declaration.item?).Nodup) :
    ∃ events, ofSource source = ⟨events, .ok ()⟩ ∧
      Walks .top .top (Token.ofSource source) events ∧
      Event.Trace source (Token.ofSource source) events ds := by
  obtain ⟨events, walked, trace⟩ := program_walks program
  have kept : (once [] events).result = .ok () :=
    once_eq_ok_iff.2 ⟨by rw [Event.items, trace.opened]; exact single, by simp⟩
  refine ⟨events, ?_, walked, trace⟩
  rw [ofSource, ofTokens, walked.end]
  simp only [once_of_ok kept]
  rw [Reading.bind_of_ok _ rfl]
  simp

theorem program_of_ofSource (ok : (ofSource source).result = .ok ()) :
    ∃ ds, Program source (Token.ofSource source) ds ∧ (ds.filterMap Declaration.item?).Nodup := by
  obtain ⟨_, kept, read⟩ := Reading.bind_eq_ok.1 ok
  obtain ⟨ds, program⟩ := (walk_eq_ok_iff source _).1 read
  obtain ⟨events, walked, trace⟩ := program_walks program
  rw [walked.end] at kept
  refine ⟨ds, program, ?_⟩
  rw [← trace.opened]
  exact (once_eq_ok_iff.1 kept).1

theorem compile_eq_ok : compile source = .ok d ↔
    (ofSource source).result = .ok () ∧ .ofEvents source (ofSource source).events = d := by
  unfold compile
  cases done : (ofSource source).result with
  | error fault => simp [done, Except.map]
  | ok _ => simp [done, Except.map]

theorem compile_eq_error {f : Fault} :
    compile source = .error f ↔ (ofSource source).result = .error f := by
  unfold compile
  cases stopped : (ofSource source).result with
  | error fault => simp [stopped, Except.map]
  | ok _ => simp [stopped, Except.map]

theorem compile_of_program (program : Program source (Token.ofSource source) ds)
    (single : (ds.filterMap Declaration.item?).Nodup) (declares : d.Declares ds) :
    compile source = .ok d := by
  obtain ⟨events, outline, _, trace⟩ := ofSource_of_program program single
  rw [compile_eq_ok, outline]
  exact ⟨rfl, (Definition.declares_ofEvents trace.declared single).unique declares⟩

theorem program_of_compile (ok : compile source = .ok d) :
    ∃ ds, Program source (Token.ofSource source) ds ∧
      (ds.filterMap Declaration.item?).Nodup ∧ d.Declares ds := by
  obtain ⟨done, rfl⟩ := compile_eq_ok.1 ok
  obtain ⟨ds, program, single⟩ := program_of_ofSource done
  obtain ⟨events, outline, _, trace⟩ := ofSource_of_program program single
  refine ⟨ds, program, single, ?_⟩
  rw [outline]
  exact Definition.declares_ofEvents trace.declared single

/-- A source compiles to a definition exactly if the grammar derives its tokens, with no item
declared twice, and the definition is the value of the derivation. -/
theorem compile_eq_ok_iff_derives (source : String) (d : Definition) :
    compile source = .ok d ↔
      ∃ ds, Program source (Token.ofSource source) ds ∧
        (ds.filterMap Declaration.item?).Nodup ∧ d.Declares ds := by
  constructor
  · exact program_of_compile
  · intro derived
    obtain ⟨ds, program, single, declares⟩ := derived
    exact compile_of_program program single declares

end ShaderDef
