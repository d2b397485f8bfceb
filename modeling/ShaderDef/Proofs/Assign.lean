import ShaderDef.Proofs.Composition.Opaque
import ShaderDef.Proofs.Outline.Declared
import Mathlib.Data.List.Induction

/-! Assignments. A definition can be built up event by event, each one writing its own field over
whatever that holds. Where no item is declared twice this gives what the events declare. -/

namespace ShaderDef

open Event (completed)

namespace Definition

/-- What an event writes: buffers and textures are added to those before, and any other field is
written over, whatever it holds. -/
def assign (source : String) (d : Definition) : Event → Definition
  | .opens .. => d
  | .name text => { d with interface := { d.interface with name := some text } }
  | .uniforms buffer =>
    { d with interface :=
        { d.interface with uniformBuffers := d.interface.uniformBuffers ++ [buffer] } }
  | .textures list =>
    { d with interface := { d.interface with textures := d.interface.textures ++ list } }
  | .input list => { d with interface := { d.interface with inputs := list } }
  | .pixelInput list => { d with interface := { d.interface with pixelInputs := list } }
  | .code stage start stop =>
    d.withCode stage (String.ofList (Text.slice start stop source.toList))
  | .entry .vertex text => { d with interface := { d.interface with vertexEntry := some text } }
  | .entry .fragment text => { d with interface := { d.interface with pixelEntry := some text } }

def assigned (source : String) (events : List Event) : Definition :=
  events.foldl (assign source) {}

theorem assigned_concat (source : String) (events : List Event) (e : Event) :
    assigned source (events ++ [e]) = assign source (assigned source events) e := by
  rw [assigned, List.foldl_append]
  rfl

def SameAt (d e : Definition) : Item → Prop
  | .name => d.interface.name = e.interface.name
  | .input => d.interface.inputs = e.interface.inputs
  | .pixelInput => d.interface.pixelInputs = e.interface.pixelInputs
  | .code stage => d.sources.code stage = e.sources.code stage
  | .entry point => d.interface.entry point = e.interface.entry point

variable {source : String} {d : Definition} {e : Event} {events more : List Event} {item : Item}

theorem sameAt_refl (d : Definition) (item : Item) : d.SameAt d item := by
  cases item <;> exact rfl

theorem SameAt.trans {d e f : Definition} (first : d.SameAt e item) (second : e.SameAt f item) :
    d.SameAt f item := by
  cases item <;> exact Eq.trans first second

/-- Only the declaration of an item writes what is held for it. -/
theorem assign_sameAt (other : e.item? ≠ some item) : (assign source d e).SameAt d item := by
  cases e with
  | code stage start stop =>
    cases item with
    | code which =>
      have apart : which ≠ stage := by simpa [Event.item?, eq_comm] using other
      simp only [assign, SameAt, withCode, Sources.code_withCode, if_neg apart]
    | _ => rfl
  | entry point text =>
    cases item with
    | entry which =>
      cases point <;> cases which <;> first | exact absurd rfl other | exact rfl
    | _ => cases point <;> exact rfl
  | _ => cases item <;> first | exact absurd rfl other | exact rfl

theorem assigned_sameAt (others : item ∉ completed more) :
    (assigned source (events ++ more)).SameAt (assigned source events) item := by
  induction more using List.reverseRecOn with
  | nil =>
    rw [List.append_nil]
    exact sameAt_refl _ item
  | append_singleton more e ih =>
    rw [Event.completed_append, List.mem_append, not_or] at others
    have other : e.item? ≠ some item := fun same => others.2 (by simp [completed, same])
    rw [← List.append_assoc, assigned_concat]
    exact (assign_sameAt other).trans (ih others.1)

theorem findSome?_of_fresh (pick : Event → Option String) (fresh : item ∉ completed events)
    (belongs : ∀ e, pick e ≠ none → e.item? = some item) : events.findSome? pick = none := by
  refine List.findSome?_eq_none_iff.2 fun e told => ?_
  by_contra picked
  exact fresh (List.mem_filterMap.2 ⟨e, told, belongs e picked⟩)

theorem flatMap_of_fresh (list : Event → List Binding) (fresh : item ∉ completed events)
    (belongs : ∀ e, list e ≠ [] → e.item? = some item) : events.flatMap list = [] := by
  refine List.flatMap_eq_nil_iff.2 fun e told => ?_
  by_contra some
  exact fresh (List.mem_filterMap.2 ⟨e, told, belongs e some⟩)

theorem ofEvents_append (source : String) (events more : List Event) :
    ofEvents source (events ++ more) =
      { interface :=
          { name := (ofEvents source events).interface.name.or
              (ofEvents source more).interface.name
            uniformBuffers := (ofEvents source events).interface.uniformBuffers ++
              (ofEvents source more).interface.uniformBuffers
            textures := (ofEvents source events).interface.textures ++
              (ofEvents source more).interface.textures
            inputs := (ofEvents source events).interface.inputs ++
              (ofEvents source more).interface.inputs
            pixelInputs := (ofEvents source events).interface.pixelInputs ++
              (ofEvents source more).interface.pixelInputs
            vertexEntry := (ofEvents source events).interface.vertexEntry.or
              (ofEvents source more).interface.vertexEntry
            pixelEntry := (ofEvents source events).interface.pixelEntry.or
              (ofEvents source more).interface.pixelEntry }
        sources :=
          { shared := (ofEvents source events).sources.shared.or
              (ofEvents source more).sources.shared
            vertex := (ofEvents source events).sources.vertex.or
              (ofEvents source more).sources.vertex
            fragment := (ofEvents source events).sources.fragment.or
              (ofEvents source more).sources.fragment } } := by
  simp only [ofEvents, List.findSome?_append, List.filterMap_append, List.flatMap_append]

theorem ofEvents_singleton (source : String) (e : Event) :
    ofEvents source [e] = assign source {} e := by
  simp only [ofEvents, List.flatMap_singleton]
  cases e with
  | code stage start stop => cases stage <;> rfl
  | entry point text => cases point <;> rfl
  | _ => rfl

/-- An event behind others writes its field, and nothing is lost if that has not been declared. -/
theorem ofEvents_concat (fresh : ∀ item, e.item? = some item → item ∉ completed events) :
    ofEvents source (events ++ [e]) = assign source (ofEvents source events) e := by
  rw [ofEvents_append, ofEvents_singleton]
  cases e with
  | opens item index => simp [assign, ofEvents]
  | name text =>
    have none := findSome?_of_fresh Event.name? (fresh .name rfl)
      fun e picked => by cases e <;> simp_all [Event.name?, Event.item?]
    simp [assign, ofEvents, none]
  | uniforms buffer => simp [assign, ofEvents]
  | textures list => simp [assign, ofEvents]
  | input list =>
    have none := flatMap_of_fresh Event.inputList (fresh .input rfl)
      fun e listed => by cases e <;> simp_all [Event.inputList, Event.item?]
    simp [assign, ofEvents, none]
  | pixelInput list =>
    have none := flatMap_of_fresh Event.pixelInputList (fresh .pixelInput rfl)
      fun e listed => by cases e <;> simp_all [Event.pixelInputList, Event.item?]
    simp [assign, ofEvents, none]
  | code stage start stop =>
    have none := findSome?_of_fresh (Event.code? source stage) (fresh (.code stage) rfl)
      fun e picked => by cases e <;> simp_all [Event.code?, Event.item?]
    cases stage <;> simp [assign, ofEvents, none, withCode, Sources.withCode]
  | entry point text =>
    have none := findSome?_of_fresh (Event.entry? point) (fresh (.entry point) rfl)
      fun e picked => by cases e <;> simp_all [Event.entry?, Event.item?]
    cases point <;> simp [assign, ofEvents, none]

/-- Where no item is declared twice, writing declarations one over the other gives what the events
declare. -/
theorem ofEvents_eq_assigned (single : (completed events).Nodup) :
    ofEvents source events = assigned source events := by
  induction events using List.reverseRecOn with
  | nil => rfl
  | append_singleton events e ih =>
    rw [Event.completed_append, List.nodup_append] at single
    rw [ofEvents_concat, ih single.1, assigned_concat]
    · intro item declares known
      exact single.2.2 item known item (by simp [completed, declares]) rfl

end Definition

end ShaderDef
