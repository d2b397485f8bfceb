import ShaderDef.Outline.Scope

/-! What readers tell. Each tells events of its own kinds only, so what holds of all events of these
kinds holds of all that it tells. -/

namespace ShaderDef

variable {α β : Type} {P : Event → Prop}

def Reading.Tells (P : Event → Prop) (r : Reading α) : Prop :=
  ∀ e ∈ r.events, P e

namespace Reading

theorem tells_bind {r : Reading α} {next : α → Reading β} (first : r.Tells P)
    (second : ∀ a, (next a).Tells P) : (r >>= next).Tells P := by
  intro e told
  rcases mem_events_bind.1 told with here | ⟨a, _, later⟩
  · exact first e here
  · exact second a e later

theorem tells_lift (result : Except Fault α) : (lift result).Tells P :=
  List.forall_mem_nil _

theorem tells_pure (a : α) : (pure a : Reading α).Tells P :=
  List.forall_mem_nil _

theorem tells_emit {e : Event} (said : P e) : (emit e).Tells P :=
  List.forall_mem_singleton.2 said

end Reading

namespace Outline

open Reading

theorem name_tells (said : ∀ text, P (.name text)) (size : Nat) (ts : List Token) :
    (name size ts).Tells P := by
  refine tells_bind (tells_lift _) ?_
  rintro ⟨text, rest⟩
  refine tells_bind (tells_lift _) ?_
  rintro ⟨semicolon, rest⟩
  exact tells_bind (tells_emit (said _)) fun _ => tells_pure _

theorem bindings_tells {event : List Binding → Event} (said : ∀ list, P (event list)) (size : Nat)
    (label : String) (ts : List Token) : (bindings size label event ts).Tells P := by
  refine tells_bind (tells_lift _) ?_
  rintro ⟨brace, rest⟩
  refine tells_bind (tells_lift _) fun block => tells_bind (tells_lift _) fun list => ?_
  exact tells_bind (tells_emit (said list)) fun _ => tells_pure _

theorem uniforms_tells (said : ∀ buffer, P (.uniforms buffer)) (size : Nat) (ts : List Token) :
    (uniforms size ts).Tells P := by
  refine tells_bind (tells_lift _) ?_
  rintro ⟨buffer, rest⟩
  exact bindings_tells (fun _ => said _) size _ rest

theorem code_tells {stage : Stage} (said : ∀ start stop, P (.code stage start stop)) (size : Nat)
    (ts : List Token) : (code size stage ts).Tells P := by
  refine tells_bind (tells_lift _) ?_
  rintro ⟨brace, rest⟩
  refine tells_bind (tells_lift _) fun block => ?_
  exact tells_bind (tells_emit (said _ _)) fun _ => tells_pure _

theorem entries_tells (opened : ∀ point index, P (.opens (.entry point) index))
    (said : ∀ point text, P (.entry point text)) (close : Token) (ts : List Token) :
    (entries close ts).Tells P := by
  induction ts using entries.induct close with
  | case1 =>
    rw [entries]
    exact tells_pure ()
  | case2 t rest unknown =>
    rw [entries]
    simp only [unknown]
    exact tells_lift _
  | case3 t rest point known ih =>
    rw [entries]
    simp only [known]
    refine tells_bind (tells_emit (opened point _)) fun _ => ?_
    refine tells_bind (tells_lift _) fun _ => tells_bind (tells_lift _) fun _ => ?_
    exact tells_bind (tells_emit (said point _)) fun _ => ih

theorem entrypoints_tells (opened : ∀ point index, P (.opens (.entry point) index))
    (said : ∀ point text, P (.entry point text)) (size : Nat) (ts : List Token) :
    (entrypoints size ts).Tells P := by
  refine tells_bind (tells_lift _) ?_
  rintro ⟨brace, rest⟩
  refine tells_bind (tells_lift _) fun block => ?_
  exact tells_bind (entries_tells opened said block.close block.body) fun _ => tells_pure _

theorem enter_tells (size : Nat) (scope : Scope) (ts : List Token) :
    (enter size scope ts).Tells P := by
  refine tells_bind (tells_lift _) ?_
  rintro ⟨brace, rest⟩
  exact tells_pure _

theorem declare_tells {item : Item} {t : Token} {read : Reading (List Token)}
    (opened : P (.opens item t.index)) (tells : read.Tells P) : (declare item t read).Tells P :=
  tells_bind (tells_emit opened) fun _ => tells

theorem goOn_tells {scope : Scope} {read : Reading (List Token)} (tells : read.Tells P) :
    (goOn scope read).Tells P :=
  tells_bind tells fun _ => tells_pure _

theorem bindingsStep_tells (uniform : ∀ buffer, P (.uniforms buffer))
    (texture : ∀ list, P (.textures list)) (size : Nat) (t : Token) (ts : List Token) :
    (bindingsStep size t ts).Tells P := by
  unfold bindingsStep
  split
  · exact tells_pure _
  · exact goOn_tells (uniforms_tells uniform size ts)
  · exact goOn_tells (bindings_tells texture size _ ts)
  · exact tells_lift _

end Outline

end ShaderDef
