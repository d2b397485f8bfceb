import ShaderDef.Proofs.SetOnce

/-! When declarations are told. A section is declared by the last event that reading it tells, and
nothing can stop the reading behind that. Only entry points are declared one after the other. -/

namespace ShaderDef.Outline

open Reading

variable {α β : Type} {source : String} {r : Reading α} {told : List Event}

/-- A reading that declares something only with the last of its events, and then comes to its end. -/
def Late (source : String) (r : Reading α) : Prop :=
  ∀ told, told <+: r.events → told.filterMap (Event.declared? source) = [] ∨
    told = r.events ∧ ∃ a, r.result = .ok a

theorem late_lift (result : Except Fault α) : Late source (lift result) := by
  intro told within
  rw [List.prefix_nil.1 within]
  exact .inl rfl

theorem late_emit (e : Event) (a : α) : Late source (emit e >>= fun _ => pure a) := by
  intro told within
  rcases List.prefix_cons_iff.1 within with rfl | ⟨rest, rfl, none⟩
  · exact .inl rfl
  · obtain rfl := List.prefix_nil.1 none
    exact .inr ⟨rfl, a, rfl⟩

/-- What is told by some point of a sequence declares nothing, or the first part is over by then. -/
theorem Late.split {next : α → Reading β} (late : Late source r)
    (within : told <+: (r >>= next).events) :
    told.filterMap (Event.declared? source) = [] ∨
      ∃ a more, r.result = .ok a ∧ told = r.events ++ more ∧ more <+: (next a).events := by
  cases outcome : r.result with
  | error fault =>
    rw [bind_of_error _ outcome] at within
    rcases late told within with none | ⟨_, a, ok⟩
    · exact .inl none
    · simp [outcome] at ok
  | ok a =>
    rw [bind_of_ok _ outcome] at within
    rcases List.prefix_or_prefix_of_prefix within (List.prefix_append _ _) with
      early | ⟨more, rfl⟩
    · rcases late told early with none | ⟨rfl, _⟩
      · exact .inl none
      · exact .inr ⟨a, [], rfl, (List.append_nil _).symm, List.nil_prefix⟩
    · exact .inr ⟨a, more, rfl, rfl, (List.prefix_append_right_inj _).1 within⟩

theorem Late.behind {x : Except Fault β} {next : β → Reading α}
    (late : ∀ b, Late source (next b)) : Late source (lift x >>= next) := by
  cases x with
  | error fault => exact late_lift _
  | ok b =>
    rw [lift_ok_bind]
    exact late b

theorem Late.declare {read : Reading (List Token)} (late : Late source read) (item : Item)
    (t : Token) : Late source (declare item t read) := by
  intro told within
  rw [declare_events] at within ⊢
  rcases List.prefix_cons_iff.1 within with rfl | ⟨told, rfl, inner⟩
  · exact .inl rfl
  · rcases late told inner with none | ⟨rfl, a, ok⟩
    · exact .inl none
    · exact .inr ⟨rfl, a, bind_eq_ok.2 ⟨(), rfl, ok⟩⟩

theorem Late.goOn {read : Reading (List Token)} (late : Late source read) (scope : Scope) :
    Late source (goOn scope read) := by
  intro told within
  rw [goOn_events] at within ⊢
  rcases late told within with none | ⟨rfl, a, ok⟩
  · exact .inl none
  · exact .inr ⟨rfl, (scope, a), bind_eq_ok.2 ⟨a, ok, rfl⟩⟩

theorem name_late (size : Nat) (ts : List Token) : Late source (name size ts) := by
  refine .behind ?_
  rintro ⟨text, rest⟩
  refine .behind ?_
  rintro ⟨semicolon, rest⟩
  exact late_emit _ _

theorem bindings_late (size : Nat) (label : String) (event : List Binding → Event)
    (ts : List Token) : Late source (bindings size label event ts) := by
  refine .behind ?_
  rintro ⟨brace, rest⟩
  exact .behind fun block => .behind fun list => late_emit _ _

theorem uniforms_late (size : Nat) (ts : List Token) : Late source (uniforms size ts) := by
  refine .behind ?_
  rintro ⟨buffer, rest⟩
  exact bindings_late _ _ _ _

theorem code_late (size : Nat) (stage : Stage) (ts : List Token) :
    Late source (code size stage ts) := by
  refine .behind ?_
  rintro ⟨brace, rest⟩
  exact .behind fun block => late_emit _ _

theorem enter_late (size : Nat) (scope : Scope) (ts : List Token) :
    Late source (enter size scope ts) := by
  refine .behind ?_
  rintro ⟨brace, rest⟩
  exact late_lift (.ok _)

/-- A step declares one thing at its end, or it reads a scope of entry points. -/
theorem step_late (source : String) (size : Nat) (scope : Scope) (t : Token) (ts : List Token) :
    Late source (step size scope t ts) ∨
      scope = .shader ∧ t.kind = .entrypointKeyword := by
  unfold step
  split
  · exact .inl (late_lift _)
  · cases scope with
    | top =>
      left
      simp only [topStep]
      split
      · exact ((name_late size ts).declare .name t).goOn _
      · exact enter_late size _ ts
      · exact ((bindings_late size _ _ ts).declare .input t).goOn _
      · exact ((bindings_late size _ _ ts).declare .pixelInput t).goOn _
      · exact enter_late size _ ts
      · exact late_lift _
    | bindings =>
      left
      simp only [bindingsStep]
      split
      · exact late_lift (.ok _)
      · exact (uniforms_late size ts).goOn _
      · exact (bindings_late size _ _ ts).goOn _
      · exact late_lift _
    | shader =>
      simp only [shaderStep]
      split
      · rename_i stage _
        exact .inl (((code_late size stage ts).declare (.code stage) t).goOn _)
      · split
        · exact .inl (late_lift (.ok _))
        · rename_i same
          exact .inr ⟨trivial, same⟩
        · exact .inl (late_lift _)

end ShaderDef.Outline
