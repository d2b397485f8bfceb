import ShaderDef.Proofs.Outline.Blame
import ShaderDef.Proofs.Outline.Telling

/-! Openings: which token has opened an item. Only the keyword of a section and that of an entry
point open one, and no foreign token stands before it in the step that tells so. -/

namespace ShaderDef

open Token (Native Exposed exposed_of_mem exposed_head)

def Reading.Silent {α : Type} (r : Reading α) : Prop :=
  ∀ e ∈ r.events, e.opened? = none

theorem Reading.Silent.not_opens {α : Type} {r : Reading α} {item : Item} {index : Nat}
    (silent : r.Silent) : .opens item index ∉ r.events := by
  intro told
  simpa [Event.opened?] using silent _ told

namespace Outline

open Reading

variable {size : Nat} {all ts : List Token} {scope : Scope} {t : Token} {item : Item} {index : Nat}

theorem name_silent (size : Nat) (ts : List Token) : (name size ts).Silent :=
  name_tells (fun _ => rfl) size ts

theorem bindings_silent {event : List Binding → Event}
    (plain : ∀ list, (event list).opened? = none) (size : Nat) (label : String) (ts : List Token) :
    (bindings size label event ts).Silent :=
  bindings_tells plain size label ts

theorem code_silent (size : Nat) (stage : Stage) (ts : List Token) : (code size stage ts).Silent :=
  code_tells (fun _ _ => rfl) size ts

theorem enter_silent (size : Nat) (scope : Scope) (ts : List Token) :
    (enter size scope ts).Silent :=
  enter_tells size scope ts

theorem bindingsStep_silent (size : Nat) (t : Token) (ts : List Token) :
    (bindingsStep size t ts).Silent :=
  bindingsStep_tells (fun _ => rfl) (fun _ => rfl) size t ts

def OpensIn (item : Item) (index : Nat) (ts : List Token) : Prop :=
  Exposed (fun s => s.kind = item.keyword ∧ s.index = index) ts

/-- The keyword of a section opens its item. -/
theorem opens_of_declare {item' : Item} {read : Reading (List Token)}
    (told : .opens item index ∈ (goOn scope (declare item' t read)).events)
    (silent : read.Silent) (kind : t.kind = item'.keyword) : OpensIn item index (t :: ts) := by
  rcases mem_events_bind.1 told with told | ⟨_, _, told⟩
  · rcases mem_events_bind.1 told with told | ⟨_, _, told⟩
    · obtain ⟨rfl, rfl⟩ : item = item' ∧ index = t.index := by simpa using told
      exact exposed_head ⟨kind, rfl⟩ ts
    · exact absurd told silent.not_opens
  · simp at told

/-- The keyword of an entry point opens it. -/
theorem opens_of_entries {close : Token} (told : .opens item index ∈ (entries close ts).events) :
    ∃ s ∈ ts, s.kind = item.keyword ∧ s.index = index := by
  induction ts using entries.induct close with
  | case1 =>
    rw [entries] at told
    simp at told
  | case2 t rest unknown =>
    rw [entries] at told
    simp [unknown] at told
  | case3 t rest point known ih =>
    rw [entries] at told
    simp only [known] at told
    rcases mem_events_bind.1 told with told | ⟨_, _, told⟩
    · obtain ⟨rfl, rfl⟩ : item = .entry point ∧ index = t.index := by simpa using told
      exact ⟨t, List.mem_cons_self, Entry.ofKeyword?_eq_some.1 known, rfl⟩
    rcases mem_events_bind.1 told with told | ⟨_, _, told⟩
    · simp at told
    rcases mem_events_bind.1 told with told | ⟨_, _, told⟩
    · simp at told
    rcases mem_events_bind.1 told with told | ⟨_, _, told⟩
    · simp at told
    · obtain ⟨s, inside, same⟩ := ih told
      exact ⟨s, .tail t (List.mem_of_mem_tail (List.mem_of_mem_tail inside)), same⟩

theorem opens_of_entrypoints (told : .opens item index ∈ (entrypoints size ts).events) :
    OpensIn item index ts := by
  rcases mem_events_bind.1 told with none | ⟨⟨brace, rest⟩, taken, behind⟩
  · simp at none
  obtain ⟨rfl, opened⟩ := take_eq_ok taken
  rcases mem_events_bind.1 behind with none | ⟨b, found, behind⟩
  · simp at none
  rcases mem_events_bind.1 behind with within | ⟨_, _, none⟩
  · obtain ⟨fronts, fine⟩ := Block.fronts_of_guarded opened found
    obtain ⟨s, inside, same⟩ := opens_of_entries within
    have native : Native b.body := fun u listed => Token.Kind.ne_invalid (fine u listed)
    have front : brace.kind ≠ .invalid := by
      rw [opened]
      decide
    rw [(List.cons.inj fronts.split).2]
    exact Exposed.cons front (exposed_of_mem native inside same _)
  · simp at none

theorem opens_of_topStep (told : .opens item index ∈ (topStep size t ts).events) :
    OpensIn item index (t :: ts) := by
  unfold topStep at told
  split at told
  · rename_i same
    exact opens_of_declare told (name_silent size ts) same
  · exact absurd told (enter_silent size _ ts).not_opens
  · rename_i same
    exact opens_of_declare told (bindings_silent (fun _ => rfl) size _ ts) same
  · rename_i same
    exact opens_of_declare told (bindings_silent (fun _ => rfl) size _ ts) same
  · exact absurd told (enter_silent size _ ts).not_opens
  · simp at told

theorem opens_of_shaderStep (native : t.kind ≠ .invalid)
    (told : .opens item index ∈ (shaderStep size t ts).events) : OpensIn item index (t :: ts) := by
  unfold shaderStep at told
  split at told
  · rename_i stage known
    exact opens_of_declare told (code_silent size stage ts) (Stage.ofKeyword?_eq_some.1 known)
  · split at told
    · simp at told
    · rcases mem_events_bind.1 told with told | ⟨_, _, none⟩
      · exact Exposed.cons native (opens_of_entrypoints told)
      · simp at none
    · simp at told

/-- A step that tells of an opened item has its keyword among its tokens. -/
theorem opens_of_step (told : .opens item index ∈ (step size scope t ts).events) :
    OpensIn item index (t :: ts) := by
  unfold step at told
  split at told
  · simp at told
  · rename_i fine
    rw [Bool.not_eq_true] at fine
    cases scope with
    | top => exact opens_of_topStep told
    | bindings => exact absurd told (bindingsStep_silent size t ts).not_opens
    | shader => exact opens_of_shaderStep (Token.Kind.ne_invalid fine) told

end Outline

end ShaderDef
