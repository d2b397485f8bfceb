import ShaderDef.Fault
import ShaderDef.Definition.Basic

/-! Readings: the outcome of reading a part of a source, together with the events up to its end or
up to the fault that stopped it. -/

namespace ShaderDef

structure Reading (α : Type) where
  events : List Event
  result : Except Fault α

namespace Reading

variable {α β γ : Type}

/-- Continues after a success; the continuation may use that there was one. -/
def andThen (r : Reading α) (next : (a : α) → r.result = .ok a → Reading β) : Reading β :=
  match done : r.result with
  | .error fault => ⟨r.events, .error fault⟩
  | .ok a => ⟨r.events ++ (next a done).events, (next a done).result⟩

instance : Monad Reading where
  pure a := ⟨[], .ok a⟩
  bind r next := r.andThen fun a _ => next a

def lift (result : Except Fault α) : Reading α :=
  ⟨[], result⟩

def fail (fault : Fault) : Reading α :=
  .lift (.error fault)

def emit (event : Event) : Reading Unit :=
  ⟨[event], .ok ()⟩

@[ext] theorem ext {r s : Reading α} (events : r.events = s.events) (result : r.result = s.result) :
    r = s := by
  cases r
  cases s
  simp_all

@[simp] theorem events_pure (a : α) : (pure a : Reading α).events = [] := rfl

@[simp] theorem result_pure (a : α) : (pure a : Reading α).result = .ok a := rfl

@[simp] theorem events_lift (result : Except Fault α) : (lift result).events = [] := rfl

@[simp] theorem result_lift (result : Except Fault α) : (lift result).result = result := rfl

@[simp] theorem events_fail (fault : Fault) : (fail fault : Reading α).events = [] := rfl

@[simp] theorem result_fail (fault : Fault) : (fail fault : Reading α).result = .error fault := rfl

@[simp] theorem events_emit (event : Event) : (emit event).events = [event] := rfl

@[simp] theorem result_emit (event : Event) : (emit event).result = .ok () := rfl

theorem bind_of_ok {r : Reading α} {a : α} (next : α → Reading β) (done : r.result = .ok a) :
    r >>= next = ⟨r.events ++ (next a).events, (next a).result⟩ := by
  obtain ⟨events, result⟩ := r
  subst done
  rfl

theorem bind_of_error {r : Reading α} {fault : Fault} (next : α → Reading β)
    (stopped : r.result = .error fault) : r >>= next = ⟨r.events, .error fault⟩ := by
  obtain ⟨events, result⟩ := r
  subst stopped
  rfl

/-- A sequence succeeds where both of its parts do. -/
theorem bind_eq_ok {r : Reading α} {next : α → Reading β} {b : β} :
    (r >>= next).result = .ok b ↔ ∃ a, r.result = .ok a ∧ (next a).result = .ok b := by
  cases done : r.result with
  | error fault => simp [bind_of_error next done]
  | ok a => simp [bind_of_ok next done]

/-- A sequence stops where its first part does, or behind it where its second part does. -/
theorem bind_eq_error {r : Reading α} {next : α → Reading β} {fault : Fault} :
    (r >>= next).result = .error fault ↔
      r.result = .error fault ∨ ∃ a, r.result = .ok a ∧ (next a).result = .error fault := by
  cases done : r.result with
  | error other => simp [bind_of_error next done]
  | ok a => simp [bind_of_ok next done]

theorem mem_events_bind {r : Reading α} {next : α → Reading β} {e : Event} :
    e ∈ (r >>= next).events ↔ e ∈ r.events ∨ ∃ a, r.result = .ok a ∧ e ∈ (next a).events := by
  cases done : r.result with
  | error fault => simp [bind_of_error next done]
  | ok a => simp [bind_of_ok next done]

@[simp] theorem pure_bind (a : α) (next : α → Reading β) : (pure a : Reading α) >>= next = next a :=
  bind_of_ok next rfl

@[simp] theorem fail_bind (fault : Fault) (next : α → Reading β) :
    (fail fault : Reading α) >>= next = fail fault :=
  bind_of_error next rfl

@[simp] theorem lift_error_bind (fault : Fault) (next : α → Reading β) :
    (lift (.error fault) : Reading α) >>= next = fail fault :=
  bind_of_error next rfl

@[simp] theorem lift_ok_bind (a : α) (next : α → Reading β) :
    (lift (.ok a) : Reading α) >>= next = next a :=
  bind_of_ok next rfl

theorem bind_assoc (r : Reading α) (f : α → Reading β) (g : β → Reading γ) :
    r >>= f >>= g = r >>= fun a => f a >>= g := by
  cases done : r.result with
  | error fault =>
    rw [bind_of_error _ done, bind_of_error _ done, bind_of_error _ rfl]
  | ok a =>
    rw [bind_of_ok _ done, bind_of_ok _ done]
    cases more : (f a).result with
    | error fault => rw [bind_of_error _ rfl, bind_of_error _ more]
    | ok b => simp [bind_of_ok g more, bind_of_ok g (r := ⟨_, .ok b⟩) rfl]

end Reading

end ShaderDef
