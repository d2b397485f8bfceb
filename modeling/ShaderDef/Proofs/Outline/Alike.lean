import ShaderDef.Outline.Reading
import Mathlib.Data.List.Forall2

/-! Likeness: tokens, faults, events and readings that differ only in their places. The places are
related by some relation `R`: equality up to a shift, or the same rank in two sources. No reader
looks at the text of a malformed token, so alike ones may differ in it. -/

namespace ShaderDef

variable {R : Nat → Nat → Prop} {α β γ δ : Type}

structure Token.Alike (R : Nat → Nat → Prop) (s t : Token) : Prop where
  kind : s.kind = t.kind
  text : s.kind.isInvalid = false → s.text = t.text
  place : R s.index t.index

structure Fault.Alike (R : Nat → Nat → Prop) (f g : Fault) : Prop where
  cause : f.cause = g.cause
  place : R f.index g.index

def Event.isPlaced : Event → Bool
  | .opens .. | .code .. => true
  | _ => false

inductive Event.Alike (R : Nat → Nat → Prop) : Event → Event → Prop
  | opens (item : Item) {i j : Nat} (place : R i j) : Alike R (.opens item i) (.opens item j)
  | code (stage : Stage) {i j k l : Nat} (opened : R i j) (closed : R k l) :
      Alike R (.code stage (i + 1) k) (.code stage (j + 1) l)
  | same {e : Event} (free : e.isPlaced = false) : Alike R e e

inductive Result.Alike (R : Nat → Nat → Prop) (Q : α → β → Prop) :
    Except Fault α → Except Fault β → Prop
  | ok {a : α} {b : β} (related : Q a b) : Alike R Q (.ok a) (.ok b)
  | error {f g : Fault} (same : f.Alike R g) : Alike R Q (.error f) (.error g)

structure Reading.Alike (R : Nat → Nat → Prop) (Q : α → β → Prop) (r : Reading α)
    (s : Reading β) : Prop where
  result : Result.Alike R Q r.result s.result
  events : List.Forall₂ (Event.Alike R) r.events s.events

namespace Event

variable {es fs : List Event}

/-- What alike events agree in can be read off either list. -/
theorem map_alike {pick pick' : Event → α} (related : ∀ e e', e.Alike R e' → pick e = pick' e')
    (alike : List.Forall₂ (Event.Alike R) es fs) : es.map pick = fs.map pick' := by
  induction alike with
  | nil => rfl
  | cons head _ ih => rw [List.map_cons, List.map_cons, related _ _ head, ih]

theorem filterMap_alike {pick pick' : Event → Option α}
    (related : ∀ e e', e.Alike R e' → pick e = pick' e')
    (alike : List.Forall₂ (Event.Alike R) es fs) : es.filterMap pick = fs.filterMap pick' := by
  have mapped := congrArg (List.filterMap id) (map_alike related alike)
  simpa only [List.filterMap_map, Function.id_comp] using mapped

theorem findSome?_alike {pick pick' : Event → Option α}
    (related : ∀ e e', e.Alike R e' → pick e = pick' e')
    (alike : List.Forall₂ (Event.Alike R) es fs) : es.findSome? pick = fs.findSome? pick' := by
  have mapped := congrArg (List.findSome? id) (map_alike related alike)
  simpa only [List.findSome?_map, Function.id_comp] using mapped

theorem flatMap_alike {pick pick' : Event → List α}
    (related : ∀ e e', e.Alike R e' → pick e = pick' e')
    (alike : List.Forall₂ (Event.Alike R) es fs) : es.flatMap pick = fs.flatMap pick' := by
  rw [List.flatMap_def, List.flatMap_def, map_alike related alike]

end Event

namespace Result

variable {Q : α → β → Prop} {P : γ → δ → Prop} {r : Except Fault α} {s : Except Fault β}

theorem Alike.bind {f : α → Except Fault γ} {g : β → Except Fault δ} (alike : Alike R Q r s)
    (next : ∀ a b, Q a b → Alike R P (f a) (g b)) : Alike R P (r >>= f) (s >>= g) := by
  cases alike with
  | ok related => exact next _ _ related
  | error same => exact .error same

end Result

namespace Reading

variable {Q : α → β → Prop} {P : γ → δ → Prop} {r : Reading α} {s : Reading β}

theorem alike_pure {a : α} {b : β} (related : Q a b) :
    Alike R Q (pure a : Reading α) (pure b : Reading β) :=
  ⟨.ok related, .nil⟩

theorem alike_lift {r : Except Fault α} {s : Except Fault β} (alike : Result.Alike R Q r s) :
    Alike R Q (lift r) (lift s) :=
  ⟨alike, .nil⟩

theorem alike_fail {f g : Fault} (same : f.Alike R g) :
    Alike R Q (fail f : Reading α) (fail g : Reading β) :=
  ⟨.error same, .nil⟩

theorem alike_emit {e e' : Event} (same : e.Alike R e') :
    Alike R (fun _ _ => True) (emit e) (emit e') :=
  ⟨.ok trivial, .cons same .nil⟩

/-- The continuations need only be alike for what the readings result in. -/
theorem Alike.bind_results {f : α → Reading γ} {g : β → Reading δ} (alike : Alike R Q r s)
    (next : ∀ a b, r.result = .ok a → s.result = .ok b → Q a b → Alike R P (f a) (g b)) :
    Alike R P (r >>= f) (s >>= g) := by
  obtain ⟨events, result⟩ := r
  obtain ⟨events', result'⟩ := s
  obtain ⟨results, before⟩ := alike
  simp only at results before
  cases results with
  | ok related =>
    obtain ⟨result, behind⟩ := next _ _ rfl rfl related
    rw [bind_of_ok f rfl, bind_of_ok g rfl]
    exact ⟨result, List.rel_append before behind⟩
  | error same =>
    rw [bind_of_error f rfl, bind_of_error g rfl]
    exact ⟨.error same, before⟩

theorem Alike.bind {f : α → Reading γ} {g : β → Reading δ} (alike : Alike R Q r s)
    (next : ∀ a b, Q a b → Alike R P (f a) (g b)) : Alike R P (r >>= f) (s >>= g) :=
  alike.bind_results fun a b _ _ related => next a b related

end Reading

end ShaderDef
