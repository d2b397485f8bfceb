import ShaderDef.Proofs.Grammar.Native

/-! Places that a walk comes to. Where a walk stops, and where it tells an event, it is at a place
that it has come to step by step, and no foreign token lies behind it. -/

namespace ShaderDef.Outline

open Grammar
open Token (Native native_append)

inductive Reaches (size : Nat) (all : List Token) : Scope → List Token → Prop
  | start : Reaches size all .top all
  | next {scope scope' : Scope} {t : Token} {ts rest : List Token}
      (here : Reaches size all scope (t :: ts))
      (goes : (step size scope t ts).result = .ok (scope', rest)) : Reaches size all scope' rest

variable {size : Nat} {all ts : List Token} {scope : Scope}

/-- A walk stops at the end of the source, or in a step from a place that it has come to. -/
theorem Reaches.stops {f : Fault} (here : Reaches size all scope ts)
    (stopped : (walk size scope ts).result = .error f) :
    (∃ scope', Reaches size all scope' [] ∧ (finish size scope').result = .error f) ∨
      ∃ scope' t rest, Reaches size all scope' (t :: rest) ∧
        (step size scope' t rest).result = .error f := by
  induction scope, ts using walk.induct size with
  | case1 scope =>
    rw [walk_nil] at stopped
    exact .inl ⟨scope, here, stopped⟩
  | case2 scope t ts ih =>
    rw [walk_cons, Reading.bind_eq_error] at stopped
    rcases stopped with first | ⟨next, goes, later⟩
    · exact .inr ⟨scope, t, ts, here, first⟩
    · exact ih next goes (here.next goes) later

/-- A walk tells each event in a step from a place that it has come to. -/
theorem Reaches.tells {e : Event} (here : Reaches size all scope ts)
    (told : e ∈ (walk size scope ts).events) :
    ∃ scope' t rest, Reaches size all scope' (t :: rest) ∧
      e ∈ (step size scope' t rest).events := by
  induction scope, ts using walk.induct size with
  | case1 scope =>
    rw [walk_nil] at told
    cases scope <;> simp [finish, Fault.mismatch] at told
  | case2 scope t ts ih =>
    rw [walk_cons, Reading.mem_events_bind] at told
    rcases told with first | ⟨next, goes, later⟩
    · exact ⟨scope, t, ts, here, first⟩
    · exact ih next goes (here.next goes) later

theorem significant_eq_self (solid : ∀ t ∈ ts, t.kind.isComment = false) : significant ts = ts :=
  List.filter_eq_self.2 fun t inside => by simp [solid t inside]

/-- A step goes over no foreign token. -/
theorem step_native {scope' : Scope} {t : Token} {rest : List Token}
    (solid : ∀ s ∈ ts, s.kind.isComment = false)
    (goes : (step size scope t ts).result = .ok (scope', rest)) :
    ∃ taken, t :: ts = taken ++ rest ∧ Native taken := by
  have opened : Terminal t.kind ([] ++ [t]) t := .intro (List.forall_mem_nil _) rfl
  rw [← significant_eq_self solid] at goes
  obtain ⟨seg, ts', rfl, moves, rfl⟩ := step_moves "" opened goes
  rw [List.forall_mem_append] at solid
  exact ⟨[t] ++ seg, by rw [significant_eq_self solid.2]; rfl, moves.native⟩

/-- A walk has no foreign token behind it. -/
theorem Reaches.behind (here : Reaches size all scope ts)
    (solid : ∀ t ∈ all, t.kind.isComment = false) : ∃ taken, all = taken ++ ts ∧ Native taken := by
  induction here with
  | start => exact ⟨[], rfl, List.forall_mem_nil _⟩
  | next here goes ih =>
    obtain ⟨taken, whole, native⟩ := ih
    rw [whole, List.forall_mem_append, List.forall_mem_cons] at solid
    obtain ⟨more, split, native'⟩ := step_native solid.2.2 goes
    exact ⟨taken ++ more, by rw [whole, split, List.append_assoc], native_append native native'⟩

end ShaderDef.Outline
