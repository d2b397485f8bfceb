import ShaderDef.Proofs.Grammar.Recognize
import ShaderDef.Proofs.Outline.Once

/-! Declared items. Every reader completes the declaration of an item directly behind its opening,
so at any point of a reading the items declared are those opened, but for one that may still be
open. -/

namespace ShaderDef

namespace Event

def item? : Event → Option Item
  | .name _ => some .name
  | .input _ => some .input
  | .pixelInput _ => some .pixelInput
  | .code stage .. => some (.code stage)
  | .entry point _ => some (.entry point)
  | _ => none

def completed (events : List Event) : List Item :=
  events.filterMap item?

variable {es fs : List Event}

@[simp] theorem completed_append : completed (es ++ fs) = completed es ++ completed fs :=
  List.filterMap_append

/-- All items that were opened have been declared, or all but the last. -/
def Due (events : List Event) : Prop :=
  items events = completed events ∨ ∃ item, items events = completed events ++ [item]

theorem Due.append (level : items es = completed es) (due : Due fs) : Due (es ++ fs) := by
  rcases due with same | ⟨item, open'⟩
  · exact .inl (by rw [items_append, completed_append, level, same])
  · exact .inr ⟨item, by rw [items_append, completed_append, level, open', List.append_assoc]⟩

/-- An item that is opened and then declared. -/
theorem level_pair {item : Item} {index : Nat} {e : Event} (opens : e.opened? = none)
    (declares : e.item? = some item) :
    items [.opens item index, e] = completed [.opens item index, e] := by
  have opened : items [.opens item index, e] = item :: items [e] := rfl
  have declared : completed [.opens item index, e] = completed [e] := rfl
  rw [opened, declared, items, completed, List.filterMap_cons_none opens,
    List.filterMap_cons_some declares]
  rfl

theorem Due.completed_sublist (due : Due es) : (completed es).Sublist (items es) := by
  rcases due with same | ⟨item, open'⟩
  · rw [same]
  · rw [open']
    exact List.sublist_append_left _ _

end Event

open Event (items completed Due)

namespace Reading

variable {α β : Type} {r : Reading α} {next : α → Reading β}

/-- A reading that declares what it opens, and that leaves it to others to find items declared
twice. -/
structure Paired (r : Reading α) : Prop where
  due : ∀ front, front <+: r.events → Due front
  done : ∀ a, r.result = .ok a → items r.events = completed r.events
  other : ∀ f, r.result = .error f → f.cause.kind ≠ .alreadySet

theorem paired_lift {x : Except Fault α} (other : ∀ f, x = .error f → f.cause.kind ≠ .alreadySet) :
    (lift x).Paired where
  due := by
    intro front within
    obtain rfl := List.prefix_nil.1 within
    exact .inl rfl
  done := fun _ _ => rfl
  other := other

theorem paired_pure (a : α) : (pure a : Reading α).Paired :=
  paired_lift fun _ stopped => by cases stopped

theorem paired_fail {f : Fault} (other : f.cause.kind ≠ .alreadySet) :
    (fail f : Reading α).Paired :=
  paired_lift fun _ stopped => Except.error.inj stopped ▸ other

theorem Paired.bind (first : r.Paired) (second : ∀ a, r.result = .ok a → (next a).Paired) :
    (r >>= next).Paired := by
  cases outcome : r.result with
  | error fault =>
    rw [bind_of_error next outcome]
    refine ⟨first.due, fun _ done => by simp at done, fun f stopped => ?_⟩
    obtain rfl := Except.error.inj stopped
    exact first.other fault outcome
  | ok a =>
    rw [bind_of_ok next outcome]
    have level := first.done a outcome
    have behind := second a outcome
    refine ⟨fun front within => ?_, fun b done => ?_, behind.other⟩
    · rcases List.prefix_or_prefix_of_prefix within (List.prefix_append r.events _) with
        early | ⟨late, rfl⟩
      · exact first.due front early
      · exact .append level (behind.due late ((List.prefix_append_right_inj _).1 within))
    · simp only [Event.items_append, Event.completed_append, level, behind.done b done]

theorem paired_plain {e : Event} (opens : e.opened? = none) (declares : e.item? = none) :
    (emit e).Paired where
  due := by
    intro front within
    have none : items front = [] ∧ completed front = [] := by
      constructor
      · exact List.filterMap_eq_nil_iff.2 fun e' inside => by
          rwa [List.mem_singleton.1 (within.subset inside)]
      · exact List.filterMap_eq_nil_iff.2 fun e' inside => by
          rwa [List.mem_singleton.1 (within.subset inside)]
    exact .inl (none.1.trans none.2.symm)
  done := fun _ _ => by
    rw [events_emit, items, completed, List.filterMap_cons_none opens,
      List.filterMap_cons_none declares]
    rfl
  other := fun _ stopped => by simp at stopped

structure Completes (item : Item) (r : Reading α) : Prop where
  told : r.events = [] ∨ ∃ e, r.events = [e] ∧ e.opened? = none ∧ e.item? = some item
  done : ∀ a, r.result = .ok a → r.events ≠ []
  other : ∀ f, r.result = .error f → f.cause.kind ≠ .alreadySet

variable {item : Item}

theorem completes_emit {e : Event} (opens : e.opened? = none) (declares : e.item? = some item)
    (a : α) : (emit e >>= fun _ => pure a).Completes item where
  told := .inr ⟨e, rfl, opens, declares⟩
  done := fun _ _ none => by cases none
  other := fun _ stopped => by cases stopped

theorem Completes.behind {x : Except Fault β} {next : β → Reading α}
    (other : ∀ f, x = .error f → f.cause.kind ≠ .alreadySet)
    (completes : ∀ b, (next b).Completes item) : (lift x >>= next).Completes item := by
  cases x with
  | error fault =>
    rw [lift_error_bind]
    refine ⟨.inl rfl, fun _ done => by simp at done, fun f stopped => ?_⟩
    obtain rfl := Except.error.inj stopped
    exact other fault rfl
  | ok b =>
    rw [lift_ok_bind]
    exact completes b

theorem Completes.paired {t : Token} {r : Reading (List Token)} (completes : r.Completes item) :
    (Outline.declare item t r).Paired := by
  have read : Outline.declare item t r = ⟨.opens item t.index :: r.events, r.result⟩ :=
    bind_of_ok _ rfl
  rw [read]
  refine ⟨fun front within => ?_, fun rest done => ?_, completes.other⟩
  · rcases completes.told with none | ⟨e, single, opens, declares⟩
    · simp only [none] at within
      rcases List.prefix_cons_iff.1 within with rfl | ⟨rest, rfl, nothing⟩
      · exact .inl rfl
      · rw [List.prefix_nil.1 nothing]
        exact .inr ⟨item, rfl⟩
    · simp only [single] at within
      rcases List.prefix_cons_iff.1 within with rfl | ⟨rest, rfl, behind⟩
      · exact .inl rfl
      · rcases List.prefix_cons_iff.1 behind with rfl | ⟨rest, rfl, nothing⟩
        · exact .inr ⟨item, rfl⟩
        · rw [List.prefix_nil.1 nothing]
          exact .inl (Event.level_pair opens declares)
  · rcases completes.told with none | ⟨e, single, opens, declares⟩
    · exact absurd none (completes.done rest done)
    · rw [single]
      exact Event.level_pair opens declares

end Reading

section Causes

variable {size : Nat} {ts : List Token} {t : Token} {f : Fault}

theorem Token.require_other {expected : Kind} (stopped : t.require expected = .error f) :
    f.cause.kind ≠ .alreadySet := by
  unfold require at stopped
  split at stopped
  · cases stopped
  · cases stopped
    simp [Fault.mismatch, Fault.blame, Fault.Cause.kind]

theorem Token.requireSlot_other (stopped : t.requireSlot = .error f) :
    f.cause.kind ≠ .alreadySet := by
  unfold requireSlot at stopped
  split at stopped
  · cases stopped
  · exact require_other stopped

theorem Block.guarded_other {bad : Token.Kind → Bool}
    (stopped : read size ts >>= refuse bad = .error f) : f.cause.kind ≠ .alreadySet := by
  rcases Except.bind_eq_error.1 stopped with missing | ⟨b, _, refused⟩
  · unfold read at missing
    split at missing
    · cases missing
    · cases missing
      simp [Fault.mismatch, Fault.blame, Fault.Cause.kind]
  · unfold refuse at refused
    split at refused
    · cases refused
      simp [Fault.blame, Fault.Cause.kind]
    · cases refused

theorem Binding.ofTokens_other {type name colon slot semicolon : Token}
    (stopped : ofTokens type name colon slot semicolon = .error f) :
    f.cause.kind ≠ .alreadySet := by
  rcases Except.bind_eq_error.1 stopped with first | ⟨_, _, stopped⟩
  · exact Token.require_other first
  rcases Except.bind_eq_error.1 stopped with second | ⟨_, _, stopped⟩
  · exact Token.require_other second
  rcases Except.bind_eq_error.1 stopped with third | ⟨_, _, stopped⟩
  · exact Token.require_other third
  rcases Except.bind_eq_error.1 stopped with fourth | ⟨_, _, stopped⟩
  · exact Token.requireSlot_other fourth
  rcases Except.bind_eq_error.1 stopped with fifth | ⟨_, _, stopped⟩
  · exact Token.require_other fifth
  · cases stopped

theorem Binding.listOfTokens_other {label : String} (stopped : listOfTokens label ts = .error f) :
    f.cause.kind ≠ .alreadySet := by
  fun_induction listOfTokens label ts with
  | case1 type name colon slot semicolon rest ih =>
    rcases Except.bind_eq_error.1 stopped with first | ⟨_, _, stopped⟩
    · exact ofTokens_other first
    rcases Except.bind_eq_error.1 stopped with later | ⟨_, _, stopped⟩
    · exact ih later
    · cases stopped
  | case2 => cases stopped
  | case3 head rest short =>
    cases stopped
    simp [Fault.blame, Fault.Cause.kind]

end Causes

namespace Outline

open Reading

variable {size : Nat} {ts : List Token} {t : Token} {item : Item} {scope : Scope} {f : Fault}

theorem take_other {expected : Token.Kind} (stopped : take size expected ts = .error f) :
    f.cause.kind ≠ .alreadySet := by
  cases ts with
  | nil =>
    cases stopped
    simp [Fault.mismatch, Fault.blame, Fault.Cause.kind]
  | cons t ts =>
    rcases Except.bind_eq_error.1 stopped with here | ⟨_, _, stopped⟩
    · exact Token.require_other here
    · cases stopped

theorem name_completes (size : Nat) (ts : List Token) : (name size ts).Completes .name := by
  refine .behind (fun _ => take_other) ?_
  rintro ⟨text, rest⟩
  refine .behind (fun _ => take_other) ?_
  rintro ⟨semicolon, rest⟩
  exact completes_emit rfl rfl _

theorem bindings_completes {event : List Binding → Event}
    (opens : ∀ list, (event list).opened? = none)
    (declares : ∀ list, (event list).item? = some item) (label : String) (size : Nat)
    (ts : List Token) : (bindings size label event ts).Completes item := by
  refine .behind (fun _ => take_other) ?_
  rintro ⟨brace, rest⟩
  refine .behind (fun _ => Block.guarded_other) fun block => ?_
  refine .behind (fun _ => Binding.listOfTokens_other) fun list => ?_
  exact completes_emit (opens list) (declares list) _

theorem bindings_paired {event : List Binding → Event} (opens : ∀ list, (event list).opened? = none)
    (declares : ∀ list, (event list).item? = none) (label : String) (size : Nat)
    (ts : List Token) : (bindings size label event ts).Paired := by
  refine .bind (paired_lift fun _ => take_other) ?_
  rintro ⟨brace, rest⟩ _
  refine .bind (paired_lift fun _ => Block.guarded_other) fun block _ => ?_
  refine .bind (paired_lift fun _ => Binding.listOfTokens_other) fun list _ => ?_
  exact .bind (paired_plain (opens list) (declares list)) fun _ _ => paired_pure _

theorem uniforms_paired (size : Nat) (ts : List Token) : (uniforms size ts).Paired := by
  refine .bind (paired_lift fun _ => take_other) ?_
  rintro ⟨buffer, rest⟩ _
  exact bindings_paired (fun _ => rfl) (fun _ => rfl) _ _ _

theorem code_completes (size : Nat) (stage : Stage) (ts : List Token) :
    (code size stage ts).Completes (.code stage) := by
  refine .behind (fun _ => take_other) ?_
  rintro ⟨brace, rest⟩
  exact .behind (fun _ => Block.guarded_other) fun block => completes_emit rfl rfl _

/-- An entry point is a declaration, and more of them may stand behind it. -/
theorem entries_cons {close : Token} {point : Entry}
    (known : Entry.ofKeyword? t.kind = some point) :
    entries close (t :: ts) = declare (.entry point) t (do
      .lift ((ts.headD close).require .stringLiteral)
      .lift ((ts.tail.headD close).require .semicolon)
      .emit (.entry point (ts.headD close).text)
      return ts.tail.tail) >>= entries close := by
  rw [entries]
  simp only [known, declare, bind_assoc, Reading.pure_bind]

theorem entries_paired (close : Token) (ts : List Token) : (entries close ts).Paired := by
  induction ts using entries.induct close with
  | case1 =>
    rw [entries]
    exact paired_pure ()
  | case2 t rest unknown =>
    rw [entries]
    simp only [unknown]
    exact paired_fail (by simp [Fault.blame, Fault.Cause.kind])
  | case3 t rest point known ih =>
    rw [entries_cons known]
    refine .bind (Completes.paired ?_) fun behind done => ?_
    · refine .behind (fun _ => Token.require_other) fun _ => ?_
      exact .behind (fun _ => Token.require_other) fun _ => completes_emit rfl rfl _
    · obtain ⟨_, _, done⟩ := bind_eq_ok.1 done
      obtain ⟨_, _, done⟩ := bind_eq_ok.1 done
      obtain ⟨_, _, done⟩ := bind_eq_ok.1 done
      obtain ⟨_, _, done⟩ := bind_eq_ok.1 done
      obtain rfl := Except.ok.inj done
      exact ih

theorem entrypoints_paired (size : Nat) (ts : List Token) : (entrypoints size ts).Paired := by
  refine .bind (paired_lift fun _ => take_other) ?_
  rintro ⟨brace, rest⟩ _
  refine .bind (paired_lift fun _ => Block.guarded_other) fun block _ => ?_
  exact .bind (entries_paired _ _) fun _ _ => paired_pure _

theorem enter_paired (size : Nat) (scope : Scope) (ts : List Token) :
    (enter size scope ts).Paired := by
  refine .bind (paired_lift fun _ => take_other) ?_
  rintro ⟨brace, rest⟩ _
  exact paired_pure _

theorem goOn_paired {r : Reading (List Token)} (paired : r.Paired) : (goOn scope r).Paired :=
  .bind paired fun _ _ => paired_pure _

theorem step_paired (size : Nat) (scope : Scope) (t : Token) (ts : List Token) :
    (step size scope t ts).Paired := by
  unfold step
  split
  · exact paired_fail (by simp [Fault.blame, Fault.Cause.kind])
  · cases scope with
    | top =>
      simp only [topStep]
      split
      · exact goOn_paired (name_completes size ts).paired
      · exact enter_paired size _ ts
      · exact goOn_paired (bindings_completes (fun _ => rfl) (fun _ => rfl) _ size ts).paired
      · exact goOn_paired (bindings_completes (fun _ => rfl) (fun _ => rfl) _ size ts).paired
      · exact enter_paired size _ ts
      · exact paired_fail (by simp [Fault.blame, Fault.Cause.kind])
    | bindings =>
      simp only [bindingsStep]
      split
      · exact paired_pure _
      · exact goOn_paired (uniforms_paired size ts)
      · exact goOn_paired (bindings_paired (fun _ => rfl) (fun _ => rfl) _ size ts)
      · exact paired_fail (by simp [Fault.blame, Fault.Cause.kind])
    | shader =>
      simp only [shaderStep]
      split
      · exact goOn_paired (code_completes size _ ts).paired
      · split
        · exact paired_pure _
        · exact goOn_paired (entrypoints_paired size ts)
        · exact paired_fail (by simp [Fault.blame, Fault.Cause.kind])

/-- At any point of a walk all opened items have been declared, or all but the last. -/
theorem walk_paired (size : Nat) (scope : Scope) (ts : List Token) :
    (walk size scope ts).Paired := by
  induction scope, ts using walk.induct size with
  | case1 scope =>
    rw [walk_nil]
    cases scope with
    | top => exact paired_pure ()
    | bindings => exact paired_fail (by simp [Fault.Cause.kind])
    | shader => exact paired_fail (by simp [Fault.mismatch, Fault.blame, Fault.Cause.kind])
  | case2 scope t ts ih =>
    rw [walk_cons]
    exact .bind (step_paired size scope t ts) fun next done => ih next done

end Outline

end ShaderDef
