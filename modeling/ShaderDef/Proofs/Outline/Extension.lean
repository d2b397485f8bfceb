import ShaderDef.Proofs.Grammar.Accept
import ShaderDef.Proofs.Outline.Once

/-! More tokens behind those that are read. A reader that does not run into the end reads the same
whatever follows; one that does has told no event that it would not tell then. -/

namespace ShaderDef

variable {α β γ δ : Type} {size : Nat}

namespace Reading

/-- With more to read `r` becomes `s`. Only a fault at the end of `size` bytes may vanish. -/
structure Persists (size : Nat) (r : Reading α) (s : Reading β) : Prop where
  told : r.events <+: s.events
  fault : ∀ f, r.result = .error f → f.index ≠ size →
    s.result = .error f ∧ s.events = r.events

inductive Extends (size : Nat) (Q : α → β → Prop) (r : Reading α) (s : Reading β) : Prop
  | done {a : α} {b : β} (first : r.result = .ok a) (second : s.result = .ok b) (related : Q a b)
      (same : s.events = r.events)
  | stopped {f : Fault} (first : r.result = .error f) (second : s.result = .error f)
      (same : s.events = r.events)
  | ended {f : Fault} (first : r.result = .error f) (place : f.index = size)
      (told : r.events <+: s.events)

variable {Q : α → β → Prop} {P : γ → δ → Prop} {r : Reading α} {s : Reading β}
  {f : α → Reading γ} {g : β → Reading δ}

theorem Extends.refl (r : Reading α) : Extends size Eq r r := by
  cases outcome : r.result with
  | ok a => exact .done outcome outcome rfl rfl
  | error fault => exact .stopped outcome outcome rfl

theorem prefix_bind (s : Reading β) (g : β → Reading δ) : s.events <+: (s >>= g).events := by
  cases outcome : s.result with
  | ok b => simp [bind_of_ok g outcome]
  | error fault => simp [bind_of_error g outcome]

theorem Extends.bind (extended : Extends size Q r s)
    (next : ∀ a b, Q a b → Extends size P (f a) (g b)) : Extends size P (r >>= f) (s >>= g) := by
  cases extended with
  | done first second related same =>
    rw [bind_of_ok f first, bind_of_ok g second, same]
    cases next _ _ related with
    | done first second related same => exact .done first second related (by rw [same])
    | stopped first second same => exact .stopped first second (by rw [same])
    | ended first place told => exact .ended first place ((List.prefix_append_right_inj _).2 told)
  | stopped first second same =>
    rw [bind_of_error f first, bind_of_error g second, same]
    exact .stopped rfl rfl rfl
  | ended first place told =>
    rw [bind_of_error f first]
    exact .ended rfl place (told.trans (prefix_bind s g))

/-- Behind the last reader only faults and events are compared. -/
theorem Extends.bind_persists (extended : Extends size Q r s)
    (next : ∀ a b, r.result = .ok a → Q a b → Persists size (f a) (g b)) :
    Persists size (r >>= f) (s >>= g) := by
  cases extended with
  | done first second related same =>
    obtain ⟨told, fault⟩ := next _ _ first related
    rw [bind_of_ok f first, bind_of_ok g second, same]
    refine ⟨(List.prefix_append_right_inj _).2 told, fun e stopped early => ?_⟩
    obtain ⟨again, equal⟩ := fault e stopped early
    exact ⟨again, by rw [equal]⟩
  | stopped first second same =>
    rw [bind_of_error f first, bind_of_error g second, same]
    refine ⟨List.prefix_rfl, fun e stopped _ => ⟨?_, rfl⟩⟩
    rw [Except.error.inj stopped]
  | ended first place told =>
    rw [bind_of_error f first]
    refine ⟨told.trans (prefix_bind s g), fun e stopped early => ?_⟩
    obtain rfl := Except.error.inj stopped
    exact absurd place early

end Reading

open Reading (Extends Persists)

namespace Block

theorem split_append_right {depth : Nat} {ts body rest : List Token} {close : Token}
    (found : split depth ts = (body, close :: rest)) (more : List Token) :
    split depth (ts ++ more) = (body, close :: (rest ++ more)) := by
  obtain ⟨nested, closed⟩ := nested_of_split found
  have whole := split_append depth ts
  rw [found] at whole
  rw [← whole, List.append_assoc, List.cons_append, split_of_nested _ nested closed]

/-- A block that is closed is the same block whatever follows. -/
theorem guarded_extends (size size' : Nat) (bad : Token.Kind → Bool) (ts more : List Token) :
    Extends size (fun b c => c = { b with rest := b.rest ++ more })
      (.lift (read size ts >>= refuse bad)) (.lift (read size' (ts ++ more) >>= refuse bad)) := by
  cases found : split 0 ts with
  | mk body left =>
    cases left with
    | nil =>
      have missing : read size ts = .error (.mismatch .rightBrace (.finish size)) := by
        rw [read, found]
      exact .ended (by rw [missing]; rfl) rfl List.nil_prefix
    | cons close rest =>
      have first : read size ts = .ok ⟨body, close, rest⟩ := read_eq_ok.2 found
      have second : read size' (ts ++ more) = .ok ⟨body, close, rest ++ more⟩ :=
        read_eq_ok.2 (split_append_right found more)
      rw [first, second]
      cases wrong : body.find? fun t => bad t.kind with
      | some t =>
        refine .stopped (f := .blame .invalid t) ?_ ?_ rfl
        · simp [refuse, wrong, bind, Except.bind]
        · simp [refuse, wrong, bind, Except.bind]
      | none =>
        refine .done (a := ⟨body, close, rest⟩) (b := ⟨body, close, rest ++ more⟩) ?_ ?_ rfl rfl
        · simp [refuse, wrong, bind, Except.bind]
        · simp [refuse, wrong, bind, Except.bind]

end Block

namespace Outline

variable {ts more : List Token} {t : Token} {scope : Scope}

theorem take_extends (size size' : Nat) (expected : Token.Kind) (ts more : List Token) :
    Extends size (fun p q => q = (p.1, p.2 ++ more)) (.lift (take size expected ts))
      (.lift (take size' expected (ts ++ more))) := by
  cases ts with
  | nil => exact .ended rfl rfl List.nil_prefix
  | cons t ts =>
    cases met : t.require expected with
    | error fault =>
      refine .stopped (f := fault) ?_ ?_ rfl
      · simp [take, met, bind, Except.bind]
      · simp [take, met, bind, Except.bind]
    | ok _ =>
      refine .done (a := (t, ts)) (b := (t, ts ++ more)) ?_ ?_ rfl rfl
      · simp [take, met, bind, Except.bind, pure, Except.pure]
      · simp [take, met, bind, Except.bind, pure, Except.pure]

theorem name_extends (size size' : Nat) (ts more : List Token) :
    Extends size (fun us vs => vs = us ++ more) (name size ts) (name size' (ts ++ more)) := by
  refine (take_extends size size' _ ts more).bind ?_
  rintro ⟨text, rest⟩ _ rfl
  refine (take_extends size size' _ rest more).bind ?_
  rintro ⟨semicolon, rest⟩ _ rfl
  exact (Extends.refl _).bind fun _ _ _ => .done rfl rfl rfl rfl

theorem bindings_extends (size size' : Nat) (label : String) (event : List Binding → Event)
    (ts more : List Token) :
    Extends size (fun us vs => vs = us ++ more) (bindings size label event ts)
      (bindings size' label event (ts ++ more)) := by
  refine (take_extends size size' _ ts more).bind ?_
  rintro ⟨brace, rest⟩ _ rfl
  refine (Block.guarded_extends size size' _ rest more).bind ?_
  rintro block _ rfl
  refine (Extends.refl _).bind ?_
  rintro list _ rfl
  exact (Extends.refl _).bind fun _ _ _ => .done rfl rfl rfl rfl

theorem uniforms_extends (size size' : Nat) (ts more : List Token) :
    Extends size (fun us vs => vs = us ++ more) (uniforms size ts)
      (uniforms size' (ts ++ more)) := by
  refine (take_extends size size' _ ts more).bind ?_
  rintro ⟨buffer, rest⟩ _ rfl
  exact bindings_extends size size' _ _ rest more

theorem code_extends (size size' : Nat) (stage : Stage) (ts more : List Token) :
    Extends size (fun us vs => vs = us ++ more) (code size stage ts)
      (code size' stage (ts ++ more)) := by
  refine (take_extends size size' _ ts more).bind ?_
  rintro ⟨brace, rest⟩ _ rfl
  refine (Block.guarded_extends size size' _ rest more).bind ?_
  rintro block _ rfl
  exact (Extends.refl _).bind fun _ _ _ => .done rfl rfl rfl rfl

/-- Entry points are read from a closed block, so they are read as before. -/
theorem entrypoints_extends (size size' : Nat) (ts more : List Token) :
    Extends size (fun us vs => vs = us ++ more) (entrypoints size ts)
      (entrypoints size' (ts ++ more)) := by
  refine (take_extends size size' _ ts more).bind ?_
  rintro ⟨brace, rest⟩ _ rfl
  refine (Block.guarded_extends size size' _ rest more).bind ?_
  rintro block _ rfl
  exact (Extends.refl _).bind fun _ _ _ => .done rfl rfl rfl rfl

theorem declare_extends (item : Item) (t : Token) {r s : Reading (List Token)}
    (extended : Extends size (fun us vs => vs = us ++ more) r s) :
    Extends size (fun us vs => vs = us ++ more) (declare item t r) (declare item t s) :=
  (Extends.refl _).bind fun _ _ _ => extended

theorem goOn_extends (scope : Scope) {r s : Reading (List Token)}
    (extended : Extends size (fun us vs => vs = us ++ more) r s) :
    Extends size (fun p q => q = (p.1, p.2 ++ more)) (goOn scope r) (goOn scope s) := by
  refine extended.bind ?_
  rintro rest _ rfl
  exact .done rfl rfl rfl rfl

theorem enter_extends (size size' : Nat) (scope : Scope) (ts more : List Token) :
    Extends size (fun p q => q = (p.1, p.2 ++ more)) (enter size scope ts)
      (enter size' scope (ts ++ more)) := by
  refine (take_extends size size' _ ts more).bind ?_
  rintro ⟨brace, rest⟩ _ rfl
  exact .done rfl rfl rfl rfl

theorem step_extends (size size' : Nat) (scope : Scope) (t : Token) (ts more : List Token) :
    Extends size (fun p q => q = (p.1, p.2 ++ more)) (step size scope t ts)
      (step size' scope t (ts ++ more)) := by
  unfold step
  split
  · exact .stopped rfl rfl rfl
  · cases scope with
    | top =>
      simp only [topStep]
      split
      · exact goOn_extends _ (declare_extends _ t (name_extends size size' ts more))
      · exact enter_extends size size' _ ts more
      · exact goOn_extends _ (declare_extends _ t (bindings_extends size size' _ _ ts more))
      · exact goOn_extends _ (declare_extends _ t (bindings_extends size size' _ _ ts more))
      · exact enter_extends size size' _ ts more
      · exact .stopped rfl rfl rfl
    | bindings =>
      simp only [bindingsStep]
      split
      · exact .done rfl rfl rfl rfl
      · exact goOn_extends _ (uniforms_extends size size' ts more)
      · exact goOn_extends _ (bindings_extends size size' _ _ ts more)
      · exact .stopped rfl rfl rfl
    | shader =>
      simp only [shaderStep]
      split
      · exact goOn_extends _ (declare_extends _ t (code_extends size size' _ ts more))
      · split
        · exact .done rfl rfl rfl rfl
        · exact goOn_extends _ (entrypoints_extends size size' ts more)
        · exact .stopped rfl rfl rfl

/-- Step by step a walk tells the same with more tokens behind, up to the end of the first ones. -/
theorem walk_persists (size size' : Nat) (scope : Scope) (ts more : List Token) :
    Persists size (walk size scope ts) (walk size' scope (ts ++ more)) := by
  induction scope, ts using walk.induct size with
  | case1 scope =>
    rw [walk_nil]
    cases scope with
    | top => exact ⟨List.nil_prefix, fun f stopped => by simp [finish] at stopped⟩
    | bindings =>
      refine ⟨List.nil_prefix, fun f stopped early => ?_⟩
      obtain rfl := Except.error.inj stopped
      exact absurd rfl early
    | shader =>
      refine ⟨List.nil_prefix, fun f stopped early => ?_⟩
      obtain rfl := Except.error.inj stopped
      exact absurd rfl early
  | case2 scope t ts ih =>
    rw [List.cons_append, walk_cons, walk_cons]
    refine (step_extends size size' scope t ts more).bind_persists ?_
    rintro next _ goes rfl
    exact ih next goes

/-- A fault that is not about the end is met again whatever tokens follow. -/
theorem ofTokens_append_of_error {f : Fault} (size' : Nat) (more : List Token)
    (stopped : (ofTokens size ts).result = .error f) (early : f.index ≠ size) :
    (ofTokens size' (ts ++ more)).result = .error f := by
  obtain ⟨⟨later, whole⟩, fault⟩ :=
    walk_persists size size' .top (significant ts) (significant more)
  rw [ofTokens, significant_append]
  rcases Reading.bind_eq_error.1 stopped with again | ⟨_, kept, last⟩
  -- An item opened twice is found among the events that are told in both walks.
  · obtain ⟨front, item, index, rest, split, kept, known, rfl⟩ := once_eq_error.1 again
    refine Reading.bind_eq_error.2 (.inl ?_)
    rw [← whole, split, List.append_assoc, List.cons_append, once_again kept known]
  · obtain ⟨last, same⟩ := fault f last early
    exact Reading.bind_eq_error.2 (.inr ⟨(), by rw [same]; exact kept, last⟩)

end Outline

end ShaderDef
