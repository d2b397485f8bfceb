import ShaderDef.Outline.Section

/-! Scopes: which sections may stand where, the walk over all tokens of a source, and its outline.
Every step of the walk leaves a suffix of the tokens it was given, so the walk comes to an end. A
source may open an item only once; the second opening stops the reading before anything behind it
counts. -/

namespace ShaderDef

inductive Scope where
  | top | bindings | shader
deriving DecidableEq, Repr

namespace Outline

def declare (item : Item) (t : Token) (read : Reading (List Token)) : Reading (List Token) := do
  .emit (.opens item t.index)
  read

def goOn (scope : Scope) (read : Reading (List Token)) : Reading (Scope × List Token) := do
  let rest ← read
  return (scope, rest)

def enter (size : Nat) (scope : Scope) (ts : List Token) : Reading (Scope × List Token) := do
  let (_, ts) ← .lift (take size .leftBrace ts)
  return (scope, ts)

def topStep (size : Nat) (t : Token) (ts : List Token) : Reading (Scope × List Token) :=
  match t.kind with
  | .nameKeyword => goOn .top (declare .name t (name size ts))
  | .bindingsKeyword => enter size .bindings ts
  | .inputKeyword => goOn .top (declare .input t (bindings size "Input" .input ts))
  | .pixelInputKeyword =>
    goOn .top (declare .pixelInput t (bindings size "PixelInput" .pixelInput ts))
  | .shaderKeyword => enter size .shader ts
  | _ => .fail (.blame .unknown t)

def bindingsStep (size : Nat) (t : Token) (ts : List Token) : Reading (Scope × List Token) :=
  match t.kind with
  | .rightBrace => return (.top, ts)
  | .uniformsKeyword => goOn .bindings (uniforms size ts)
  | .texturesKeyword => goOn .bindings (bindings size "Textures" .textures ts)
  | _ => .fail (.blame (.unknownIn "Bindings") t)

def shaderStep (size : Nat) (t : Token) (ts : List Token) : Reading (Scope × List Token) :=
  match Stage.ofKeyword? t.kind with
  | some stage => goOn .shader (declare (.code stage) t (code size stage ts))
  | none =>
    match t.kind with
    | .rightBrace => return (.top, ts)
    | .entrypointKeyword => goOn .shader (entrypoints size ts)
    | _ => .fail (.blame (.unknownIn "Shader") t)

def step (size : Nat) (scope : Scope) (t : Token) (ts : List Token) : Reading (Scope × List Token) :=
  if t.kind.isInvalid then .fail (.blame .invalid t)
  else
    match scope with
    | .top => topStep size t ts
    | .bindings => bindingsStep size t ts
    | .shader => shaderStep size t ts

def finish (size : Nat) : Scope → Reading Unit
  | .top => pure ()
  | .bindings => .fail ⟨.unterminated, size⟩
  | .shader => .fail (.mismatch .rightBrace (.finish size))

def Leaves (read : Reading (List Token)) (ts : List Token) : Prop :=
  ∀ rest, read.result = .ok rest → rest <:+ ts

theorem take_suffix {size : Nat} {expected : Token.Kind} {ts rest : List Token} {t : Token}
    (ok : take size expected ts = .ok (t, rest)) : rest <:+ ts := by
  cases ts with
  | nil => simp [take] at ok
  | cons head ts =>
    cases met : head.require expected with
    | error fault => simp [take, met, bind, Except.bind] at ok
    | ok _ =>
      simp only [take, met, bind, Except.bind, pure, Except.pure, Except.ok.injEq,
        Prod.mk.injEq] at ok
      exact ok.2 ▸ List.suffix_cons head ts

theorem guarded_suffix {size : Nat} {bad : Token.Kind → Bool} {ts : List Token} {b : Block}
    (ok : Block.read size ts >>= Block.refuse bad = .ok b) : b.rest <:+ ts := by
  cases found : Block.read size ts with
  | error fault => simp [found, bind, Except.bind] at ok
  | ok c =>
    have same := (Block.refuse_eq_ok.1 (by simpa [found, bind, Except.bind] using ok)).1
    have whole := Block.split_append 0 ts
    rw [Block.read_eq_ok.1 found] at whole
    subst same
    exact ⟨c.body ++ [c.close], by simpa using whole⟩

theorem declare_leaves {item : Item} {t : Token} {read : Reading (List Token)} {ts : List Token}
    (leaves : Leaves read ts) : Leaves (declare item t read) ts := by
  intro rest ok
  obtain ⟨_, _, done⟩ := Reading.bind_eq_ok.1 ok
  exact leaves rest done

theorem name_leaves (size : Nat) (ts : List Token) : Leaves (name size ts) ts := by
  intro rest ok
  obtain ⟨⟨text, behind⟩, named, ok⟩ := Reading.bind_eq_ok.1 ok
  obtain ⟨⟨semicolon, after⟩, ended, ok⟩ := Reading.bind_eq_ok.1 ok
  obtain ⟨_, _, done⟩ := Reading.bind_eq_ok.1 ok
  simp only [Reading.result_pure, Except.ok.injEq] at done
  subst done
  exact (take_suffix ended).trans (take_suffix named)

theorem bindings_leaves (size : Nat) (label : String) (event : List Binding → Event)
    (ts : List Token) : Leaves (bindings size label event ts) ts := by
  intro rest ok
  obtain ⟨⟨brace, behind⟩, opened, ok⟩ := Reading.bind_eq_ok.1 ok
  obtain ⟨block, closed, ok⟩ := Reading.bind_eq_ok.1 ok
  obtain ⟨list, _, ok⟩ := Reading.bind_eq_ok.1 ok
  obtain ⟨_, _, done⟩ := Reading.bind_eq_ok.1 ok
  simp only [Reading.result_pure, Except.ok.injEq] at done
  subst done
  exact (guarded_suffix closed).trans (take_suffix opened)

theorem uniforms_leaves (size : Nat) (ts : List Token) : Leaves (uniforms size ts) ts := by
  intro rest ok
  obtain ⟨⟨buffer, behind⟩, named, done⟩ := Reading.bind_eq_ok.1 ok
  exact (bindings_leaves _ _ _ _ rest done).trans (take_suffix named)

theorem code_leaves (size : Nat) (stage : Stage) (ts : List Token) :
    Leaves (code size stage ts) ts := by
  intro rest ok
  obtain ⟨⟨brace, behind⟩, opened, ok⟩ := Reading.bind_eq_ok.1 ok
  obtain ⟨block, closed, ok⟩ := Reading.bind_eq_ok.1 ok
  obtain ⟨_, _, done⟩ := Reading.bind_eq_ok.1 ok
  simp only [Reading.result_pure, Except.ok.injEq] at done
  subst done
  exact (guarded_suffix closed).trans (take_suffix opened)

theorem entrypoints_leaves (size : Nat) (ts : List Token) : Leaves (entrypoints size ts) ts := by
  intro rest ok
  obtain ⟨⟨brace, behind⟩, opened, ok⟩ := Reading.bind_eq_ok.1 ok
  obtain ⟨block, closed, ok⟩ := Reading.bind_eq_ok.1 ok
  obtain ⟨_, _, done⟩ := Reading.bind_eq_ok.1 ok
  simp only [Reading.result_pure, Except.ok.injEq] at done
  subst done
  exact (guarded_suffix closed).trans (take_suffix opened)

theorem goOn_suffix {scope scope' : Scope} {read : Reading (List Token)} {ts rest : List Token}
    (leaves : Leaves read ts) (ok : (goOn scope read).result = .ok (scope', rest)) :
    rest <:+ ts := by
  obtain ⟨left, done, same⟩ := Reading.bind_eq_ok.1 ok
  simp only [Reading.result_pure, Except.ok.injEq, Prod.mk.injEq] at same
  exact same.2 ▸ leaves left done

theorem enter_suffix {size : Nat} {scope scope' : Scope} {ts rest : List Token}
    (ok : (enter size scope ts).result = .ok (scope', rest)) : rest <:+ ts := by
  obtain ⟨⟨brace, left⟩, opened, same⟩ := Reading.bind_eq_ok.1 ok
  simp only [Reading.result_pure, Except.ok.injEq, Prod.mk.injEq] at same
  exact same.2 ▸ take_suffix opened

theorem step_suffix {size : Nat} {scope scope' : Scope} {t : Token} {ts rest : List Token}
    (ok : (step size scope t ts).result = .ok (scope', rest)) : rest <:+ ts := by
  unfold step at ok
  split at ok
  · simp at ok
  · cases scope with
    | top =>
      simp only [topStep] at ok
      split at ok
      · exact goOn_suffix (declare_leaves (name_leaves size ts)) ok
      · exact enter_suffix ok
      · exact goOn_suffix (declare_leaves (bindings_leaves size _ _ ts)) ok
      · exact goOn_suffix (declare_leaves (bindings_leaves size _ _ ts)) ok
      · exact enter_suffix ok
      · simp at ok
    | bindings =>
      simp only [bindingsStep] at ok
      split at ok
      · simp only [Reading.result_pure, Except.ok.injEq, Prod.mk.injEq] at ok
        exact ok.2 ▸ List.suffix_refl ts
      · exact goOn_suffix (uniforms_leaves size ts) ok
      · exact goOn_suffix (bindings_leaves size _ _ ts) ok
      · simp at ok
    | shader =>
      simp only [shaderStep] at ok
      split at ok
      · exact goOn_suffix (declare_leaves (code_leaves size _ ts)) ok
      · split at ok
        · simp only [Reading.result_pure, Except.ok.injEq, Prod.mk.injEq] at ok
          exact ok.2 ▸ List.suffix_refl ts
        · exact goOn_suffix (entrypoints_leaves size ts) ok
        · simp at ok

def walk (size : Nat) (scope : Scope) : List Token → Reading Unit
  | [] => finish size scope
  | t :: ts => (step size scope t ts).andThen fun next _ => walk size next.1 next.2
termination_by ts => ts.length
decreasing_by
  rename_i ok
  exact Nat.lt_succ_of_le (step_suffix ok).length_le

theorem walk_cons (size : Nat) (scope : Scope) (t : Token) (ts : List Token) :
    walk size scope (t :: ts) =
      step size scope t ts >>= fun next => walk size next.1 next.2 := by
  rw [walk]
  rfl

@[simp] theorem walk_nil (size : Nat) (scope : Scope) : walk size scope [] = finish size scope := by
  rw [walk]

def once (opened : List Item) : List Event → Reading Unit
  | [] => pure ()
  | event :: events =>
    match event with
    | .opens item index =>
      if item ∈ opened then .fail ⟨.alreadySet item.label, index⟩
      else do
        .emit event
        once (item :: opened) events
    | _ => do
      .emit event
      once opened events

def significant (ts : List Token) : List Token :=
  ts.filter fun t => !t.kind.isComment

/-- Reads the tokens of a source of `size` bytes. An item opened twice is reported before a fault
that comes after it. -/
def ofTokens (size : Nat) (ts : List Token) : Reading Unit := do
  let all := walk size .top (significant ts)
  once [] all.events
  .lift all.result

end Outline

end ShaderDef
