import ShaderDef.Proofs.Assign
import ShaderDef.Proofs.OnePass.Slice

/-! The compiler that reads a source once. It asks a cursor for one token after the other, keeps
what it has declared so far, and checks each slice of the source and each scope that it closes.
Loops end because every token but the last leaves less of the source. -/

namespace ShaderDef

inductive Halt where
  | fault (fault : Fault)
  | breach (breach : Breach)
deriving DecidableEq, Repr

/-- The state of a run: where its cursor is, the tokens it has been given so far, the definition as
far as it goes, and which of the sections that may be empty have been begun. -/
structure Pass where
  cursor : Cursor
  received : List Token := []
  definition : Definition := {}
  input : Bool := false
  pixelInput : Bool := false

/-- Whether a definition shows that an item has been declared. A list of inputs does not, since it
may be empty. -/
def Definition.shows (d : Definition) : Item → Bool
  | .name => d.interface.name.isSome
  | .input | .pixelInput => false
  | .code stage => (d.sources.code stage).isSome
  | .entry point => (d.interface.entry point).isSome

namespace Pass

/-- Whether there is a section of an item already. A section that may be empty is marked when it
is begun. -/
def isSet (p : Pass) : Item → Bool
  | .input => p.input
  | .pixelInput => p.pixelInput
  | item => p.definition.shows item

def begin (p : Pass) : Item → Pass
  | .input => { p with input := true }
  | .pixelInput => { p with pixelInput := true }
  | _ => p

end Pass

structure Pull (α : Type) where
  run : Pass → Except Halt α × Pass
  onward : ∀ p, (run p).2.cursor.rest.length ≤ p.cursor.rest.length

namespace Pull

variable {α β σ : Type}

def andThen (f : Pull α) (next : α → Pull β) : Pull β where
  run p :=
    match f.run p with
    | (.ok a, q) => (next a).run q
    | (.error halt, q) => (.error halt, q)
  onward p := by
    have first := f.onward p
    split
    · rename_i a q ran
      rw [ran] at first
      exact Nat.le_trans ((next a).onward q) first
    · rename_i halt q ran
      rw [ran] at first
      exact first

instance : Monad Pull where
  pure a := ⟨fun p => (.ok a, p), fun _ => Nat.le_refl _⟩
  bind := andThen

theorem run_bind_of_ok {f : Pull α} {p q : Pass} {a : α} (next : α → Pull β)
    (ran : f.run p = (.ok a, q)) : (f >>= next).run p = (next a).run q := by
  change (f.andThen next).run p = _
  simp only [andThen, ran]

theorem run_bind_of_error {f : Pull α} {p q : Pass} {halt : Halt} (next : α → Pull β)
    (ran : f.run p = (.error halt, q)) : (f >>= next).run p = (.error halt, q) := by
  change (f.andThen next).run p = _
  simp only [andThen, ran]

def halt (halt : Halt) : Pull α :=
  ⟨fun p => (.error halt, p), fun _ => Nat.le_refl _⟩

def lift (result : Except Fault α) : Pull α :=
  ⟨fun p => (result.mapError .fault, p), fun _ => Nat.le_refl _⟩

def check (result : Except Breach α) : Pull α :=
  ⟨fun p => (result.mapError .breach, p), fun _ => Nat.le_refl _⟩

def fail (fault : Fault) : Pull α :=
  halt (.fault fault)

def next (source : String) : Pull Token where
  run p :=
    match p.cursor.next? source with
    | .ok (t, cursor) => (.ok t, { p with cursor, received := p.received ++ [t] })
    | .error breach => (.error (.breach breach), p)
  onward p := by
    split
    · rename_i t cursor given
      obtain ⟨_, rfl⟩ := Cursor.next_of_next? given
      obtain ⟨piece, rest, _⟩ := p.cursor.next_takes
      simp [rest]
    · exact Nat.le_refl _

theorem next_shorter {source : String} {p q : Pass} {t : Token}
    (given : (next source).run p = (.ok t, q)) (more : t.isEnd = false) :
    q.cursor.rest.length < p.cursor.rest.length := by
  simp only [next] at given
  split at given
  · rename_i s cursor found
    obtain ⟨same, rfl⟩ := Cursor.next_of_next? found
    obtain ⟨⟨rfl⟩, rfl⟩ := Prod.mk.inj given
    refine Cursor.next_shorter ?_
    rwa [Token.isEnd, ← same]
  · cases (Prod.mk.inj given).1

section Loops

variable (source : String) (turn : σ → Token → Pull (σ ⊕ α)) (last : σ → Token → Except Fault α)

/-- A turn of a loop takes a token and goes on or ends the loop. At the end of the source the loop
ends, and no other token is asked for. -/
def turnOf (state : σ) : Pull (σ ⊕ α) := do
  let t ← next source
  if t.isEnd then lift ((last state t).map .inr) else turn state t

variable {source turn last}

theorem turnOf_shorter {state later : σ} {p r : Pass}
    (ran : (turnOf source turn last state).run p = (.ok (.inl later), r)) :
    r.cursor.rest.length < p.cursor.rest.length := by
  rw [turnOf] at ran
  cases given : (next source).run p with
  | mk outcome q =>
    cases outcome with
    | error halt =>
      rw [run_bind_of_error _ given] at ran
      cases ran
    | ok t =>
      rw [run_bind_of_ok _ given] at ran
      split at ran
      · cases ended : last state t <;> simp [lift, ended, Except.map, Except.mapError] at ran
      · rename_i more
        have onward := (turn state t).onward q
        rw [ran] at onward
        exact Nat.lt_of_le_of_lt onward (next_shorter given (by simpa using more))

variable (source turn last)

def loopFrom (state : σ) (p : Pass) : Except Halt α × Pass :=
  match ran : (turnOf source turn last state).run p with
  | (.ok (.inl later), q) =>
    have := turnOf_shorter ran
    loopFrom later q
  | (.ok (.inr a), q) => (.ok a, q)
  | (.error halt, q) => (.error halt, q)
termination_by p.cursor.rest.length

theorem loopFrom_eq (state : σ) (p : Pass) :
    loopFrom source turn last state p =
      match (turnOf source turn last state).run p with
      | (.ok (.inl later), q) => loopFrom source turn last later q
      | (.ok (.inr a), q) => (.ok a, q)
      | (.error halt, q) => (.error halt, q) := by
  rw [loopFrom]
  split <;> simp_all

theorem loopFrom_onward (state : σ) (p : Pass) :
    (loopFrom source turn last state p).2.cursor.rest.length ≤ p.cursor.rest.length := by
  induction length : p.cursor.rest.length using Nat.strongRecOn generalizing state p with
  | _ n ih =>
    have onward := (turnOf source turn last state).onward p
    rw [loopFrom_eq]
    split
    · rename_i later q ran
      have shorter := turnOf_shorter ran
      exact Nat.le_trans (ih _ (length ▸ shorter) later q rfl) (length ▸ shorter.le)
    · rename_i a q ran
      rwa [ran, length] at onward
    · rename_i halt q ran
      rwa [ran, length] at onward

def loop (state : σ) : Pull α :=
  ⟨loopFrom source turn last state, loopFrom_onward source turn last state⟩

end Loops

section Tokens

variable (source : String)

def significant : Pull Token :=
  loop source (fun _ t => return if t.kind.isComment then .inl () else .inr t)
    (fun _ t => .ok t) ()

def expect (kind : Token.Kind) : Pull Token := do
  let t ← significant source
  lift (t.require kind)
  return t

def closeOne : Nat → Except Breach Nat
  | 0 => .error .nesting
  | nesting + 1 => .ok nesting

def scopeTurn : List Token × Nat → Token → Pull ((List Token × Nat) ⊕ List Token)
  | (tokens, nesting), t =>
    match t.kind with
    | .leftBrace => return .inl (tokens ++ [t], nesting + 1)
    | .rightBrace =>
      if nesting = 0 then return .inr (tokens ++ [t])
      else do
        let nesting ← check (closeOne nesting)
        return .inl (tokens ++ [t], nesting)
    | _ => return .inl (tokens ++ [t], nesting)

def scopeLast : List Token × Nat → Token → Except Fault (List Token)
  | (tokens, _), t => .ok (tokens ++ [t])

def scope : Pull (List Token) :=
  loop source scopeTurn scopeLast ([], 0)

def closedScope : Pull (List Token × Token) := do
  let tokens ← scope source
  match tokens.getLast? with
  | some last =>
    if last.kind = .rightBrace then return (tokens.dropLast, last)
    else fail (.mismatch .rightBrace last)
  | none => halt (.breach .emptyScope)

def refuse (bad : Token.Kind → Bool) (body : List Token) : Pull Unit :=
  match body.find? fun t => bad t.kind with
  | some t => fail (.blame .invalid t)
  | none => return

def structuredScope : Pull (List Token × Token) := do
  let (body, close) ← closedScope source
  refuse Token.Kind.isInvalid body
  return (body.filter fun t => !t.kind.isComment, close)

def rawScope (opening : Token) : Pull String := do
  let (body, close) ← closedScope source
  refuse (· == .invalid) body
  check (Breach.slice? source (opening.index + 1) close.index)

end Tokens

section Sections

variable (source : String)

def start (item : Item) (t : Token) : Pull Unit where
  run p :=
    if p.isSet item then (.error (.fault ⟨.alreadySet item.label, t.index⟩), p)
    else (.ok (), p.begin item)
  onward p := by
    split
    · exact Nat.le_refl _
    · cases item <;> exact Nat.le_refl _

def write (change : Definition → Definition) : Pull Unit :=
  ⟨fun p => (.ok (), { p with definition := change p.definition }), fun _ => Nat.le_refl _⟩

def name (t : Token) : Pull Unit := do
  start .name t
  let text ← expect source .stringLiteral
  let _ ← expect source .semicolon
  write (·.assign source (.name text.text))

def bindings (label : String) (event : List Binding → Event) : Pull Unit := do
  let _ ← expect source .leftBrace
  let (body, _) ← structuredScope source
  let list ← lift (Binding.listOfTokens label body)
  write (·.assign source (event list))

def uniforms : Pull Unit := do
  let buffer ← expect source .stringLiteral
  bindings source "Uniforms" fun list => .uniforms ⟨buffer.text, list⟩

def inputs (item : Item) (event : List Binding → Event) (t : Token) : Pull Unit := do
  start item t
  bindings source item.label event

def code (stage : Stage) (t : Token) : Pull Unit := do
  start (.code stage) t
  let opening ← expect source .leftBrace
  let text ← rawScope source opening
  write (·.withCode stage text)

/-- Entry points, each a keyword, a string and a semicolon. The closing brace of the scope stands
for a token that is missing. -/
def entries (close : Token) : List Token → Pull Unit
  | [] => return
  | t :: ts =>
    match Entry.ofKeyword? t.kind with
    | none => fail (.blame (.unknownIn "Entrypoint") t)
    | some point => do
      start (.entry point) t
      let text := ts.headD close
      lift (text.require .stringLiteral)
      lift ((ts.tail.headD close).require .semicolon)
      write (·.assign source (.entry point text.text))
      entries close ts.tail.tail
termination_by ts => ts.length

def entrypoints : Pull Unit := do
  let _ ← expect source .leftBrace
  let (body, close) ← structuredScope source
  entries source close body

def bindingsPart (t : Token) : Pull Unit :=
  match t.kind with
  | .uniformsKeyword => uniforms source
  | .texturesKeyword => bindings source "Textures" .textures
  | _ => fail (.blame (.unknownIn "Bindings") t)

def shaderPart (t : Token) : Pull Unit :=
  match Stage.ofKeyword? t.kind with
  | some stage => code source stage t
  | none =>
    match t.kind with
    | .entrypointKeyword => entrypoints source
    | _ => fail (.blame (.unknownIn "Shader") t)

def ended : Scope → Token → Except Fault Unit
  | .top, _ => .ok ()
  | .bindings, t => .error (.blame .unterminated t)
  | .shader, t => .error (.mismatch .rightBrace t)

def parts (scope : Scope) (part : Token → Pull Unit) : Pull Unit :=
  loop source
    (fun _ t =>
      if t.kind.isComment then return .inl ()
      else if t.kind.isInvalid then fail (.blame .invalid t)
      else if t.kind = .rightBrace ∧ scope ≠ .top then return .inr ()
      else do
        part t
        return .inl ())
    (fun _ t => ended scope t) ()

def topPart (t : Token) : Pull Unit :=
  match t.kind with
  | .nameKeyword => name source t
  | .bindingsKeyword => do
    let _ ← expect source .leftBrace
    parts source .bindings (bindingsPart source)
  | .inputKeyword => inputs source .input .input t
  | .pixelInputKeyword => inputs source .pixelInput .pixelInput t
  | .shaderKeyword => do
    let _ ← expect source .leftBrace
    parts source .shader (shaderPart source)
  | _ => fail (.blame .unknown t)

end Sections

end Pull

def onePass (source : String) : Except Halt Definition × Pass :=
  let (result, p) :=
    (Pull.parts source .top (Pull.topPart source)).run { cursor := .start source }
  (result.map fun _ => p.definition, p)

end ShaderDef
