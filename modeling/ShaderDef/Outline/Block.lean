import ShaderDef.Fault

/-! Blocks: tokens up to the brace that closes a scope. Only braces count, and a scope ends at the
first closing brace that no opening brace within it matches. -/

namespace ShaderDef

def Token.Kind.nest (depth : Nat) : Kind → Nat
  | .leftBrace => depth + 1
  | .rightBrace => depth - 1
  | _ => depth

structure Block where
  body : List Token
  close : Token
  rest : List Token

namespace Block

def split (depth : Nat) : List Token → List Token × List Token
  | [] => ([], [])
  | t :: ts =>
    if t.kind = .rightBrace ∧ depth = 0 then ([], t :: ts)
    else
      let (body, rest) := split (t.kind.nest depth) ts
      (t :: body, rest)

def read (size : Nat) (ts : List Token) : Except Fault Block :=
  match split 0 ts with
  | (body, close :: rest) => .ok ⟨body, close, rest⟩
  | (_, []) => .error (.mismatch .rightBrace (.finish size))

def refuse (bad : Token.Kind → Bool) (b : Block) : Except Fault Block :=
  match b.body.find? fun t => bad t.kind with
  | some t => .error (.blame .invalid t)
  | none => .ok b

def declarations (size : Nat) (ts : List Token) : Except Fault Block :=
  read size ts >>= refuse Token.Kind.isInvalid

/-- A block of code may hold malformed strings, numbers and comments, but no foreign character. -/
def code (size : Nat) (ts : List Token) : Except Fault Block :=
  read size ts >>= refuse (· == .invalid)

theorem split_append (depth : Nat) (ts : List Token) :
    (split depth ts).1 ++ (split depth ts).2 = ts := by
  induction ts generalizing depth with
  | nil => rfl
  | cons t ts ih =>
    unfold split
    split
    · rfl
    · simp [ih]

theorem read_eq_ok {size : Nat} {ts : List Token} {b : Block} :
    read size ts = .ok b ↔ split 0 ts = (b.body, b.close :: b.rest) := by
  unfold read
  split
  · rename_i body close rest found
    rw [found]
    constructor
    · rintro ⟨rfl⟩
      rfl
    · intro same
      obtain ⟨⟩ := same
      rfl
  · rename_i body found
    simp [found]

theorem refuse_eq_ok {bad : Token.Kind → Bool} {b c : Block} :
    refuse bad b = .ok c ↔ b = c ∧ ∀ t ∈ b.body, bad t.kind = false := by
  unfold refuse
  split
  · rename_i t found
    have member := List.mem_of_find?_eq_some found
    have isBad := List.find?_some found
    constructor
    · intro wrong
      simp at wrong
    · rintro ⟨_, fine⟩
      simp [fine t member] at isBad
  · rename_i none
    rw [List.find?_eq_none] at none
    constructor
    · rintro ⟨rfl⟩
      exact ⟨rfl, by simpa using none⟩
    · rintro ⟨rfl, _⟩
      rfl

end Block

end ShaderDef
