import ShaderDef.Proofs.Grammar.Recognize

/-! Lists of bindings. Main statement: tokens are read as a list if and only if they are entries of
five with nothing left over, and the bindings are made of the texts of the entries; otherwise they
are refused for the first token of a kind that may not stand where it does in a whole entry, or, if
there is none, for the first of the tokens left over. -/

namespace ShaderDef

namespace Binding

def expected : Nat → Token.Kind
  | 2 => .colon
  | 4 => .semicolon
  | _ => .symbol

/-- At a place in an entry the kind that is asked for may stand, and for the slot also a number. -/
def Allowed (place : Nat) (kind : Token.Kind) : Prop :=
  kind = expected place ∨ place = 3 ∧ kind = .numberLiteral

instance (place : Nat) (kind : Token.Kind) : Decidable (Allowed place kind) :=
  inferInstanceAs (Decidable (_ ∨ _ ∧ _))

inductive Makes : List Token → Binding → Prop
  | intro {type name colon slot semicolon : Token} (typed : type.kind = .symbol)
      (named : name.kind = .symbol) (divided : colon.kind = .colon)
      (placed : slot.kind = .symbol ∨ slot.kind = .numberLiteral)
      (ended : semicolon.kind = .semicolon) :
      Makes [type, name, colon, slot, semicolon] ⟨type.text, name.text, slot.text⟩

structure Lists (ts : List Token) (bs : List Binding) : Prop where
  length : ts.length = 5 * bs.length
  entries : ∀ i b, bs[i]? = some b → Makes ((ts.drop (5 * i)).take 5) b

def whole (ts : List Token) : Nat :=
  5 * (ts.length / 5)

def Fine (ts : List Token) (k : Nat) : Prop :=
  ∀ j < k, ∀ t, ts[j]? = some t → Allowed (j % 5) t.kind

inductive Refused (label : String) (ts : List Token) : Diagnostic → Prop
  | kind {k : Nat} {t : Token} (here : ts[k]? = some t) (inside : k < whole ts)
      (wrong : ¬ Allowed (k % 5) t.kind) (first : Fine ts k) :
      Refused label ts ⟨.unexpectedToken,
        s!"Expected token {(expected (k % 5)).name} got: {t.kind.name}", t.index⟩
  | rest {t : Token} (here : ts[whole ts]? = some t) (fine : Fine ts (whole ts)) :
      Refused label ts ⟨.invalidSyntax, s!"Invalid syntax for '{label}'", t.index⟩

variable {label : String} {k : Nat} {ts entry rest : List Token} {t : Token} {b : Binding}
  {bs : List Binding} {f : Fault}

/-- Tokens that do not start with an entry's number of tokens are fewer than that. -/
theorem length_of_short (short : ∀ name colon slot semicolon rest,
    ts = name :: colon :: slot :: semicolon :: rest → False) : ts.length < 4 := by
  rcases ts with _ | ⟨name, _ | ⟨colon, _ | ⟨slot, _ | ⟨semicolon, rest⟩⟩⟩⟩
  iterate 4 simp
  exact (short _ _ _ _ _ rfl).elim

section Accepted

theorem makes_iff {type name colon slot semicolon : Token} :
    Makes [type, name, colon, slot, semicolon] b ↔
      ofTokens type name colon slot semicolon = .ok b := by
  constructor
  · rintro ⟨typed, named, divided, placed, ended⟩
    refine Except.bind_eq_ok.2 ⟨(), Token.require_eq_ok.2 typed, ?_⟩
    refine Except.bind_eq_ok.2 ⟨(), Token.require_eq_ok.2 named, ?_⟩
    refine Except.bind_eq_ok.2 ⟨(), Token.require_eq_ok.2 divided, ?_⟩
    refine Except.bind_eq_ok.2 ⟨(), Token.requireSlot_eq_ok.2 placed, ?_⟩
    exact Except.bind_eq_ok.2 ⟨(), Token.require_eq_ok.2 ended, rfl⟩
  · intro read
    obtain ⟨⟨typed, named, divided, placed, ended⟩, rfl⟩ := Outline.bound_of_ofTokens read
    exact .intro typed named divided placed ended

theorem lists_nil_iff : Lists [] bs ↔ bs = [] := by
  constructor
  · intro lists
    have length := lists.length
    rw [List.length_nil] at length
    exact List.length_eq_zero_iff.1 (by omega)
  · rintro rfl
    exact ⟨rfl, by simp⟩

/-- A list is an entry and a list behind it. -/
theorem lists_append_iff (five : entry.length = 5) :
    Lists (entry ++ rest) bs ↔
      ∃ b others, Makes entry b ∧ Lists rest others ∧ b :: others = bs := by
  have later : ∀ i, (entry ++ rest).drop (5 * (i + 1)) = rest.drop (5 * i) := by
    intro i
    rw [Nat.mul_succ, Nat.add_comm, ← five, List.drop_length_add_append]
  constructor
  · intro lists
    have length := lists.length
    rw [List.length_append, five] at length
    cases bs with
    | nil =>
      rw [List.length_nil] at length
      omega
    | cons b others =>
      rw [List.length_cons] at length
      refine ⟨b, others, ?_, ⟨by omega, fun i b here => ?_⟩, rfl⟩
      · have first := lists.entries 0 b rfl
        rwa [Nat.mul_zero, List.drop_zero, ← five, List.take_left] at first
      · rw [← later]
        exact lists.entries (i + 1) b here
  · rintro ⟨b, others, made, lists, rfl⟩
    refine ⟨?_, fun i c here => ?_⟩
    · rw [List.length_append, five, lists.length, List.length_cons, Nat.mul_succ, Nat.add_comm]
    · cases i with
      | zero =>
        obtain rfl : b = c := by simpa using here
        rwa [Nat.mul_zero, List.drop_zero, ← five, List.take_left]
      | succ i =>
        rw [later]
        exact lists.entries i c here

theorem listOfTokens_eq_ok : listOfTokens label ts = .ok bs ↔ Lists ts bs := by
  induction ts using listOfTokens.induct generalizing bs with
  | case1 type name colon slot semicolon rest ih =>
    have read : listOfTokens label (type :: name :: colon :: slot :: semicolon :: rest) = .ok bs ↔
        ∃ b others, ofTokens type name colon slot semicolon = .ok b ∧
          listOfTokens label rest = .ok others ∧ b :: others = bs := by
      rw [listOfTokens]
      simp only [Except.bind_eq_ok, pure, Except.pure, Except.ok.injEq, exists_and_left]
    rw [read]
    simp only [ih, ← makes_iff]
    have five : [type, name, colon, slot, semicolon].length = 5 := rfl
    exact (lists_append_iff five).symm
  | case2 => rw [listOfTokens, lists_nil_iff, Except.ok.injEq, eq_comm]
  | case3 t rest short =>
    have few := length_of_short short
    rw [listOfTokens]
    · constructor
      · intro stopped
        cases stopped
      · intro lists
        have length := lists.length
        rw [List.length_cons] at length
        omega
    · exact short

end Accepted

section Refused

def requireAt (k : Nat) (t : Token) : Except Fault Unit :=
  if k % 5 = 3 then t.requireSlot else t.require (expected (k % 5))

def requireAll (k : Nat) : List Token → Except Fault Unit
  | [] => .ok ()
  | t :: ts => do
    requireAt k t
    requireAll (k + 1) ts

def check (label : String) (ts : List Token) : Except Fault Unit := do
  requireAll 0 (ts.take (whole ts))
  match ts.drop (whole ts) with
  | [] => .ok ()
  | t :: _ => .error (.blame (.misaligned label) t)

theorem requireAt_eq (k : Nat) (t : Token) :
    requireAt k t =
      if Allowed (k % 5) t.kind then .ok () else .error (.mismatch (expected (k % 5)) t) := by
  unfold requireAt Token.requireSlot Token.require Allowed
  by_cases slot : k % 5 = 3
  · by_cases number : t.kind = .numberLiteral
    · simp [slot, number]
    · simp [slot, number, expected]
  · simp [slot]

theorem requireAll_add_five (k : Nat) (ts : List Token) :
    requireAll (k + 5) ts = requireAll k ts := by
  induction ts generalizing k with
  | nil => rfl
  | cons t ts ih =>
    have again : requireAt (k + 5) t = requireAt k t := by simp [requireAt]
    rw [requireAll, requireAll, again, Nat.add_right_comm, ih]

theorem requireAll_entry (type name colon slot semicolon : Token) (ts : List Token) :
    requireAll 0 (type :: name :: colon :: slot :: semicolon :: ts) =
      ofTokens type name colon slot semicolon >>= fun _ => requireAll 0 ts := by
  rw [← requireAll_add_five 0 ts]
  simp only [requireAll, ofTokens, bind_assoc, pure_bind]
  rfl

theorem check_entry (type name colon slot semicolon : Token) (rest : List Token) :
    check label (type :: name :: colon :: slot :: semicolon :: rest) =
      ofTokens type name colon slot semicolon >>= fun _ => check label rest := by
  have more : whole (type :: name :: colon :: slot :: semicolon :: rest) = whole rest + 5 := by
    simp only [whole, List.length_cons]
    omega
  unfold check
  simp only [more, List.take_succ_cons, List.drop_succ_cons, requireAll_entry, bind_assoc]

/-- A list is read if its tokens pass the check, and refused for the same fault otherwise. -/
theorem listOfTokens_check (label : String) (ts : List Token) :
    (listOfTokens label ts).map (fun _ => ()) = check label ts := by
  induction ts using listOfTokens.induct with
  | case1 type name colon slot semicolon rest ih =>
    rw [check_entry, ← ih, listOfTokens]
    cases ofTokens type name colon slot semicolon with
    | error fault => rfl
    | ok b => cases listOfTokens label rest <;> rfl
  | case2 => rfl
  | case3 t rest short =>
    have few := length_of_short short
    have none : whole (t :: rest) = 0 := by
      simp only [whole, List.length_cons]
      omega
    rw [listOfTokens, check, none]
    · rfl
    · exact short

def misplaced (s : Token × Nat) : Bool :=
  !decide (Allowed (s.2 % 5) s.1.kind)

theorem requireAll_eq (k : Nat) (ts : List Token) :
    requireAll k ts =
      match (ts.zipIdx k).find? misplaced with
      | none => .ok ()
      | some s => .error (.mismatch (expected (s.2 % 5)) s.1) := by
  induction ts generalizing k with
  | nil => rfl
  | cons t ts ih =>
    rw [requireAll, requireAt_eq, List.zipIdx_cons, List.find?_cons]
    by_cases allowed : Allowed (k % 5) t.kind
    · simp only [misplaced, allowed, if_true, decide_true, Bool.not_true]
      exact ih (k + 1)
    · simp only [misplaced, allowed, if_false, decide_false, Bool.not_false]
      rfl

variable {n : Nat}

theorem find_misplaced_eq_none : (ts.take n).zipIdx.find? misplaced = none ↔ Fine ts n := by
  rw [List.find?_eq_none]
  constructor
  · intro none k before t here
    have listed : (t, k) ∈ (ts.take n).zipIdx := by
      rw [List.mem_zipIdx_iff_getElem?, List.getElem?_take_of_lt before, here]
    simpa [misplaced] using none _ listed
  · rintro fine ⟨t, k⟩ listed
    rw [List.mem_zipIdx_iff_getElem?, List.getElem?_take] at listed
    split at listed
    · rename_i before
      simpa [misplaced] using fine k before t listed
    · simp at listed

theorem find_misplaced_eq_some : (ts.take n).zipIdx.find? misplaced = some (t, k) ↔
    ts[k]? = some t ∧ k < n ∧ ¬ Allowed (k % 5) t.kind ∧ Fine ts k := by
  rw [List.find?_eq_some_iff_getElem]
  constructor
  · rintro ⟨wrong, i, inside, here, first⟩
    rw [List.getElem_zipIdx, Nat.zero_add, List.getElem_take, Prod.mk.injEq] at here
    obtain ⟨rfl, rfl⟩ := here
    rw [List.length_zipIdx, List.length_take] at inside
    refine ⟨List.getElem?_eq_getElem _, by omega, by simpa [misplaced] using wrong, ?_⟩
    intro j before s there
    obtain ⟨_, rfl⟩ := List.getElem?_eq_some_iff.1 there
    simpa [misplaced] using first j before
  · rintro ⟨here, before, wrong, fine⟩
    obtain ⟨inside, rfl⟩ := List.getElem?_eq_some_iff.1 here
    have bound : k < (ts.take n).zipIdx.length := by
      rw [List.length_zipIdx, List.length_take]
      omega
    refine ⟨by simpa [misplaced] using wrong, k, bound, by simp, fun j earlier => ?_⟩
    have allowed := fine j earlier _ (List.getElem?_eq_getElem (Nat.lt_trans earlier inside))
    simpa [misplaced] using allowed

theorem requireAll_take_eq_ok : requireAll 0 (ts.take n) = .ok () ↔ Fine ts n := by
  rw [requireAll_eq, ← find_misplaced_eq_none]
  cases (ts.take n).zipIdx.find? misplaced <;> simp

theorem requireAll_take_eq_error : requireAll 0 (ts.take n) = .error f ↔
    ∃ k t, (ts[k]? = some t ∧ k < n ∧ ¬ Allowed (k % 5) t.kind ∧ Fine ts k) ∧
      f = .mismatch (expected (k % 5)) t := by
  simp only [requireAll_eq, ← find_misplaced_eq_some]
  cases (ts.take n).zipIdx.find? misplaced with
  | none => simp
  | some s =>
    constructor
    · rintro ⟨rfl⟩
      exact ⟨s.2, s.1, rfl, rfl⟩
    · rintro ⟨k, t, ⟨rfl⟩, rfl⟩
      rfl

theorem check_eq_error : check label ts = .error f ↔
    (∃ k t, (ts[k]? = some t ∧ k < whole ts ∧ ¬ Allowed (k % 5) t.kind ∧ Fine ts k) ∧
      f = .mismatch (expected (k % 5)) t) ∨
    ∃ t, (ts[whole ts]? = some t ∧ Fine ts (whole ts)) ∧ f = .blame (.misaligned label) t := by
  rw [check, Except.bind_eq_error, requireAll_take_eq_error]
  refine or_congr_right ⟨?_, ?_⟩
  · rintro ⟨_, fine, stopped⟩
    split at stopped
    · cases stopped
    · rename_i t others left
      obtain rfl := Except.error.inj stopped
      rw [← List.head?_drop, left]
      exact ⟨t, ⟨rfl, requireAll_take_eq_ok.1 fine⟩, rfl⟩
  · rintro ⟨t, ⟨here, fine⟩, rfl⟩
    refine ⟨(), requireAll_take_eq_ok.2 fine, ?_⟩
    rw [← List.head?_drop] at here
    split
    · rename_i none
      simp [none] at here
    · rename_i s others left
      obtain rfl : s = t := by simpa [left] using here
      rfl

theorem listOfTokens_eq_error :
    listOfTokens label ts = .error f ↔ check label ts = .error f := by
  rw [← listOfTokens_check]
  cases listOfTokens label ts <;> simp [Except.map]

end Refused

/-- A list of tokens is read or refused, and what it makes or why it is refused is said by its
tokens alone. -/
theorem listOfTokens_exact (label : String) (ts : List Token) :
    (∀ bs, listOfTokens label ts = .ok bs ↔ Lists ts bs) ∧
      ∀ d, (∃ f, listOfTokens label ts = .error f ∧ f.diagnostic = d) ↔ Refused label ts d := by
  refine ⟨fun bs => listOfTokens_eq_ok, fun d => ?_⟩
  simp only [listOfTokens_eq_error, check_eq_error]
  constructor
  · rintro ⟨f, ⟨k, t, ⟨here, inside, wrong, first⟩, rfl⟩ | ⟨t, ⟨here, fine⟩, rfl⟩, rfl⟩
    · exact .kind here inside wrong first
    · exact .rest here fine
  · rintro (⟨here, inside, wrong, first⟩ | ⟨here, fine⟩)
    · exact ⟨_, .inl ⟨_, _, ⟨here, inside, wrong, first⟩, rfl⟩, rfl⟩
    · exact ⟨_, .inr ⟨_, ⟨here, fine⟩, rfl⟩, rfl⟩

end Binding

end ShaderDef
