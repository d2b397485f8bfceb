import Mathlib.Data.List.Induction
import ShaderDef.Outline.Block
import ShaderDef.Proofs.Grammar.Derivation

/-! Balanced braces. A block ends at the brace that closes it exactly if the braces before that one
are balanced, and what the block lacks in comments changes nothing of it. -/

namespace ShaderDef

open Grammar

theorem Token.Kind.nest_other {kind : Kind} (depth : Nat) (left : kind ≠ .leftBrace)
    (right : kind ≠ .rightBrace) : kind.nest depth = depth := by
  unfold nest
  split
  · exact absurd rfl left
  · exact absurd rfl right
  · rfl

namespace Grammar

/-- Tokens that close `depth` scopes more than they open, and never one more than that. -/
structure Nested (depth : Nat) (ts : List Token) : Prop where
  nested : ∀ front, front <+: ts → closings front ≤ openings front + depth
  closed : closings ts = openings ts + depth

theorem balanced_iff {ts : List Token} : Balanced ts ↔ Nested 0 ts :=
  ⟨fun h => ⟨h.nested, h.closed⟩, fun h => ⟨h.nested, h.closed⟩⟩

theorem closings_cons (t : Token) (ts : List Token) :
    closings (t :: ts) = closings ts + if t.kind = .rightBrace then 1 else 0 := by
  simp [closings, List.countP_cons]

theorem openings_cons (t : Token) (ts : List Token) :
    openings (t :: ts) = openings ts + if t.kind = .leftBrace then 1 else 0 := by
  simp [openings, List.countP_cons]

theorem nested_nil {depth : Nat} : Nested depth [] ↔ depth = 0 := by
  constructor
  · intro nested
    simpa [openings, closings] using nested.closed.symm
  · intro same
    subst same
    exact ⟨fun front within => by simp [List.prefix_nil.1 within, closings, openings], rfl⟩

/-- Opening and closing braces move the depth, and nothing else does. -/
theorem nested_cons {depth : Nat} {t : Token} {ts : List Token} :
    Nested depth (t :: ts) ↔
      ¬ (t.kind = .rightBrace ∧ depth = 0) ∧ Nested (t.kind.nest depth) ts := by
  have counted : ∀ front, ¬ (t.kind = .rightBrace ∧ depth = 0) →
      (closings (t :: front) ≤ openings (t :: front) + depth ↔
        closings front ≤ openings front + t.kind.nest depth) ∧
      (closings (t :: front) = openings (t :: front) + depth ↔
        closings front = openings front + t.kind.nest depth) := by
    intro front allowed
    rw [closings_cons, openings_cons]
    by_cases left : t.kind = .leftBrace
    · simp only [left, Token.Kind.nest, reduceCtorEq, if_true, if_false]
      omega
    · by_cases right : t.kind = .rightBrace
      · have positive : depth ≠ 0 := fun none => allowed ⟨right, none⟩
        simp only [right, Token.Kind.nest, reduceCtorEq, if_true, if_false]
        omega
      · simp [left, right, Token.Kind.nest_other]
  constructor
  · intro nested
    have allowed : ¬ (t.kind = .rightBrace ∧ depth = 0) := by
      intro both
      obtain ⟨right, rfl⟩ := both
      have first := nested.nested [t] (by simp)
      simp [closings, openings, right] at first
    refine ⟨allowed, fun front within => ?_, ((counted ts allowed).2).1 nested.closed⟩
    exact (counted front allowed).1.1 (nested.nested _ ((List.prefix_cons_inj t).2 within))
  · intro both
    obtain ⟨allowed, nested⟩ := both
    refine ⟨fun front within => ?_, (counted ts allowed).2.2 nested.closed⟩
    rcases List.prefix_cons_iff.1 within with rfl | ⟨inner, rfl, inside⟩
    · simp [closings]
    · exact (counted inner allowed).1.2 (nested.nested inner inside)

theorem closings_append (ts us : List Token) :
    closings (ts ++ us) = closings ts + closings us :=
  List.countP_append

theorem openings_append (ts us : List Token) :
    openings (ts ++ us) = openings ts + openings us :=
  List.countP_append

theorem closings_singleton (t : Token) :
    closings [t] = if t.kind = .rightBrace then 1 else 0 := by
  rw [closings_cons]
  exact Nat.zero_add _

theorem openings_singleton (t : Token) :
    openings [t] = if t.kind = .leftBrace then 1 else 0 := by
  rw [openings_cons]
  exact Nat.zero_add _

/-- A closing brace behind these tokens is matched by an opening one among them: what stands
between the two is balanced. -/
def Matched (ts : List Token) : Prop :=
  ∃ front brace inner, ts = front ++ brace :: inner ∧ brace.kind = .leftBrace ∧ Balanced inner

structure FirstUnmatched (body : List Token) (close : Token) : Prop where
  closed : close.kind = .rightBrace
  unmatched : ¬ Matched body
  first : ∀ front t rest, body = front ++ t :: rest → t.kind = .rightBrace → Matched front

/-- If more braces are open than what follows closes, the one which that leaves open is found by
going back from there. -/
theorem exists_brace_of_open {depth : Nat} {ts inner : List Token} (nested : Nested depth inner)
    (more : closings ts + depth < openings ts) :
    ∃ front brace mid, ts = front ++ brace :: mid ∧ brace.kind = .leftBrace ∧
      Balanced (mid ++ inner) := by
  induction ts using List.reverseRecOn generalizing depth inner with
  | nil => simp [openings] at more
  | append_singleton ts t ih =>
    rw [closings_append, openings_append, closings_singleton, openings_singleton] at more
    -- Going back over the token moves the depth the other way.
    have back : ∀ depth', Nested depth' (t :: inner) → closings ts + depth' < openings ts →
        ∃ front brace mid, ts ++ [t] = front ++ brace :: mid ∧ brace.kind = .leftBrace ∧
          Balanced (mid ++ inner) := by
      intro depth' within fewer
      obtain ⟨front, brace, mid, rfl, opened, balanced⟩ := ih within fewer
      exact ⟨front, brace, mid ++ [t], by simp, opened, by simpa using balanced⟩
    by_cases left : t.kind = .leftBrace
    · cases depth with
      | zero => exact ⟨ts, t, [], rfl, left, balanced_iff.2 nested⟩
      | succ depth =>
        refine back depth (nested_cons.2 ⟨by simp [left], ?_⟩) ?_
        · rwa [left]
        · simp only [left, reduceCtorEq, if_true, if_false] at more
          omega
    · by_cases right : t.kind = .rightBrace
      · refine back (depth + 1) (nested_cons.2 ⟨by simp, ?_⟩) ?_
        · rwa [right]
        · simp only [right, reduceCtorEq, if_true, if_false] at more
          omega
      · refine back depth (nested_cons.2 ⟨by simp [right], ?_⟩) ?_
        · rwa [Token.Kind.nest_other depth left right]
        · simpa only [left, right, if_false, Nat.add_zero] using more

/-- A closing brace within balanced tokens is matched, and one behind them is not. -/
theorem Balanced.firstUnmatched {body : List Token} {close : Token} (balanced : Balanced body)
    (closed : close.kind = .rightBrace) : FirstUnmatched body close where
  closed := closed
  unmatched := by
    intro matched
    obtain ⟨front, brace, inner, rfl, opened, within⟩ := matched
    have before := balanced.nested front (List.prefix_append _ _)
    have whole := balanced.closed
    rw [closings_append, openings_append, closings_cons, openings_cons, within.closed] at whole
    simp only [opened, reduceCtorEq, if_true, if_false] at whole
    omega
  first := by
    intro front t rest split right
    have here := balanced.nested (front ++ [t]) ⟨rest, by rw [split]; simp⟩
    rw [closings_append, openings_append, closings_singleton, openings_singleton] at here
    have more : closings front + 0 < openings front := by
      simp only [right, reduceCtorEq, if_true, if_false] at here
      omega
    obtain ⟨before, brace, mid, rfl, opened, inner⟩ :=
      exists_brace_of_open (nested_nil.2 rfl) more
    exact ⟨before, brace, mid, rfl, opened, by simpa using inner⟩

end Grammar

namespace Block

theorem split_of_nested {depth : Nat} {body : List Token} {close : Token} (rest : List Token)
    (nested : Nested depth body) (closed : close.kind = .rightBrace) :
    split depth (body ++ close :: rest) = (body, close :: rest) := by
  induction body generalizing depth with
  | nil =>
    rw [List.nil_append, split, if_pos ⟨closed, nested_nil.1 nested⟩]
  | cons t body ih =>
    obtain ⟨allowed, nested⟩ := nested_cons.1 nested
    rw [List.cons_append, split, if_neg allowed, ih nested]

theorem nested_of_split {depth : Nat} {ts body rest : List Token} {close : Token}
    (found : split depth ts = (body, close :: rest)) :
    Nested depth body ∧ close.kind = .rightBrace := by
  induction ts generalizing depth body with
  | nil => simp [split] at found
  | cons t ts ih =>
    unfold split at found
    split at found
    · rename_i here
      obtain ⟨rfl, rfl, rfl⟩ := by simpa using found
      exact ⟨nested_nil.2 here.2, here.1⟩
    · rename_i inside
      obtain ⟨rfl, behind⟩ := Prod.mk.inj found
      obtain ⟨nested, closed⟩ := ih (Prod.ext rfl behind)
      exact ⟨nested_cons.2 ⟨inside, nested⟩, closed⟩

/-- The end of a block does not depend on the comments in it. -/
theorem split_filter (depth : Nat) (ts : List Token) :
    split depth (ts.filter fun t => !t.kind.isComment) =
      ((split depth ts).1.filter fun t => !t.kind.isComment,
        (split depth ts).2.filter fun t => !t.kind.isComment) := by
  induction ts generalizing depth with
  | nil => rfl
  | cons t ts ih =>
    cases comment : t.kind.isComment with
    | true =>
      have left : t.kind ≠ .leftBrace := fun same => by simp [same, Token.Kind.isComment] at comment
      have right : t.kind ≠ .rightBrace := fun same => by
        simp [same, Token.Kind.isComment] at comment
      simp [split, comment, left, right, Token.Kind.nest_other, ih]
    | false =>
      rw [List.filter_cons_of_pos (by simp [comment]), split, split]
      split
      · rw [List.filter_nil, List.filter_cons_of_pos (by simp [comment])]
      · rw [ih, List.filter_cons_of_pos (by simp [comment])]

theorem nested_filter {depth : Nat} {ts : List Token} (nested : Nested depth ts) :
    Nested depth (ts.filter fun t => !t.kind.isComment) := by
  have found := split_filter depth (ts ++ [⟨.rightBrace, 0, ""⟩])
  rw [split_of_nested [] nested rfl, List.filter_append] at found
  exact (nested_of_split found).1

end Block

end ShaderDef
