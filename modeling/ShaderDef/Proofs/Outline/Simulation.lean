import ShaderDef.Outline.Scope
import ShaderDef.Proofs.Outline.Alike

/-! Alike tokens are read alike: each reader decides by kinds and texts alone and passes places on.
The lemmas follow the readers from single tokens over blocks and sections to a step of the walk. -/

namespace ShaderDef

open List (Forall₂)

variable {R : Nat → Nat → Prop} {size size' : Nat}

namespace Fault

variable {s t : Token}

theorem blame_alike (cause : Cause) (alike : s.Alike R t) :
    (blame cause s).Alike R (blame cause t) :=
  ⟨rfl, alike.place⟩

theorem mismatch_alike (expected : Token.Kind) (alike : s.Alike R t) :
    (mismatch expected s).Alike R (mismatch expected t) :=
  ⟨by simp only [mismatch, blame, alike.kind], alike.place⟩

end Fault

theorem Token.finish_alike (same : R size size') : (finish size).Alike R (finish size') :=
  ⟨rfl, fun _ => rfl, same⟩

namespace Token

variable {s t : Token} {ss ts : List Token}

theorem require_alike (expected : Kind) (valid : expected.isInvalid = false)
    (alike : s.Alike R t) :
    Result.Alike R (fun _ _ => s.text = t.text) (s.require expected) (t.require expected) := by
  unfold require
  rw [alike.kind]
  split
  · rename_i met
    exact .ok (alike.text (by rw [alike.kind, met, valid]))
  · exact .error (Fault.mismatch_alike expected alike)

theorem requireSlot_alike (alike : s.Alike R t) :
    Result.Alike R (fun _ _ => s.text = t.text) s.requireSlot t.requireSlot := by
  unfold requireSlot
  rw [alike.kind]
  split
  · rename_i met
    exact .ok (alike.text (by rw [alike.kind, met]; rfl))
  · exact require_alike .symbol rfl alike

theorem headD_alike (alike : Forall₂ (Token.Alike R) ss ts) (other : s.Alike R t) :
    (ss.headD s).Alike R (ts.headD t) := by
  cases alike with
  | nil => exact other
  | cons head _ => exact head

theorem tail_alike (alike : Forall₂ (Token.Alike R) ss ts) :
    Forall₂ (Token.Alike R) ss.tail ts.tail := by
  cases alike with
  | nil => exact .nil
  | cons _ tail => exact tail

end Token

structure Block.Alike (R : Nat → Nat → Prop) (b c : Block) : Prop where
  body : Forall₂ (Token.Alike R) b.body c.body
  close : b.close.Alike R c.close
  rest : Forall₂ (Token.Alike R) b.rest c.rest

namespace Block

/-- Either both splits find a closing brace or neither does. -/
theorem split_alike {ss ts : List Token} (alike : Forall₂ (Token.Alike R) ss ts) (depth : Nat) :
    Forall₂ (Token.Alike R) (split depth ss).1 (split depth ts).1 ∧
      Forall₂ (Token.Alike R) (split depth ss).2 (split depth ts).2 := by
  induction alike generalizing depth with
  | nil => exact ⟨.nil, .nil⟩
  | @cons s t ss ts head tail ih =>
    unfold split
    rw [head.kind]
    split
    · exact ⟨.nil, .cons head tail⟩
    · exact ⟨.cons head (ih _).1, (ih _).2⟩

theorem read_alike (ends : R size size') {ss ts : List Token}
    (alike : Forall₂ (Token.Alike R) ss ts) :
    Result.Alike R (Block.Alike R) (read size ss) (read size' ts) := by
  obtain ⟨body, rest⟩ := split_alike alike 0
  unfold read
  generalize split 0 ss = p at body rest
  generalize split 0 ts = q at body rest
  obtain ⟨front, behind⟩ := p
  obtain ⟨front', behind'⟩ := q
  cases rest with
  | nil => exact .error (Fault.mismatch_alike _ (Token.finish_alike ends))
  | cons close rest => exact .ok ⟨body, close, rest⟩

theorem find_alike (bad : Token.Kind → Bool) {ss ts : List Token}
    (alike : Forall₂ (Token.Alike R) ss ts) :
    (∃ s t, ss.find? (fun t => bad t.kind) = some s ∧ ts.find? (fun t => bad t.kind) = some t ∧
      s.Alike R t) ∨
    ss.find? (fun t => bad t.kind) = none ∧ ts.find? (fun t => bad t.kind) = none := by
  induction alike with
  | nil => exact .inr ⟨rfl, rfl⟩
  | @cons s t ss ts head tail ih =>
    rw [List.find?_cons, List.find?_cons, head.kind]
    cases bad t.kind with
    | true => exact .inl ⟨s, t, rfl, rfl, head⟩
    | false => exact ih

theorem refuse_alike (bad : Token.Kind → Bool) {b c : Block} (alike : b.Alike R c) :
    Result.Alike R (Block.Alike R) (refuse bad b) (refuse bad c) := by
  unfold refuse
  rcases find_alike bad alike.body with ⟨s, t, found, found', same⟩ | ⟨none, none'⟩
  · rw [found, found']
    exact .error (Fault.blame_alike _ same)
  · rw [none, none']
    exact .ok alike

theorem guarded_alike (bad : Token.Kind → Bool) (ends : R size size')
    {ss ts : List Token} (alike : Forall₂ (Token.Alike R) ss ts) :
    Result.Alike R (Block.Alike R) (read size ss >>= refuse bad)
      (read size' ts >>= refuse bad) :=
  (read_alike ends alike).bind fun _ _ same => refuse_alike bad same

end Block

namespace Binding

theorem ofTokens_alike {type name colon slot semicolon type' name' colon' slot' semicolon' : Token}
    (h₁ : type.Alike R type') (h₂ : name.Alike R name') (h₃ : colon.Alike R colon')
    (h₄ : slot.Alike R slot') (h₅ : semicolon.Alike R semicolon') :
    Result.Alike R Eq (ofTokens type name colon slot semicolon)
      (ofTokens type' name' colon' slot' semicolon') := by
  refine (Token.require_alike .symbol rfl h₁).bind fun _ _ typed => ?_
  refine (Token.require_alike .symbol rfl h₂).bind fun _ _ named => ?_
  refine (Token.require_alike .colon rfl h₃).bind fun _ _ _ => ?_
  refine (Token.requireSlot_alike h₄).bind fun _ _ placed => ?_
  refine (Token.require_alike .semicolon rfl h₅).bind fun _ _ _ => ?_
  apply Result.Alike.ok
  rw [typed, named, placed]

theorem listOfTokens_alike (label : String) {ss ts : List Token}
    (alike : Forall₂ (Token.Alike R) ss ts) :
    Result.Alike R Eq (listOfTokens label ss) (listOfTokens label ts) := by
  fun_induction listOfTokens label ss generalizing ts with
  | case1 type name colon slot semicolon rest ih =>
    obtain _ | ⟨h₁, _ | ⟨h₂, _ | ⟨h₃, _ | ⟨h₄, _ | ⟨h₅, tail⟩⟩⟩⟩⟩ := alike
    refine (ofTokens_alike h₁ h₂ h₃ h₄ h₅).bind fun b c same => ?_
    refine (ih tail).bind fun bs cs others => ?_
    exact .ok (by rw [same, others])
  | case2 =>
    cases alike
    exact .ok rfl
  | case3 s ss long =>
    obtain _ | ⟨head, _ | ⟨_, _ | ⟨_, _ | ⟨_, _ | ⟨_, _⟩⟩⟩⟩⟩ := alike
    · exact .error (Fault.blame_alike _ head)
    · exact .error (Fault.blame_alike _ head)
    · exact .error (Fault.blame_alike _ head)
    · exact .error (Fault.blame_alike _ head)
    · exact (long _ _ _ _ _ rfl).elim

end Binding

namespace Outline

variable {ss ts : List Token}

theorem take_alike (expected : Token.Kind) (valid : expected.isInvalid = false)
    (ends : R size size') (alike : Forall₂ (Token.Alike R) ss ts) :
    Result.Alike R
      (fun p q => (p.1.Alike R q.1 ∧ p.1.text = q.1.text) ∧ Forall₂ (Token.Alike R) p.2 q.2)
      (take size expected ss) (take size' expected ts) := by
  cases alike with
  | nil => exact .error (Fault.mismatch_alike _ (Token.finish_alike ends))
  | cons head tail =>
    exact (Token.require_alike expected valid head).bind fun _ _ text => .ok ⟨⟨head, text⟩, tail⟩

theorem name_alike (ends : R size size') (alike : Forall₂ (Token.Alike R) ss ts) :
    Reading.Alike R (Forall₂ (Token.Alike R)) (name size ss) (name size' ts) := by
  apply (Reading.alike_lift (take_alike .stringLiteral rfl ends alike)).bind
  rintro ⟨text, ss⟩ ⟨text', ts⟩ ⟨⟨_, named⟩, alike⟩
  apply (Reading.alike_lift (take_alike .semicolon rfl ends alike)).bind
  rintro ⟨_, ss⟩ ⟨_, ts⟩ ⟨_, alike⟩
  refine (Reading.alike_emit ?_).bind fun _ _ _ =>
    Reading.alike_pure alike
  rw [named]
  exact .same rfl

theorem bindings_alike (label : String) (event : List Binding → Event)
    (free : ∀ list, (event list).isPlaced = false) (ends : R size size')
    (alike : Forall₂ (Token.Alike R) ss ts) :
    Reading.Alike R (Forall₂ (Token.Alike R)) (bindings size label event ss)
      (bindings size' label event ts) := by
  apply (Reading.alike_lift (take_alike .leftBrace rfl ends alike)).bind
  rintro ⟨_, ss⟩ ⟨_, ts⟩ ⟨_, alike⟩
  refine (Reading.alike_lift (Block.guarded_alike _ ends alike)).bind fun b c same => ?_
  apply (Reading.alike_lift (Binding.listOfTokens_alike label same.body)).bind
  rintro list _ rfl
  exact (Reading.alike_emit (.same (free list))).bind fun _ _ _ =>
    Reading.alike_pure same.rest

theorem uniforms_alike (ends : R size size') (alike : Forall₂ (Token.Alike R) ss ts) :
    Reading.Alike R (Forall₂ (Token.Alike R)) (uniforms size ss) (uniforms size' ts) := by
  apply (Reading.alike_lift (take_alike .stringLiteral rfl ends alike)).bind
  rintro ⟨buffer, ss⟩ ⟨buffer', ts⟩ ⟨⟨_, named⟩, alike⟩
  have text : buffer.text = buffer'.text := named
  simp only [text]
  exact bindings_alike _ _ (fun _ => rfl) ends alike

theorem code_alike (stage : Stage) (ends : R size size')
    (alike : Forall₂ (Token.Alike R) ss ts) :
    Reading.Alike R (Forall₂ (Token.Alike R)) (code size stage ss) (code size' stage ts) := by
  apply (Reading.alike_lift (take_alike .leftBrace rfl ends alike)).bind
  rintro ⟨_, ss⟩ ⟨_, ts⟩ ⟨⟨opened, _⟩, alike⟩
  refine (Reading.alike_lift (Block.guarded_alike _ ends alike)).bind fun b c same => ?_
  exact (Reading.alike_emit
    (.code stage opened.place same.close.place)).bind fun _ _ _ =>
      Reading.alike_pure same.rest

theorem entries_alike {close close' : Token} (closed : close.Alike R close')
    (alike : Forall₂ (Token.Alike R) ss ts) :
    Reading.Alike R (fun _ _ => True) (entries close ss) (entries close' ts) := by
  induction length : ss.length using Nat.strongRecOn generalizing ss ts with
  | ind n ih =>
    cases alike with
    | nil =>
      rw [entries, entries]
      exact Reading.alike_pure trivial
    | @cons s t ss ts head tail =>
      rw [entries, entries, head.kind]
      cases Entry.ofKeyword? t.kind with
      | none => exact Reading.alike_fail (Fault.blame_alike _ head)
      | some entry =>
        have text := Token.headD_alike tail closed
        have semicolon := Token.headD_alike (Token.tail_alike tail) closed
        have shorter : ss.tail.tail.length < n := by
          simp only [List.length_tail, ← length, List.length_cons]
          omega
        refine (Reading.alike_emit
          (.opens (.entry entry) head.place)).bind fun _ _ _ => ?_
        refine (Reading.alike_lift (Token.require_alike .stringLiteral rfl text)).bind
          fun _ _ named => ?_
        refine (Reading.alike_lift (Token.require_alike .semicolon rfl semicolon)).bind
          fun _ _ _ => ?_
        rw [named]
        refine (Reading.alike_emit (.same rfl)).bind fun _ _ _ => ?_
        exact ih _ shorter (Token.tail_alike (Token.tail_alike tail)) rfl

theorem entrypoints_alike (ends : R size size') (alike : Forall₂ (Token.Alike R) ss ts) :
    Reading.Alike R (Forall₂ (Token.Alike R)) (entrypoints size ss) (entrypoints size' ts) := by
  apply (Reading.alike_lift (take_alike .leftBrace rfl ends alike)).bind
  rintro ⟨_, ss⟩ ⟨_, ts⟩ ⟨_, alike⟩
  refine (Reading.alike_lift (Block.guarded_alike _ ends alike)).bind fun b c same => ?_
  exact (entries_alike same.close same.body).bind fun _ _ _ => Reading.alike_pure same.rest

theorem declare_alike (item : Item) {s t : Token} (head : s.Alike R t)
    {r r' : Reading (List Token)} (alike : Reading.Alike R (Forall₂ (Token.Alike R)) r r') :
    Reading.Alike R (Forall₂ (Token.Alike R)) (declare item s r) (declare item t r') :=
  (Reading.alike_emit (.opens item head.place)).bind
    fun _ _ _ => alike

def Left (R : Nat → Nat → Prop) (p q : Scope × List Token) : Prop :=
  p.1 = q.1 ∧ Forall₂ (Token.Alike R) p.2 q.2

theorem goOn_alike (scope : Scope) {r r' : Reading (List Token)}
    (alike : Reading.Alike R (Forall₂ (Token.Alike R)) r r') :
    Reading.Alike R (Left R) (goOn scope r) (goOn scope r') :=
  alike.bind fun _ _ same => Reading.alike_pure ⟨rfl, same⟩

theorem enter_alike (scope : Scope) (ends : R size size')
    (alike : Forall₂ (Token.Alike R) ss ts) :
    Reading.Alike R (Left R) (enter size scope ss) (enter size' scope ts) := by
  apply (Reading.alike_lift (take_alike .leftBrace rfl ends alike)).bind
  rintro ⟨_, ss⟩ ⟨_, ts⟩ ⟨_, alike⟩
  exact Reading.alike_pure ⟨rfl, alike⟩

theorem step_alike (scope : Scope) {s t : Token} (ends : R size size')
    (head : s.Alike R t) (alike : Forall₂ (Token.Alike R) ss ts) :
    Reading.Alike R (Left R) (step size scope s ss) (step size' scope t ts) := by
  unfold step
  rw [head.kind]
  split
  · exact Reading.alike_fail (Fault.blame_alike _ head)
  · cases scope with
    | top =>
      simp only [topStep, head.kind]
      split
      · exact goOn_alike _ (declare_alike _ head (name_alike ends alike))
      · exact enter_alike _ ends alike
      · exact goOn_alike _
          (declare_alike _ head (bindings_alike _ _ (fun _ => rfl) ends alike))
      · exact goOn_alike _
          (declare_alike _ head (bindings_alike _ _ (fun _ => rfl) ends alike))
      · exact enter_alike _ ends alike
      · exact Reading.alike_fail (Fault.blame_alike _ head)
    | bindings =>
      simp only [bindingsStep, head.kind]
      split
      · exact Reading.alike_pure ⟨rfl, alike⟩
      · exact goOn_alike _ (uniforms_alike ends alike)
      · exact goOn_alike _ (bindings_alike _ _ (fun _ => rfl) ends alike)
      · exact Reading.alike_fail (Fault.blame_alike _ head)
    | shader =>
      simp only [shaderStep, head.kind]
      split
      · exact goOn_alike _ (declare_alike _ head (code_alike _ ends alike))
      · split
        · exact Reading.alike_pure ⟨rfl, alike⟩
        · exact goOn_alike _ (entrypoints_alike ends alike)
        · exact Reading.alike_fail (Fault.blame_alike _ head)

theorem walk_alike (scope : Scope) (same : R size size') (alike : Forall₂ (Token.Alike R) ss ts) :
    Reading.Alike R (fun _ _ => True) (walk size scope ss) (walk size' scope ts) := by
  induction length : ss.length using Nat.strongRecOn generalizing scope ss ts with
  | ind n ih =>
    cases alike with
    | nil =>
      rw [walk_nil, walk_nil]
      cases scope with
      | top => exact Reading.alike_pure trivial
      | bindings => exact Reading.alike_fail ⟨rfl, same⟩
      | shader => exact Reading.alike_fail (Fault.mismatch_alike _ (Token.finish_alike same))
    | @cons s t ss ts head tail =>
      rw [walk_cons, walk_cons]
      apply (step_alike scope same head tail).bind_results
      rintro ⟨next, rest⟩ ⟨_, rest'⟩ done _ ⟨rfl, behind⟩
      have shorter : rest.length < n := by
        rw [← length]
        exact Nat.lt_succ_of_le (step_suffix done).length_le
      exact ih _ shorter next behind rfl

end Outline

end ShaderDef
