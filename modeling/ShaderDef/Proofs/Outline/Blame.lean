import ShaderDef.Proofs.Outline.Once
import ShaderDef.Proofs.Outline.Reach

/-! Blame: which token a fault is about. Each reader stops at a token of which the fault says what
is true, with no foreign token before it, or at the end of the source. -/

namespace ShaderDef

open Grammar
open Token (Native Exposed native_append exposed_of_mem exposed_head)

/-- What a cause says of the token that is blamed. It is given which tokens stand in a list. -/
def Fault.Cause.Fits (listed : String → Token → Prop) (t : Token) : Cause → Prop
  | .invalid => t.kind.isInvalid = true
  | .unexpected expected found => expected ≠ t.kind ∧ found = t.kind
  | .unknown | .unknownIn _ => t.kind.isInvalid = false
  | .unterminated => False
  | .alreadySet what => ∃ item : Item, what = item.label ∧ t.kind = item.keyword
  | .misaligned label => t.kind.isInvalid = false ∧ listed label t

def Fault.Cause.FitsEnd : Cause → Prop
  | .unexpected expected found => expected ≠ .endOfFile ∧ found = .endOfFile
  | .unterminated => True
  | _ => False

structure Fault.PointsAt (listed : String → Token → Prop) (f : Fault) (t : Token) : Prop where
  place : f.index = t.index
  fits : f.cause.Fits listed t

def Fault.Blames (listed : String → Token → Prop) (size : Nat) (f : Fault) (ts : List Token) :
    Prop :=
  Exposed (f.PointsAt listed) ts ∨ f.index = size ∧ f.cause.FitsEnd

structure Block.Fronts (b : Block) (brace : Token) (ts : List Token) : Prop where
  split : ts = brace :: (b.body ++ b.close :: b.rest)
  opened : brace.kind = .leftBrace
  balanced : Balanced b.body
  closed : b.close.kind = .rightBrace

section Blames

variable {listed : String → Token → Prop} {size : Nat} {f : Fault} {front ts rest : List Token}
  {t : Token}

theorem Fault.Blames.head (points : f.PointsAt listed t) : f.Blames listed size (t :: ts) :=
  .inl (exposed_head points ts)

theorem Fault.Blames.prepend (native : Native front) (blames : f.Blames listed size ts) :
    f.Blames listed size (front ++ ts) :=
  blames.imp_left (Exposed.prepend native)

theorem Fault.Blames.cons (native : t.kind ≠ .invalid) (blames : f.Blames listed size ts) :
    f.Blames listed size (t :: ts) :=
  blames.imp_left (Exposed.cons native)

theorem Token.points_of_require {expected : Kind} (stopped : t.require expected = .error f) :
    f.PointsAt listed t := by
  unfold require at stopped
  split at stopped
  · simp at stopped
  · rename_i other
    obtain rfl := Except.error.inj stopped
    exact ⟨rfl, fun same => other same.symm, rfl⟩

theorem Token.points_of_requireSlot (stopped : t.requireSlot = .error f) :
    f.PointsAt listed t := by
  unfold requireSlot at stopped
  split at stopped
  · simp at stopped
  · exact points_of_require stopped

theorem Binding.points_of_ofTokens {type name colon slot semicolon : Token}
    (stopped : ofTokens type name colon slot semicolon = .error f) :
    ∃ t ∈ [type, name, colon, slot, semicolon], f.PointsAt listed t := by
  rcases Except.bind_eq_error.1 stopped with first | ⟨_, _, stopped⟩
  · exact ⟨type, by simp, Token.points_of_require first⟩
  rcases Except.bind_eq_error.1 stopped with second | ⟨_, _, stopped⟩
  · exact ⟨name, by simp, Token.points_of_require second⟩
  rcases Except.bind_eq_error.1 stopped with third | ⟨_, _, stopped⟩
  · exact ⟨colon, by simp, Token.points_of_require third⟩
  rcases Except.bind_eq_error.1 stopped with fourth | ⟨_, _, stopped⟩
  · exact ⟨slot, by simp, Token.points_of_requireSlot fourth⟩
  rcases Except.bind_eq_error.1 stopped with fifth | ⟨_, _, stopped⟩
  · exact ⟨semicolon, by simp, Token.points_of_require fifth⟩
  · simp [pure, Except.pure] at stopped

theorem Binding.points_of_listOfTokens {label : String}
    (within : ∀ t ∈ ts, t.kind.isInvalid = false ∧ listed label t)
    (stopped : listOfTokens label ts = .error f) : ∃ t ∈ ts, f.PointsAt listed t := by
  induction ts using listOfTokens.induct with
  | case1 type name colon slot semicolon rest ih =>
    have entry : type :: name :: colon :: slot :: semicolon :: rest =
        [type, name, colon, slot, semicolon] ++ rest := rfl
    rw [entry] at within ⊢
    rcases Except.bind_eq_error.1 stopped with first | ⟨_, _, stopped⟩
    · obtain ⟨t, inside, points⟩ := points_of_ofTokens first
      exact ⟨t, List.mem_append_left rest inside, points⟩
    rcases Except.bind_eq_error.1 stopped with later | ⟨_, _, stopped⟩
    · obtain ⟨t, inside, points⟩ := ih (List.forall_mem_append.1 within).2 later
      exact ⟨t, List.mem_append_right _ inside, points⟩
    · simp [pure, Except.pure] at stopped
  | case2 => simp [listOfTokens] at stopped
  | case3 head rest short =>
    rw [listOfTokens] at stopped
    · obtain rfl := Except.error.inj stopped
      exact ⟨head, List.mem_cons_self, rfl, within head List.mem_cons_self⟩
    · exact short

/-- A block is refused for a token in it, or for the end when no brace closes it. -/
theorem Block.blames_of_guarded {bad : Token.Kind → Bool} (foreign : bad .invalid = true)
    (malformed : ∀ kind, bad kind = true → kind.isInvalid = true)
    (stopped : read size ts >>= refuse bad = .error f) : f.Blames listed size ts := by
  rcases Except.bind_eq_error.1 stopped with missing | ⟨b, found, refused⟩
  · unfold read at missing
    split at missing
    · simp at missing
    · obtain rfl := Except.error.inj missing
      exact .inr ⟨rfl, by decide, rfl⟩
  · have whole := split_append 0 ts
    rw [read_eq_ok.1 found] at whole
    unfold refuse at refused
    split at refused
    · rename_i t first
      obtain ⟨wrong, before, behind, split, fine⟩ := List.find?_eq_some_iff_append.1 first
      obtain rfl := Except.error.inj refused
      have native : Native before := by
        intro s earlier same
        simpa [same, foreign] using fine s earlier
      rw [← whole, split, List.append_assoc, List.cons_append]
      exact .inl ⟨before, t, _, rfl, native, rfl, malformed _ wrong⟩
    · simp at refused

theorem Block.fronts_of_guarded {bad : Token.Kind → Bool} {brace : Token} {b : Block}
    (opened : brace.kind = .leftBrace) (found : read size ts >>= refuse bad = .ok b) :
    b.Fronts brace (brace :: ts) ∧ ∀ t ∈ b.body, bad t.kind = false := by
  obtain ⟨c, closed, kept⟩ := Except.bind_eq_ok.1 found
  obtain ⟨rfl, fine⟩ := refuse_eq_ok.1 kept
  have halves := read_eq_ok.1 closed
  have whole := split_append 0 ts
  obtain ⟨nested, right⟩ := nested_of_split halves
  rw [halves] at whole
  exact ⟨⟨by rw [whole], opened, balanced_iff.2 nested, right⟩, fine⟩

namespace Outline

theorem blames_of_take {expected : Token.Kind} (solid : expected ≠ .endOfFile)
    (stopped : take size expected ts = .error f) : f.Blames listed size ts := by
  cases ts with
  | nil =>
    obtain rfl := Except.error.inj stopped
    exact .inr ⟨rfl, solid, rfl⟩
  | cons t ts =>
    rcases Except.bind_eq_error.1 stopped with here | ⟨_, _, stopped⟩
    · exact .head (Token.points_of_require here)
    · simp [pure, Except.pure] at stopped

section Readers

variable {α : Type}

/-- What a reader does behind a token that it takes tells the blame. -/
theorem blames_of_taken {expected : Token.Kind} {next : Token × List Token → Reading α}
    (solid : expected ≠ .endOfFile ∧ expected ≠ .invalid)
    (behind : ∀ t rest, ts = t :: rest → t.kind = expected →
      (next (t, rest)).result = .error f → f.Blames listed size rest)
    (stopped : (Reading.lift (take size expected ts) >>= next).result = .error f) :
    f.Blames listed size ts := by
  rcases Reading.bind_eq_error.1 stopped with here | ⟨⟨t, rest⟩, taken, later⟩
  · exact blames_of_take solid.1 here
  · obtain ⟨rfl, kind⟩ := take_eq_ok taken
    exact (behind t rest rfl kind later).cons (by rw [kind]; exact solid.2)

/-- What a reader does with a block behind its opening brace tells the blame. -/
theorem blames_of_block {bad : Token.Kind → Bool} {brace : Token} {next : Block → Reading α}
    (foreign : bad .invalid = true) (malformed : ∀ kind, bad kind = true → kind.isInvalid = true)
    (opened : brace.kind = .leftBrace)
    (inside : ∀ b, b.Fronts brace (brace :: ts) → (∀ t ∈ b.body, bad t.kind = false) →
      (next b).result = .error f → ∃ t ∈ b.body ++ [b.close], f.PointsAt listed t)
    (stopped : (Reading.lift (Block.read size ts >>= Block.refuse bad) >>= next).result =
      .error f) : f.Blames listed size ts := by
  rcases Reading.bind_eq_error.1 stopped with refused | ⟨b, found, beyond⟩
  · exact Block.blames_of_guarded foreign malformed refused
  · obtain ⟨fronts, fine⟩ := Block.fronts_of_guarded opened found
    obtain ⟨t, member, points⟩ := inside b fronts fine beyond
    have native : Native (b.body ++ [b.close]) := by
      refine native_append (fun s listed same => ?_) (List.forall_mem_singleton.2 ?_)
      · simpa [same, foreign] using fine s listed
      · rw [fronts.closed]
        decide
    rw [(List.cons.inj fronts.split).2, List.append_cons]
    exact .inl (exposed_of_mem native member points b.rest)

theorem blames_of_name (stopped : (name size ts).result = .error f) :
    f.Blames listed size ts := by
  refine blames_of_taken (by decide) ?_ stopped
  intro text rest _ _ later
  refine blames_of_taken (by decide) ?_ later
  intro semicolon rest _ _ beyond
  simp [Reading.bind_eq_error] at beyond

theorem blames_of_bindings {label : String} {event : List Binding → Event}
    (within : ∀ brace b, Block.Fronts b brace ts → ∀ t ∈ b.body, listed label t)
    (stopped : (bindings size label event ts).result = .error f) : f.Blames listed size ts := by
  refine blames_of_taken (by decide) ?_ stopped
  rintro brace rest rfl opened later
  refine blames_of_block rfl (fun _ => id) opened ?_ later
  intro b fronts fine beyond
  rcases Reading.bind_eq_error.1 beyond with wrong | ⟨list, _, beyond⟩
  · obtain ⟨t, inside, points⟩ := Binding.points_of_listOfTokens
      (fun t inside => ⟨fine t inside, within brace b fronts t inside⟩) wrong
    exact ⟨t, List.mem_append_left _ inside, points⟩
  · simp [Reading.bind_eq_error] at beyond

theorem blames_of_uniforms
    (within : ∀ buffer rest, ts = buffer :: rest → buffer.kind = .stringLiteral →
      ∀ brace b, Block.Fronts b brace rest → ∀ t ∈ b.body, listed "Uniforms" t)
    (stopped : (uniforms size ts).result = .error f) : f.Blames listed size ts := by
  refine blames_of_taken (by decide) ?_ stopped
  intro buffer rest split named later
  exact blames_of_bindings (within buffer rest split named) later

theorem blames_of_code {stage : Stage} (stopped : (code size stage ts).result = .error f) :
    f.Blames listed size ts := by
  refine blames_of_taken (by decide) ?_ stopped
  rintro brace rest rfl opened later
  refine blames_of_block rfl (by simp [Token.Kind.isInvalid]) opened ?_ later
  intro b fronts fine beyond
  simp [Reading.bind_eq_error] at beyond

theorem headD_mem (close : Token) (ts : List Token) : ts.headD close ∈ ts ++ [close] := by
  cases ts <;> simp

/-- Where an entry ends too early the closing brace is blamed. -/
theorem points_of_entries {close : Token} (fine : ∀ t ∈ ts, t.kind.isInvalid = false)
    (stopped : (entries close ts).result = .error f) :
    ∃ t ∈ ts ++ [close], f.PointsAt listed t := by
  induction ts using entries.induct close with
  | case1 =>
    rw [entries] at stopped
    simp at stopped
  | case2 t rest unknown =>
    rw [entries] at stopped
    simp only [unknown, Reading.result_fail] at stopped
    obtain rfl := Except.error.inj stopped
    exact ⟨t, by simp, rfl, fine t List.mem_cons_self⟩
  | case3 t rest point known ih =>
    rw [entries] at stopped
    simp only [known] at stopped
    have wider : ∀ {some : List Token}, some.Sublist rest →
        some ++ [close] ⊆ t :: rest ++ [close] :=
      fun within => ((within.cons t).append (.refl _)).subset
    rcases Reading.bind_eq_error.1 stopped with told | ⟨_, _, stopped⟩
    · simp at told
    rcases Reading.bind_eq_error.1 stopped with text | ⟨_, _, stopped⟩
    · exact ⟨_, wider (.refl _) (headD_mem close rest), Token.points_of_require text⟩
    rcases Reading.bind_eq_error.1 stopped with semicolon | ⟨_, _, stopped⟩
    · exact ⟨_, wider (List.tail_sublist rest) (headD_mem close _),
        Token.points_of_require semicolon⟩
    rcases Reading.bind_eq_error.1 stopped with told | ⟨_, _, later⟩
    · simp at told
    · have within := (List.tail_sublist rest.tail).trans (List.tail_sublist rest)
      have fine' := fun s inside => fine s (.tail t (within.subset inside))
      obtain ⟨s, inside, points⟩ := ih fine' later
      exact ⟨s, wider within inside, points⟩

theorem blames_of_entrypoints (stopped : (entrypoints size ts).result = .error f) :
    f.Blames listed size ts := by
  refine blames_of_taken (by decide) ?_ stopped
  rintro brace rest rfl opened later
  refine blames_of_block rfl (fun _ => id) opened ?_ later
  intro b fronts fine beyond
  rcases Reading.bind_eq_error.1 beyond with wrong | ⟨_, _, beyond⟩
  · exact points_of_entries fine wrong
  · simp at beyond

theorem blames_of_enter {scope : Scope} (stopped : (enter size scope ts).result = .error f) :
    f.Blames listed size ts := by
  refine blames_of_taken (by decide) ?_ stopped
  intro brace rest _ _ later
  simp at later

theorem goOn_eq_error {scope : Scope} {read : Reading (List Token)}
    (stopped : (goOn scope read).result = .error f) : read.result = .error f := by
  rcases Reading.bind_eq_error.1 stopped with here | ⟨_, _, later⟩
  · exact here
  · simp at later

theorem declare_eq_error {item : Item} {read : Reading (List Token)}
    (stopped : (declare item t read).result = .error f) : read.result = .error f := by
  rcases Reading.bind_eq_error.1 stopped with here | ⟨_, _, later⟩
  · simp at here
  · exact later

end Readers

end Outline

end Blames

namespace Outline

inductive ListHead : Scope → String → List Token → Prop
  | uniforms {keyword buffer : Token} (opened : keyword.kind = .uniformsKeyword)
      (named : buffer.kind = .stringLiteral) : ListHead .bindings "Uniforms" [keyword, buffer]
  | textures {keyword : Token} (opened : keyword.kind = .texturesKeyword) :
      ListHead .bindings "Textures" [keyword]
  | input {keyword : Token} (opened : keyword.kind = .inputKeyword) :
      ListHead .top "Input" [keyword]
  | pixelInput {keyword : Token} (opened : keyword.kind = .pixelInputKeyword) :
      ListHead .top "PixelInput" [keyword]

def Listed (size : Nat) (all : List Token) (label : String) (t : Token) : Prop :=
  ∃ scope head ts brace b, Reaches size all scope (head ++ ts) ∧ ListHead scope label head ∧
    Block.Fronts b brace ts ∧ t ∈ b.body

variable {size : Nat} {all ts : List Token} {scope : Scope} {t : Token} {f : Fault}

theorem Reaches.lists {label : String} {head : List Token}
    (here : Reaches size all scope (head ++ ts)) (starts : ListHead scope label head) :
    ∀ brace b, Block.Fronts b brace ts → ∀ s ∈ b.body, Listed size all label s :=
  fun brace b fronts _ inside => ⟨scope, head, ts, brace, b, here, starts, fronts, inside⟩

theorem topStep_blames (here : Reaches size all .top ([t] ++ ts))
    (fine : t.kind.isInvalid = false) (native : t.kind ≠ .invalid)
    (stopped : (topStep size t ts).result = .error f) :
    f.Blames (Listed size all) size (t :: ts) := by
  unfold topStep at stopped
  split at stopped
  · exact (blames_of_name (declare_eq_error (goOn_eq_error stopped))).cons native
  · exact (blames_of_enter stopped).cons native
  · rename_i same
    have within := here.lists (.input same)
    exact (blames_of_bindings within (declare_eq_error (goOn_eq_error stopped))).cons native
  · rename_i same
    have within := here.lists (.pixelInput same)
    exact (blames_of_bindings within (declare_eq_error (goOn_eq_error stopped))).cons native
  · exact (blames_of_enter stopped).cons native
  · obtain rfl := Except.error.inj stopped
    exact .head ⟨rfl, fine⟩

theorem bindingsStep_blames (here : Reaches size all .bindings ([t] ++ ts))
    (fine : t.kind.isInvalid = false) (native : t.kind ≠ .invalid)
    (stopped : (bindingsStep size t ts).result = .error f) :
    f.Blames (Listed size all) size (t :: ts) := by
  unfold bindingsStep at stopped
  split at stopped
  · simp at stopped
  · rename_i same
    refine (blames_of_uniforms ?_ (goOn_eq_error stopped)).cons native
    rintro buffer rest rfl named
    have here : Reaches size all .bindings ([t, buffer] ++ rest) := here
    exact here.lists (.uniforms same named)
  · rename_i same
    exact (blames_of_bindings (here.lists (.textures same)) (goOn_eq_error stopped)).cons native
  · obtain rfl := Except.error.inj stopped
    exact .head ⟨rfl, fine⟩

theorem shaderStep_blames {listed : String → Token → Prop} (fine : t.kind.isInvalid = false)
    (native : t.kind ≠ .invalid) (stopped : (shaderStep size t ts).result = .error f) :
    f.Blames listed size (t :: ts) := by
  unfold shaderStep at stopped
  split at stopped
  · exact (blames_of_code (declare_eq_error (goOn_eq_error stopped))).cons native
  · split at stopped
    · simp at stopped
    · exact (blames_of_entrypoints (goOn_eq_error stopped)).cons native
    · obtain rfl := Except.error.inj stopped
      exact .head ⟨rfl, fine⟩

/-- A step from a place that a walk has come to stops at one of the tokens there, or at the end. -/
theorem step_blames (here : Reaches size all scope (t :: ts))
    (stopped : (step size scope t ts).result = .error f) :
    f.Blames (Listed size all) size (t :: ts) := by
  unfold step at stopped
  split at stopped
  · rename_i malformed
    obtain rfl := Except.error.inj stopped
    exact .head ⟨rfl, malformed⟩
  · rename_i fine
    rw [Bool.not_eq_true] at fine
    have native := Token.Kind.ne_invalid fine
    cases scope with
    | top => exact topStep_blames here fine native stopped
    | bindings => exact bindingsStep_blames here fine native stopped
    | shader => exact shaderStep_blames fine native stopped

end Outline

end ShaderDef
