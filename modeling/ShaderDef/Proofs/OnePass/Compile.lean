import ShaderDef.Proofs.OnePass.Section

/-! One pass compiles. From one part of a scope to the next a run follows the walk, down into the
scopes and out of them again, so it comes to what the compiler says, it takes no wrong slice on its
way, and it has asked for no token twice. -/

namespace ShaderDef

open Text Outline
open Event (items completed)

variable {source : String} {p : Pass} {t : Token} {ts : List Token} {told : List Event}
  {scope : Scope}

namespace Pull

def Steps (source : String) (scope : Scope) (part : Token → Pull Unit) : Prop :=
  ∀ p t ts told, t.kind.isInvalid = false → (t.kind = .rightBrace → scope = .top) →
    p.Between source ts told
      (step (size source.toList) scope t (Outline.significant ts) >>= fun next =>
        walk (size source.toList) next.1 next.2) →
    (part t).Ends source p fun _ q => q.Before source scope

theorem Reads.goes {f : Pull Unit} {read : List Token → Reading (List Token)}
    (reads : f.Reads source read)
    (here : p.Between source ts told
      (goOn scope (read (Outline.significant ts)) >>= fun next =>
        walk (size source.toList) next.1 next.2)) :
    f.Ends source p fun _ q => q.Before source scope := by
  rw [goOn, Reading.bind_assoc] at here
  exact reads p ts told _ here

theorem bindingsPart_steps : Steps source .bindings (bindingsPart source) := by
  intro p t ts told valid inside here
  have open' : t.kind ≠ .rightBrace := fun closed => by cases inside closed
  simp only [step, valid, Bool.false_eq_true, if_false, bindingsStep] at here
  unfold bindingsPart
  split
  · rename_i opened
    rw [opened] at here
    exact uniforms_reads.goes here
  · rename_i opened
    rw [opened] at here
    exact textures_reads.goes here
  · split at here
    iterate 3 contradiction
    exact ends_fail here.follows.fails here.toAt.stream

theorem shaderPart_steps : Steps source .shader (shaderPart source) := by
  intro p t ts told valid inside here
  have open' : t.kind ≠ .rightBrace := fun closed => by cases inside closed
  simp only [step, valid, Bool.false_eq_true, if_false, shaderStep] at here
  unfold shaderPart
  cases known : Stage.ofKeyword? t.kind with
  | some stage =>
    simp only [known] at here ⊢
    exact (code_reads stage t).goes here
  | none =>
    simp only [known] at here ⊢
    split
    · rename_i opened
      rw [opened] at here
      exact entrypoints_reads.goes here
    · split at here
      iterate 2 contradiction
      exact ends_fail here.follows.fails here.toAt.stream

/-- A run over the parts of a scope ends behind the brace that closes the scope, or with the
source. -/
theorem parts_ends {part : Token → Pull Unit} {ok : Unit → Pass → Prop}
    (steps : Steps source scope part)
    (closed : scope ≠ .top → ∀ q, q.Before source .top → ok () q)
    (done : scope = .top → ∀ q told', q.Holds source told' → items told' = completed told' →
      Follows source told' (pure ()) → q.received = Token.stream source → ok () q)
    (here : p.Before source scope) : (parts source scope part).Ends source p ok := by
  obtain ⟨ts, told, here⟩ := here
  refine ends_loop (fun _ rest q => ∃ told', q.Between source rest told'
    (walk (size source.toList) scope (Outline.significant rest))) ?_ ?_ ⟨ts, here.toAt, told, here⟩
  · rintro _ t rest q r ⟨told', stands⟩ there kept received
    have moved : r.Between source rest told' _ := ⟨stands.toStands.move there kept, stands.level⟩
    split
    · rename_i comment
      rw [significant_cons_comment comment] at moved
      exact ends_pure ⟨rest, there, told', moved⟩
    · rename_i counts
      rw [significant_cons (by simpa using counts), walk_cons] at moved
      split
      · rename_i invalid
        simp only [step, invalid, if_true, Reading.fail_bind] at moved
        exact ends_fail moved.follows.fails there.stream
      · rename_i valid
        have valid : t.kind.isInvalid = false := by simpa using valid
        split
        · rename_i last
          obtain ⟨brace, inner⟩ := last
          rw [step_rightBrace inner brace, Reading.pure_bind] at moved
          exact ends_pure (closed inner r ⟨rest, told', moved⟩)
        · rename_i goesOn
          have inside : t.kind = .rightBrace → scope = .top := fun brace => by
            by_contra inner
            exact goesOn ⟨brace, inner⟩
          refine (steps r t rest told' valid inside moved).bind ?_
          rintro _ s ⟨ts, told', next⟩
          exact ends_pure ⟨ts, next.toAt, told', next⟩
  · rintro _ q r ⟨told', stands⟩ same received
    have follows : Follows source told' (finish (size source.toList) scope) := by
      have left := stands.follows
      rwa [Outline.significant, List.filter_nil, walk_nil] at left
    cases scope with
    | top =>
      exact ends_of_run rfl
        (done rfl r told' (stands.toHolds.of_same same) stands.level follows received)
    | bindings => exact ends_stop rfl follows.fails (received ▸ List.prefix_refl _)
    | shader => exact ends_stop rfl follows.fails (received ▸ List.prefix_refl _)

theorem within_ends {part : Token → Pull Unit} (steps : Steps source scope part)
    (inner : scope ≠ .top) (here : p.Between source ts told
      (enter (size source.toList) scope (Outline.significant ts) >>= fun next =>
        walk (size source.toList) next.1 next.2)) :
    (expect source .leftBrace >>= fun _ => parts source scope part).Ends source p fun _ q =>
      q.Before source .top := by
  simp only [enter, Reading.bind_assoc, Reading.pure_bind] at here
  refine (expect_ends here.toStands (by simp)).bind ?_
  rintro _ q ⟨_, _, rest, there⟩
  exact parts_ends steps (fun _ q before => before) (fun top => absurd top inner)
    ⟨rest, told, there, here.level⟩

theorem topPart_steps : Steps source .top (topPart source) := by
  intro p t ts told valid _ here
  simp only [step, valid, Bool.false_eq_true, if_false, topStep] at here
  unfold topPart
  split
  · rename_i opened
    rw [opened] at here
    exact (name_reads t).goes here
  · rename_i opened
    rw [opened] at here
    exact within_ends bindingsPart_steps (by simp) here
  · rename_i opened
    rw [opened] at here
    exact (inputs_reads (fun _ => rfl) (fun _ => rfl) t).goes here
  · rename_i opened
    rw [opened] at here
    exact (inputs_reads (fun _ => rfl) (fun _ => rfl) t).goes here
  · rename_i opened
    rw [opened] at here
    exact within_ends shaderPart_steps (by simp) here
  · split at here
    iterate 5 contradiction
    exact ends_fail here.follows.fails here.toAt.stream

end Pull

/-- A whole run ends with the fault that the compiler reports, or with all tokens and with the
definition that it has written. -/
theorem onePass_ends (source : String) :
    (∃ d q, onePass source = (.ok d, q) ∧ compile source = .ok d ∧
      q.received = Token.stream source) ∨
    ∃ fault q, onePass source = (.error (.fault fault), q) ∧ compile source = .error fault ∧
      q.received <+: Token.stream source := by
  have ends : (Pull.parts source .top (Pull.topPart source)).Ends source
      { cursor := .start source } fun _ q =>
        compile source = .ok q.definition ∧ q.received = Token.stream source := by
    have begins : Pass.Before source .top { cursor := .start source } :=
      ⟨_, [], ⟨Pass.at_start source, ⟨rfl, by simp [items], by simp [items]⟩,
        follows_start source⟩, rfl⟩
    refine Pull.parts_ends Pull.topPart_steps (fun inner => absurd rfl inner) ?_ begins
    intro _ q told holds level follows received
    -- Each item has been opened once and is declared, so nothing has been written over.
    have single : (completed told).Nodup := level ▸ (once_eq_ok_iff.1 follows.kept).1
    exact ⟨by rw [follows.done, holds.definition, Definition.ofEvents_eq_assigned single], received⟩
  unfold Pull.Ends at ends
  unfold onePass
  rcases ran : (Pull.parts source .top (Pull.topPart source)).run { cursor := .start source } with
    ⟨(fault | breach) | _, q⟩
  · rw [ran] at ends
    exact .inr ⟨fault, q, rfl, ends⟩
  · rw [ran] at ends
    exact ends.elim
  · rw [ran] at ends
    exact .inl ⟨q.definition, q, rfl, ends⟩

/-- What a run in one pass does: it comes to what the compiler says, and never to a breach. The
tokens that it has been given are the first ones of the stream, all of them if it succeeds, and it
asks for none behind the end. -/
structure SinglePass (source : String) : Prop where
  result : (onePass source).1 = (compile source).mapError .fault
  safe : ∀ breach, (onePass source).1 ≠ .error (.breach breach)
  given : (onePass source).2.received <+: Token.stream source
  calls : (onePass source).2.received.length ≤ (Token.ofSource source).length + 1
  stops : ∀ t ∈ (onePass source).2.received.dropLast, t.isEnd = false
  whole : ∀ d, compile source = .ok d → (onePass source).2.received = Token.stream source

theorem Token.isEnd_of_mem_ofSource (inside : t ∈ ofSource source) : t.isEnd = false :=
  Cursor.isEnd_of_mem_tokens (Cursor.start_sound source) inside

/-- Every source is compiled in one pass, without a breach. -/
theorem compile_singlePass (source : String) : SinglePass source := by
  have given : (onePass source).2.received <+: Token.stream source := by
    rcases onePass_ends source with ⟨_, q, ran, _, received⟩ | ⟨_, q, ran, _, received⟩
    · rw [ran]
      exact received ▸ List.prefix_refl _
    · rwa [ran]
  refine ⟨?_, ?_, given, ?_, ?_, ?_⟩
  · rcases onePass_ends source with ⟨d, _, ran, ok, _⟩ | ⟨fault, _, ran, stopped, _⟩
    · rw [ran, ok]
      rfl
    · rw [ran, stopped]
      rfl
  · intro breach
    rcases onePass_ends source with ⟨_, _, ran, _⟩ | ⟨_, _, ran, _⟩ <;> simp [ran]
  · simpa [Token.stream] using given.length_le
  · intro t inside
    rcases List.prefix_concat_iff.1 given with whole | early
    · rw [whole, List.dropLast_concat] at inside
      exact Token.isEnd_of_mem_ofSource inside
    · exact Token.isEnd_of_mem_ofSource (early.subset (List.dropLast_subset _ inside))
  · intro d ok
    rcases onePass_ends source with ⟨_, _, ran, _, received⟩ | ⟨_, _, _, stopped, _⟩
    · rw [ran, received]
    · rw [ok] at stopped
      cases stopped

end ShaderDef
