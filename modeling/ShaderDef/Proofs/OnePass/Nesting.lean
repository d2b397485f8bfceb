import ShaderDef.Proofs.Grammar.Scanned
import ShaderDef.Proofs.Lexical.Progress
import ShaderDef.Proofs.OnePass.Scope

/-! Nesting. Wherever one pass stands, it can scan a scope. The counter of the scan is at each turn
the number of braces that are open, it is never taken below zero, and the pass is left right behind
the last token that was taken. -/

namespace ShaderDef

open Text Grammar

namespace Pass

def given (p : Pass) (ts : List Token) : Pass :=
  { p with cursor := p.cursor.ahead ts.length, received := p.received ++ ts }

theorem given_nil (p : Pass) : p.given [] = p := by
  simp [given, Cursor.ahead]

theorem given_concat (p : Pass) (ts : List Token) (t : Token) :
    (p.given ts).given [t] = p.given (ts ++ [t]) := by
  simp [given, Cursor.ahead_succ, Cursor.ahead]

end Pass

namespace Pull

variable {α σ : Type} {source : String} {turn : σ → Token → Pull (σ ⊕ α)}
  {last : σ → Token → Except Fault α}

inductive Visits (source : String) (turn : σ → Token → Pull (σ ⊕ α))
    (last : σ → Token → Except Fault α) (state : σ) (p : Pass) : σ → Pass → Prop
  | start : Visits source turn last state p state p
  | turn {now later : σ} {q r : Pass} (here : Visits source turn last state p now q)
      (ran : (turnOf source turn last now).run q = (.ok (.inl later), r)) :
      Visits source turn last state p later r

/-- What holds at the first turn of a loop, and at the next one after each, holds at them all. -/
theorem Visits.holds {state : σ} {p : Pass} (inv : σ → Pass → Prop) (first : inv state p)
    (kept : ∀ now q later r, inv now q →
      (turnOf source turn last now).run q = (.ok (.inl later), r) → inv later r)
    {now : σ} {q : Pass} (here : Visits source turn last state p now q) : inv now q := by
  induction here with
  | start => exact first
  | turn _ ran ih => exact kept _ _ _ _ ih ran

/-- A loop ends as the last of its turns does. -/
theorem loop_run {state : σ} {p : Pass} (inv : σ → Pass → Prop) (ok : α → Pass → Prop)
    (goes : ∀ now q, inv now q → ∃ out r,
      (turnOf source turn last now).run q = (.ok out, r) ∧ out.elim (inv · r) (ok · r))
    (first : inv state p) :
    ∃ a q, (loop source turn last state).run p = (.ok a, q) ∧ ok a q := by
  -- A turn that goes on has taken a token, so less of the source is left behind it.
  induction length : p.cursor.rest.length using Nat.strongRecOn generalizing state p with
  | _ n ih =>
    have run := loopFrom_eq source turn last state p
    change (loop source turn last state).run p = _ at run
    obtain ⟨later | a, q, ran, holds⟩ := goes state p first
    · rw [run, ran]
      exact ih _ (length ▸ turnOf_shorter ran) holds rfl
    · rw [run, ran]
      exact ⟨a, q, rfl, holds⟩

theorem next_given (source : String) {p : Pass} (boundary : p.cursor.Over source)
    (sound : p.cursor.Sound) (taken : List Token) :
    ∃ t, (next source).run (p.given taken) = (.ok t, p.given (taken ++ [t])) ∧
      (t.isEnd = false → ∃ rest, p.cursor.tokens.drop taken.length = t :: rest) ∧
      (t.isEnd = true → t = .finish (size source.toList) ∧
        p.cursor.tokens.drop taken.length = []) := by
  have there := boundary.ahead taken.length
  have solid := Cursor.ahead_sound sound taken.length
  have answer := Cursor.next?_eq there solid
  have left := Cursor.tokens_ahead sound taken.length
  refine ⟨(p.cursor.ahead taken.length).next.1, ?_, fun more => ?_, fun final => ⟨?_, ?_⟩⟩
  · rw [← Pass.given_concat]
    simp only [next, Pass.given, answer, List.length_singleton, Cursor.ahead]
  · rw [← left, Cursor.tokens, dif_pos more]
    exact ⟨_, rfl⟩
  · rw [Cursor.next_eq_finish solid final, there.reach]
  · rw [← left, Cursor.tokens, dif_neg (by simp [final])]

structure Scanning (p : Pass) (state : List Token × Nat) (q : Pass) : Prop where
  moved : q = p.given state.1
  within : state.1 <+: p.cursor.tokens
  level : Open state.2 state.1

inductive Turned (source : String) (p : Pass) (taken : List Token) (nesting : Nat) :
    Except Halt ((List Token × Nat) ⊕ List Token) × Pass → Prop
  | closes {t : Token} {rest : List Token} (left : p.cursor.tokens = taken ++ t :: rest)
      (closed : t.kind = .rightBrace) (outer : nesting = 0) :
      Turned source p taken nesting (.ok (.inr (taken ++ [t])), p.given (taken ++ [t]))
  | goes {t : Token} {rest : List Token} (left : p.cursor.tokens = taken ++ t :: rest)
      (inside : ¬ (t.kind = .rightBrace ∧ nesting = 0)) :
      Turned source p taken nesting
        (.ok (.inl (taken ++ [t], t.kind.nest nesting)), p.given (taken ++ [t]))
  | ends (left : p.cursor.tokens = taken) :
      Turned source p taken nesting
        (.ok (.inr (taken ++ [.finish (size source.toList)])),
          p.given (taken ++ [.finish (size source.toList)]))

theorem scope_turned {p : Pass} (boundary : p.cursor.Over source) (sound : p.cursor.Sound)
    {taken : List Token} (within : taken <+: p.cursor.tokens) (nesting : Nat) :
    Turned source p taken nesting
      ((turnOf source scopeTurn scopeLast (taken, nesting)).run (p.given taken)) := by
  obtain ⟨t, ran, more, final⟩ := next_given source boundary sound taken
  obtain ⟨rest, whole⟩ := within
  rw [turnOf, run_bind_of_ok _ ran]
  cases last : t.isEnd with
  | true =>
    obtain ⟨rfl, none⟩ := final last
    rw [← whole, List.drop_left] at none
    exact .ends (by rw [← whole, none, List.append_nil])
  | false =>
    obtain ⟨behind, found⟩ := more last
    rw [← whole, List.drop_left] at found
    rw [found] at whole
    rw [if_neg Bool.false_ne_true, scopeTurn_eq]
    split
    · rename_i both
      exact .closes whole.symm both.1 both.2
    · rename_i inside
      exact .goes whole.symm inside

inductive Scans (source : String) (p : Pass) : List Token → Prop
  | closes {body rest : List Token} {close : Token}
      (left : p.cursor.tokens = body ++ close :: rest) (closed : close.kind = .rightBrace)
      (level : Open 0 body) : Scans source p (body ++ [close])
  | ends {depth : Nat} (level : Open depth p.cursor.tokens) :
      Scans source p (p.cursor.tokens ++ [.finish (size source.toList)])

section Place

variable {p : Pass}

theorem Scanning.onward {taken : List Token} {nesting : Nat} {t : Token} {rest : List Token}
    (sound : p.cursor.Sound) (level : Open nesting taken)
    (left : p.cursor.tokens = taken ++ t :: rest)
    (inside : ¬ (t.kind = .rightBrace ∧ nesting = 0)) :
    Scanning p (taken ++ [t], t.kind.nest nesting) (p.given (taken ++ [t])) where
  moved := rfl
  within := ⟨rest, by simp [left]⟩
  level := level.concat (Cursor.isEnd_of_mem_tokens sound (by simp [left])) inside

variable (boundary : p.cursor.Over source) (sound : p.cursor.Sound)
include boundary sound

/-- A turn that goes on keeps to the counter, and a brace that it closes was open. -/
theorem Scanning.step {q r : Pass} {now later : List Token × Nat} (here : Scanning p now q)
    (ran : (turnOf source scopeTurn scopeLast now).run q = (.ok (.inl later), r)) :
    Scanning p later r ∧
      ∀ t, later.1 = now.1 ++ [t] → t.kind = .rightBrace → now.2 = later.2 + 1 := by
  obtain ⟨rfl, within, level⟩ := here
  have turned := scope_turned boundary sound within now.2
  rw [ran] at turned
  cases turned with
  | @goes t rest left inside =>
    refine ⟨.onward sound level left inside, fun s same closed => ?_⟩
    obtain rfl : t = s := by simpa using same
    have positive : now.2 ≠ 0 := fun none => inside ⟨closed, none⟩
    simp only [closed, Token.Kind.nest]
    omega

theorem Scanning.of_visits {now : List Token × Nat} {q : Pass}
    (here : Visits source scopeTurn scopeLast ([], 0) p now q) : Scanning p now q :=
  here.holds (Scanning p) ⟨p.given_nil.symm, List.nil_prefix, open_nil⟩
    fun _ _ _ _ state ran => (state.step boundary sound ran).1

theorem scope_scans : ∃ scope q, (Pull.scope source).run p = (.ok scope, q) ∧
    Scans source p scope ∧ q = p.given scope := by
  unfold scope
  refine loop_run (Scanning p) (fun scope q => Scans source p scope ∧ q = p.given scope) ?_
    ⟨p.given_nil.symm, List.nil_prefix, open_nil⟩
  rintro ⟨taken, nesting⟩ _ ⟨rfl, within, level⟩
  have turned := scope_turned boundary sound within nesting
  dsimp only
  generalize (turnOf source scopeTurn scopeLast (taken, nesting)).run (p.given taken) = turn
    at turned ⊢
  cases turned with
  | closes left closed outer =>
    subst outer
    exact ⟨_, _, rfl, .closes left closed level, rfl⟩
  | goes left inside => exact ⟨_, _, rfl, .onward sound level left inside⟩
  | ends left =>
    subst left
    exact ⟨_, _, rfl, .ends level, rfl⟩

end Place

namespace Scans

variable {p : Pass} {scope : List Token}

theorem scanned (scans : Scans source p scope) :
    Scanned (p.cursor.tokens ++ [.finish (size source.toList)]) scope := by
  cases scans with
  | closes left closed level =>
    rw [left, List.append_assoc]
    exact level.scanned_close closed
  | ends level => exact level.scanned_finish rfl

/-- Behind the last of its tokens the run stands where that one stops. -/
theorem behind (scans : Scans source p scope) (boundary : p.cursor.Over source)
    (sound : p.cursor.Sound) : ∀ last ∈ scope.getLast?,
      (p.given scope).cursor.offset = last.stop := by
  intro last member
  cases scans with
  | @closes body rest close left closed level =>
    obtain rfl : close = last := by simpa using member
    have listed : p.cursor.tokens[body.length]? = some close := by simp [left]
    simpa [Pass.given] using (Cursor.ahead_of_getElem? sound listed).2
  | ends level =>
    obtain rfl : Token.finish (size source.toList) = last := by simpa using member
    have there := Cursor.ahead_sound sound p.cursor.tokens.length
    have none := Cursor.tokens_ahead sound p.cursor.tokens.length
    rw [List.drop_length] at none
    have known := Cursor.pending_of_end there (Cursor.isEnd_of_tokens_eq_nil none)
    rw [← Cursor.ahead_succ] at known
    have settled := Cursor.Settled.of_sound (Cursor.ahead_sound sound _)
      (boundary.ahead (p.cursor.tokens.length + 1))
    simpa [Pass.given, Token.stop, Token.extent, Token.finish] using settled.ended known

/-- The scan takes what a block of the walk is made of, comments included. -/
theorem read {body : List Token} {close : Token} (scans : Scans source p (body ++ [close]))
    (sound : p.cursor.Sound) :
    Block.read (size source.toList) (Outline.significant p.cursor.tokens) =
      if close.kind = .rightBrace then
        .ok ⟨Outline.significant body, close,
          Outline.significant (p.given (body ++ [close])).cursor.tokens⟩
      else .error (.mismatch .rightBrace close) := by
  have halves := Block.split_filter 0 p.cursor.tokens
  have left := Cursor.tokens_ahead sound (body ++ [close]).length
  generalize whole : body ++ [close] = scope at scans left ⊢
  cases scans with
  | @closes body' rest close' found closed level =>
    obtain ⟨rfl, ⟨⟩⟩ := List.append_inj' whole rfl
    rw [if_pos closed]
    rw [found, Block.split_of_nested rest (balanced_iff.1 level.balanced) closed] at halves
    rw [List.filter_cons_of_pos (by simp [closed, Token.Kind.isComment])] at halves
    have rest' : (p.given (body ++ [close])).cursor.tokens = rest := by
      simp only [Pass.given, left, found]
      simp
    rw [rest', found]
    exact Block.read_eq_ok.2 halves
  | ends level =>
    obtain ⟨rfl, ⟨⟩⟩ := List.append_inj' whole rfl
    rw [if_neg (by simp), Outline.significant, Block.read, halves, level.split]
    rfl

theorem visited (scans : Scans source p scope) (boundary : p.cursor.Over source)
    (sound : p.cursor.Sound) {taken : List Token} {nesting : Nat} {q : Pass}
    (here : Visits source scopeTurn scopeLast ([], 0) p (taken, nesting) q) :
    taken <+: scope ∧ taken ≠ scope ∧ openings taken = closings taken + nesting ∧
      q = p.given taken := by
  obtain ⟨moved, within, level⟩ := Scanning.of_visits boundary sound here
  have unfinished : ¬ scope <+: taken := fun whole => level.not_ends whole scans.scanned.ends
  refine ⟨?_, fun same => unfinished (same ▸ List.prefix_refl _), level.depth, moved⟩
  have early := within.trans (List.prefix_append _ [.finish (size source.toList)])
  exact (List.prefix_or_prefix_of_prefix early scans.scanned.within).resolve_right unfinished

/-- The scan comes to a turn behind each of its tokens but the last. -/
theorem visits (scans : Scans source p scope) (boundary : p.cursor.Over source)
    (sound : p.cursor.Sound) {taken : List Token} {nesting : Nat} (early : taken <+: scope)
    (proper : taken ≠ scope) (counted : openings taken = closings taken + nesting) :
    Visits source scopeTurn scopeLast ([], 0) p (taken, nesting) (p.given taken) := by
  have scanned := scans.scanned
  induction taken using List.reverseRecOn generalizing nesting with
  | nil =>
    obtain rfl : nesting = 0 := by simpa [openings, closings] using counted.symm
    rw [Pass.given_nil]
    exact .start
  | append_singleton taken t ih =>
    have before : taken <+: scope := (List.prefix_append _ _).trans early
    have shorter : taken ≠ scope := by
      rintro rfl
      exact absurd early.length_le (by simp)
    obtain ⟨depth, level⟩ := Nat.exists_eq_add_of_le (scanned.nested taken before shorter)
    have here := ih before shorter level
    have state := Scanning.of_visits boundary sound here
    have reached := early.trans scanned.within
    -- A turn that stops would have stopped the scan behind this token.
    have open' : ¬ Final (taken ++ [t]) := fun stops => proper
      ((scanned.shortest _ reached stops).eq_of_length_le early.length_le).symm
    have turned := scope_turned boundary sound state.within depth
    generalize ran : (turnOf source scopeTurn scopeLast (taken, depth)).run (p.given taken) = turn
      at turned
    cases turned with
    | @closes s rest left closed outer =>
      subst outer
      rw [left] at reached
      obtain rfl : t = s := by simpa using reached
      exact absurd (.inl (state.level.unmatched closed)) open'
    | @goes s rest left inside =>
      have later := (state.step boundary sound ran).1.level.depth
      rw [left] at reached
      obtain rfl : t = s := by simpa using reached
      obtain rfl : nesting = t.kind.nest depth := by
        dsimp only at later
        omega
      exact .turn here ran
    | ends left =>
      subst left
      obtain rfl : t = _ := by simpa using reached
      exact absurd (state.level.scanned_finish rfl).ends open'

end Scans

/-- A scan of a scope: what it takes of the tokens that are left, where it leaves the run, how its
counter stands at each of its turns, and which block of the walk it reads. -/
structure ReadsScope (source : String) (p : Pass) (scope : List Token) (q : Pass) : Prop where
  scanned : Scanned (p.cursor.tokens ++ [.finish (size source.toList)]) scope
  moved : q = p.given scope
  behind : ∀ last ∈ scope.getLast?, q.cursor.offset = last.stop
  left : q.cursor.tokens = p.cursor.tokens.drop scope.length
  visited : ∀ taken nesting r,
    Visits source scopeTurn scopeLast ([], 0) p (taken, nesting) r ↔
      taken <+: scope ∧ taken ≠ scope ∧ openings taken = closings taken + nesting ∧
        r = p.given taken
  lowered : ∀ now r t nesting r', Visits source scopeTurn scopeLast ([], 0) p now r →
    (turnOf source scopeTurn scopeLast now).run r = (.ok (.inl (now.1 ++ [t], nesting)), r') →
    t.kind = .rightBrace → now.2 = nesting + 1
  read : ∀ body close, scope = body ++ [close] →
    Block.read (size source.toList) (Outline.significant p.cursor.tokens) =
      if close.kind = .rightBrace then
        .ok ⟨Outline.significant body, close, Outline.significant q.cursor.tokens⟩
      else .error (.mismatch .rightBrace close)

/-- Wherever a run stands in a source, it can scan a scope. -/
theorem scope_reads (source : String) (p : Pass) (n : Nat) :
    let here : Pass := { p with cursor := (Cursor.start source).ahead n }
    ∃ scope q, (Pull.scope source).run here = (.ok scope, q) ∧ ReadsScope source here scope q := by
  intro here
  have boundary : here.cursor.Over source := (Cursor.over_start source).ahead n
  have sound : here.cursor.Sound := Cursor.ahead_sound (Cursor.start_sound source) n
  obtain ⟨scope, q, ran, scans, rfl⟩ := scope_scans boundary sound
  refine ⟨scope, _, ran, scans.scanned, rfl, scans.behind boundary sound,
    Cursor.tokens_ahead sound scope.length, fun taken nesting r => ⟨?_, ?_⟩, ?_, ?_⟩
  · exact scans.visited boundary sound
  · rintro ⟨early, proper, counted, rfl⟩
    exact scans.visits boundary sound early proper counted
  · intro now r t nesting r' visit turned closed
    have state := Scanning.of_visits boundary sound visit
    exact (state.step boundary sound turned).2 t rfl closed
  · rintro body close rfl
    exact scans.read sound

end Pull

end ShaderDef
