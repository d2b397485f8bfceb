import ShaderDef.Proofs.OnePass.Pull
import ShaderDef.Proofs.Outline.Course

/-! How one pass follows the outline of a source. A run stands at a place of the walk: it has been
given the tokens before it, holds what the events before it declare, and what is left to read is
what the walk reads from there. Each part of a run goes from such a place to another one, or stops
with the fault that the compiler reports. -/

namespace ShaderDef

open Text Outline
open Event (items completed)

variable {α β σ : Type} {source : String} {p q : Pass} {t : Token} {ts : List Token}

namespace Definition

variable {d : Definition} {e : Event} {item : Item}

theorem shows_of_sameAt {d' : Definition} (same : d.SameAt d' item) :
    d.shows item = d'.shows item := by
  cases item with
  | name => exact congrArg Option.isSome same
  | code stage => exact congrArg Option.isSome same
  | entry point => exact congrArg Option.isSome same
  | _ => rfl

theorem shows_assign (declares : e.item? = some item) (listed : item ≠ .input)
    (listed' : item ≠ .pixelInput) : (assign source d e).shows item = true := by
  cases e with
  | name text =>
    obtain rfl := Option.some.inj declares
    rfl
  | code stage start stop =>
    obtain rfl := Option.some.inj declares
    simp [assign, shows, withCode, Sources.code_withCode]
  | entry point text =>
    obtain rfl := Option.some.inj declares
    cases point <;> rfl
  | input list => exact absurd (Option.some.inj declares).symm listed
  | pixelInput list => exact absurd (Option.some.inj declares).symm listed'
  | _ => cases declares

/-- What shows in a definition is what has been declared. -/
theorem shows_assigned {told : List Event} (listed : item ≠ .input) (listed' : item ≠ .pixelInput) :
    (assigned source told).shows item = true ↔ item ∈ completed told := by
  induction told using List.reverseRecOn with
  | nil =>
    have nothing : (assigned source []).shows item = false := by
      cases item with
      | code stage => cases stage <;> rfl
      | entry point => cases point <;> rfl
      | _ => rfl
    simp [nothing, completed]
  | append_singleton told e ih =>
    rw [assigned_concat, Event.completed_append, List.mem_append]
    by_cases declares : e.item? = some item
    · simp [shows_assign declares listed listed', completed, declares]
    · rw [shows_of_sameAt (assign_sameAt declares), ih]
      simp [completed, declares]

end Definition

namespace Pass

structure At (source : String) (p : Pass) (ts : List Token) : Prop where
  boundary : p.cursor.Over source
  sound : p.cursor.Sound
  tokens : p.cursor.tokens = ts
  received : p.received ++ ts = Token.ofSource source

structure Holds (source : String) (p : Pass) (told : List Event) : Prop where
  definition : p.definition = .assigned source told
  input : p.input = true ↔ .input ∈ items told
  pixelInput : p.pixelInput = true ↔ .pixelInput ∈ items told

structure Same (p q : Pass) : Prop where
  definition : p.definition = q.definition
  input : p.input = q.input
  pixelInput : p.pixelInput = q.pixelInput

theorem At.stream (here : p.At source ts) : p.received <+: Token.stream source := by
  rw [Token.stream, ← here.received, List.append_assoc]
  exact List.prefix_append _ _

theorem at_start (source : String) :
    ({ cursor := .start source } : Pass).At source (Token.ofSource source) :=
  ⟨Cursor.over_start source, Cursor.start_sound source, rfl, rfl⟩

theorem Holds.of_same {told : List Event} (holds : p.Holds source told) (same : q.Same p) :
    q.Holds source told :=
  ⟨same.definition.trans holds.definition, same.input ▸ holds.input,
    same.pixelInput ▸ holds.pixelInput⟩

end Pass

open Pass (At Same)

namespace Outline

/-- The walk over a source has told some events, no item among them opened twice, and goes on. -/
structure Follows (source : String) (told : List Event) (left : Reading Unit) : Prop where
  kept : (once [] told).result = .ok ()
  whole : walk (size source.toList) .top (significant (Token.ofSource source)) =
    (⟨told, .ok ()⟩ : Reading Unit) >>= fun _ => left

variable {told : List Event} {left : Reading Unit} {k : α → Reading Unit} {e : Event} {item : Item}
  {index : Nat} {fault : Fault}

theorem follows_start (source : String) :
    Follows source [] (walk (size source.toList) .top (significant (Token.ofSource source))) :=
  ⟨rfl, (Reading.pure_bind () fun _ => _).symm⟩

theorem Follows.walk_eq (follows : Follows source told left) :
    walk (size source.toList) .top (significant (Token.ofSource source)) =
      ⟨told ++ left.events, left.result⟩ :=
  follows.whole.trans (Reading.bind_of_ok _ rfl)

theorem Follows.fails (follows : Follows source told (.fail fault)) :
    compile source = .error fault := by
  refine compile_eq_error.2 ?_
  rw [ofSource, ofTokens, follows.walk_eq]
  simp only [Reading.events_fail, List.append_nil, once_of_ok follows.kept]
  rfl

theorem Follows.fails_lift {result : Except Fault α}
    (follows : Follows source told (.lift result >>= k)) (stopped : result = .error fault) :
    compile source = .error fault := by
  rw [stopped, Reading.lift_error_bind] at follows
  exact follows.fails

theorem Follows.lift {result : Except Fault α} {a : α}
    (follows : Follows source told (.lift result >>= k)) (done : result = .ok a) :
    Follows source told (k a) := by
  rwa [done, Reading.lift_ok_bind] at follows

theorem Follows.tell {k : Unit → Reading Unit} (follows : Follows source told (.emit e >>= k))
    (kept : (once [] (told ++ [e])).result = .ok ()) :
    Follows source (told ++ [e]) (k ()) := by
  refine ⟨kept, ?_⟩
  rw [follows.walk_eq, Reading.bind_of_ok _ rfl, Reading.bind_of_ok _ rfl]
  simp

theorem Follows.plain {k : Unit → Reading Unit} (follows : Follows source told (.emit e >>= k))
    (plain : e.opened? = none) : Follows source (told ++ [e]) (k ()) := by
  refine follows.tell (once_eq_ok_iff.2 ?_)
  rw [Event.items_concat_plain plain]
  exact once_eq_ok_iff.1 follows.kept

theorem Follows.opens {k : Unit → Reading Unit}
    (follows : Follows source told (.emit (.opens item index) >>= k)) (fresh : item ∉ items told) :
    Follows source (told ++ [.opens item index]) (k ()) := by
  refine follows.tell (once_eq_ok_iff.2 ⟨?_, by simp⟩)
  rw [Event.items_concat_opens, List.nodup_append]
  refine ⟨(once_eq_ok_iff.1 follows.kept).1, List.nodup_singleton item, ?_⟩
  rintro other known _ last rfl
  exact fresh (List.mem_singleton.1 last ▸ known)

theorem Follows.again {k : Unit → Reading Unit}
    (follows : Follows source told (.emit (.opens item index) >>= k)) (again : item ∈ items told) :
    compile source = .error ⟨.alreadySet item.label, index⟩ := by
  refine compile_eq_error.2 (ofTokens_of_again follows.kept again ?_)
  rw [follows.walk_eq, Reading.bind_of_ok _ rfl]
  exact ⟨(k ()).events, List.append_assoc ..⟩

theorem Follows.done (follows : Follows source told (pure ())) :
    compile source = .ok (.ofEvents source told) := by
  have outline : ofSource source = ⟨told, .ok ()⟩ := by
    rw [ofSource, ofTokens, follows.walk_eq]
    simp only [Reading.events_pure, List.append_nil, once_of_ok follows.kept]
    rw [Reading.bind_of_ok _ rfl]
    simp
  rw [compile_eq_ok, outline]
  exact ⟨rfl, rfl⟩

end Outline

open Outline (Follows)

structure Pass.Stands (source : String) (p : Pass) (ts : List Token) (told : List Event)
    (left : Reading Unit) : Prop extends p.At source ts, p.Holds source told where
  follows : Follows source told left

theorem Pass.Stands.move {told : List Event} {left : Reading Unit} {rest : List Token}
    (here : p.Stands source ts told left) (there : q.At source rest) (same : q.Same p) :
    q.Stands source rest told left :=
  ⟨there, here.toHolds.of_same same, here.follows⟩

theorem Pass.Stands.go {told : List Event} {left left' : Reading Unit}
    (here : p.Stands source ts told left) (follows : Follows source told left') :
    p.Stands source ts told left' :=
  ⟨here.toAt, here.toHolds, follows⟩

namespace Pull

/-- What a part of a run comes to. It stops only with the fault that the compiler reports, and
never takes a wrong slice. -/
def Ends (source : String) (f : Pull α) (p : Pass) (ok : α → Pass → Prop) : Prop :=
  match f.run p with
  | (.ok a, q) => ok a q
  | (.error (.fault fault), q) =>
    compile source = .error fault ∧ q.received <+: Token.stream source
  | (.error (.breach _), _) => False

variable {f : Pull α} {ok : α → Pass → Prop} {fault : Fault}

theorem ends_of_run {a : α} (ran : f.run p = (.ok a, q)) (holds : ok a q) : f.Ends source p ok := by
  rw [Ends, ran]
  exact holds

theorem Ends.imp {ok' : α → Pass → Prop} (ends : f.Ends source p ok)
    (follows : ∀ a q, ok a q → ok' a q) : f.Ends source p ok' := by
  unfold Ends at ends ⊢
  split
  · rename_i a q ran
    rw [ran] at ends
    exact follows a q ends
  · rename_i fault q ran
    rwa [ran] at ends
  · rename_i breach q ran
    rwa [ran] at ends

theorem Ends.bind {next : α → Pull β} {ok' : β → Pass → Prop} (first : f.Ends source p ok)
    (second : ∀ a q, ok a q → (next a).Ends source q ok') : (f >>= next).Ends source p ok' := by
  unfold Ends at first
  split at first
  · rename_i a q ran
    have later := second a q first
    unfold Ends at later ⊢
    rwa [run_bind_of_ok next ran]
  · rename_i fault q ran
    rw [Ends, run_bind_of_error next ran]
    exact first
  · exact first.elim

theorem ends_pure {a : α} (holds : ok a p) : (pure a : Pull α).Ends source p ok :=
  ends_of_run rfl holds

theorem ends_fail (reported : compile source = .error fault)
    (given : p.received <+: Token.stream source) : (fail fault : Pull α).Ends source p ok :=
  ⟨reported, given⟩

theorem ends_stop {result : Except Fault α} (stopped : result = .error fault)
    (reported : compile source = .error fault) (given : p.received <+: Token.stream source) :
    (lift result).Ends source p ok := by
  rw [stopped]
  exact ⟨reported, given⟩

theorem Ends.lift {told : List Event} {result : Except Fault α} {k : α → Reading Unit}
    {next : α → Pull β} {ok : β → Pass → Prop} (here : p.Stands source ts told (.lift result >>= k))
    (goes : ∀ a, result = .ok a → p.Stands source ts told (k a) → (next a).Ends source p ok) :
    (lift result >>= next).Ends source p ok := by
  cases outcome : result with
  | error fault => exact ⟨here.follows.fails_lift outcome, here.toAt.stream⟩
  | ok a => exact goes a outcome (here.go (here.follows.lift outcome))

theorem Ends.check {result : Except Breach α} {a : α} {next : α → Pull β} {ok : β → Pass → Prop}
    (safe : result = .ok a) (goes : (next a).Ends source p ok) :
    (check result >>= next).Ends source p ok := by
  rw [safe]
  exact goes

theorem next_run (here : p.At source (t :: ts)) :
    ∃ q, (next source).run p = (.ok t, q) ∧ q.At source ts ∧ q.Same p ∧
      q.received = p.received ++ [t] ∧ t.isEnd = false := by
  obtain ⟨rfl, more, rest⟩ := Cursor.tokens_eq_cons here.tokens
  have given := Cursor.next?_eq here.boundary here.sound
  refine ⟨{ p with cursor := p.cursor.next.2, received := p.received ++ [p.cursor.next.1] }, ?_,
    ⟨here.boundary.next, Cursor.next_sound here.sound, rest, ?_⟩, ⟨rfl, rfl, rfl⟩, rfl, more⟩
  · simp only [next, given]
  · simpa using here.received

theorem next_run_end (here : p.At source []) :
    ∃ q, (next source).run p = (.ok (.finish (size source.toList)), q) ∧ q.Same p ∧
      q.received = Token.stream source := by
  have last := Cursor.isEnd_of_tokens_eq_nil here.tokens
  have given := Cursor.next?_eq here.boundary here.sound
  have finish := Cursor.next_eq_finish here.sound last
  rw [here.boundary.reach] at finish
  have received := here.received
  rw [List.append_nil] at received
  refine ⟨{ p with cursor := p.cursor.next.2, received := p.received ++ [p.cursor.next.1] }, ?_,
    ⟨rfl, rfl, rfl⟩, ?_⟩
  · simp only [next, given, finish]
  · rw [finish, received, Token.stream]

section Loops

variable {turn : σ → Token → Pull (σ ⊕ α)} {last : σ → Token → Except Fault α}

def Turns (source : String) (inv : σ → List Token → Pass → Prop) (state : σ) (p : Pass) : Prop :=
  ∃ ts, p.At source ts ∧ inv state ts p

theorem ends_turnOf {inv : σ → List Token → Pass → Prop} {state : σ}
    (goes : ∀ t ts p q, inv state (t :: ts) p → q.At source ts → q.Same p →
      q.received = p.received ++ [t] →
      (turn state t).Ends source q fun out r => out.elim (Turns source inv · r) (ok · r))
    (stops : ∀ p q, inv state [] p → q.Same p → q.received = Token.stream source →
      (lift (last state (.finish (size source.toList)))).Ends source q ok)
    (here : Turns source inv state p) :
    (turnOf source turn last state).Ends source p fun out r =>
      out.elim (Turns source inv · r) (ok · r) := by
  obtain ⟨ts, here, holds⟩ := here
  cases ts with
  | nil =>
    obtain ⟨q, ran, same, received⟩ := next_run_end here
    have ended := stops p q holds same received
    unfold Ends at ended ⊢
    rw [turnOf, run_bind_of_ok _ ran]
    cases outcome : last state (.finish (size source.toList)) with
    | error fault => simpa [lift, outcome, Except.map, Except.mapError] using ended
    | ok a => simpa [lift, outcome, Except.map, Except.mapError] using ended
  | cons t ts =>
    obtain ⟨q, ran, there, same, received, more⟩ := next_run here
    have turned := goes t ts p q holds there same received
    unfold Ends at turned ⊢
    rw [turnOf, run_bind_of_ok _ ran, if_neg (by simp [more])]
    exact turned

/-- What one turn preserves holds up to the end of a loop. -/
theorem ends_loop (inv : σ → List Token → Pass → Prop)
    (goes : ∀ state t ts p q, inv state (t :: ts) p → q.At source ts → q.Same p →
      q.received = p.received ++ [t] →
      (turn state t).Ends source q fun out r => out.elim (Turns source inv · r) (ok · r))
    (stops : ∀ state p q, inv state [] p → q.Same p → q.received = Token.stream source →
      (lift (last state (.finish (size source.toList)))).Ends source q ok)
    {state : σ} (here : Turns source inv state p) :
    (loop source turn last state).Ends source p ok := by
  -- A turn that goes on has taken a token, so less of the source is left behind it.
  induction length : p.cursor.rest.length using Nat.strongRecOn generalizing state p with
  | _ n ih =>
    have turned := ends_turnOf (goes state) (stops state) here
    have run := loopFrom_eq source turn last state p
    change (loop source turn last state).run p = _ at run
    unfold Ends at turned ⊢
    rw [run]
    rcases ran : (turnOf source turn last state).run p with ⟨(fault | breach) | later | a, q⟩
    · rwa [ran] at turned
    · rwa [ran] at turned
    · rw [ran] at turned
      exact ih _ (length ▸ turnOf_shorter ran) turned rfl
    · rwa [ran] at turned

end Loops

end Pull

end ShaderDef
