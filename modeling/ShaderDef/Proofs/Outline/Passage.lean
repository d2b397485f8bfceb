import ShaderDef.Proofs.Grammar.Recognize
import ShaderDef.Proofs.Outline.Once
import ShaderDef.Proofs.Outline.Telling

/-! Passages: how a walk comes to the code of a stage that it tells. What stands before the code is
read without it and what stands behind it is read on its own, so the code can be exchanged. -/

namespace ShaderDef

open Grammar

def Event.stage? : Event → Option Stage
  | .code stage _ _ => some stage
  | _ => none

/-- An event of a sequence is told in its first part or in its second. -/
theorem Reading.events_bind_split {α β : Type} {r : Reading α} {next : α → Reading β} {e : Event}
    {before after : List Event} (split : (r >>= next).events = before ++ e :: after) :
    (∃ behind, r.events = before ++ e :: behind) ∨
      ∃ a front, r.result = .ok a ∧ before = r.events ++ front ∧
        (next a).events = front ++ e :: after := by
  cases outcome : r.result with
  | error fault =>
    rw [bind_of_error next outcome] at split
    exact .inl ⟨after, split⟩
  | ok a =>
    rw [bind_of_ok next outcome] at split
    rcases List.append_eq_append_iff.1 split with ⟨front, first, second⟩ | ⟨tail, first, second⟩
    · exact .inr ⟨a, front, rfl, first, second⟩
    · cases tail with
      | nil => exact .inr ⟨a, [], rfl, by simpa using first.symm, by simpa using second.symm⟩
      | cons e' behind =>
        obtain ⟨rfl, _⟩ := List.cons.inj second
        exact .inl ⟨behind, first⟩

namespace Outline

variable {size start stop : Nat} {scope : Scope} {stage : Stage} {t : Token}
  {ts seg : List Token} {events : List Event}

theorem topStep_tells_no_code (size : Nat) (t : Token) (ts : List Token) :
    (topStep size t ts).Tells fun e => e.stage? = none := by
  unfold topStep
  split
  · exact goOn_tells (declare_tells rfl (name_tells (fun _ => rfl) size ts))
  · exact enter_tells size _ ts
  · exact goOn_tells (declare_tells rfl (bindings_tells (fun _ => by rfl) size _ ts))
  · exact goOn_tells (declare_tells rfl (bindings_tells (fun _ => by rfl) size _ ts))
  · exact enter_tells size _ ts
  · exact Reading.tells_lift _

theorem bindingsStep_tells_no_code (size : Nat) (t : Token) (ts : List Token) :
    (bindingsStep size t ts).Tells fun e => e.stage? = none :=
  bindingsStep_tells (fun _ => rfl) (fun _ => rfl) size t ts

theorem code_of_shaderStep (told : .code stage start stop ∈ (shaderStep size t ts).events) :
    t.kind = stage.keyword ∧ .code stage start stop ∈ (code size stage ts).events := by
  unfold shaderStep at told
  split at told
  · rename_i other known
    have within : .code stage start stop ∈ (code size other ts).events := by
      simpa [goOn, declare, Reading.mem_events_bind] using told
    have tells : (code size other ts).Tells fun e => e.stage? = some other :=
      code_tells (fun _ _ => rfl) size ts
    obtain rfl : stage = other := Option.some.inj (tells _ within)
    exact ⟨Stage.ofKeyword?_eq_some.1 known, within⟩
  · split at told
    · simp at told
    · have entered : (entrypoints size ts).Tells fun e => e.stage? = none :=
        entrypoints_tells (fun _ _ => rfl) (fun _ _ => rfl) size ts
      have none := goOn_tells entered _ told
      simp [Event.stage?] at none
    · simp at told

/-- Only a step from the keyword of a stage tells its code. -/
theorem code_of_step (told : .code stage start stop ∈ (step size scope t ts).events) :
    scope = .shader ∧ t.kind = stage.keyword ∧
      .code stage start stop ∈ (code size stage ts).events := by
  unfold step at told
  split at told
  · simp at told
  · cases scope with
    | top =>
      have none := topStep_tells_no_code size t ts _ told
      simp [Event.stage?] at none
    | bindings =>
      have none := bindingsStep_tells_no_code size t ts _ told
      simp [Event.stage?] at none
    | shader => exact ⟨rfl, code_of_shaderStep told⟩

/-- Code is told where its braces have been read. -/
theorem raw_of_code (told : .code stage start stop ∈ (code size stage (significant ts)).events) :
    ∃ gap body brace close rest, ts = gap ++ (body ++ close :: rest) ∧
      Terminal .leftBrace gap brace ∧ Raw body ∧ close.kind = .rightBrace ∧
      start = brace.index + 1 ∧ stop = close.index := by
  rcases Reading.mem_events_bind.1 told with none | ⟨⟨brace, behind⟩, taken, told⟩
  · simp at none
  rcases Reading.mem_events_bind.1 told with none | ⟨b, found, told⟩
  · simp at none
  have place : start = brace.index + 1 ∧ stop = b.close.index := by
    simpa [Reading.mem_events_bind] using told
  obtain ⟨gap, _, rfl, entered, rfl⟩ := terminal_of_take taken
  obtain ⟨body, rest, rfl, _, nested, closed, _, allowed⟩ := block_of_read found
  have native : ∀ s ∈ body, s.kind ≠ .invalid := by
    intro s inside foreign
    have counts : s ∈ significant body :=
      List.mem_filter.2 ⟨inside, by simp [foreign, Token.Kind.isComment]⟩
    simpa [foreign] using allowed s counts
  exact ⟨gap, body, brace, b.close, rest, rfl, entered, ⟨balanced_iff.2 nested, native⟩, closed,
    place⟩

theorem Moves.walks {source : String} {scope' : Scope} (moves : Moves source scope seg scope') :
    ∃ events, Walks scope scope' seg events := by
  cases moves with
  | whole part =>
    obtain ⟨events, walked, _⟩ := section_walks part
    exact ⟨events, walked⟩
  | enterBindings opened front =>
    exact ⟨[], walks_enter opened rfl (step_bindingsKeyword (kind_of_terminal opened)) front⟩
  | enterShader opened front =>
    exact ⟨[], walks_enter opened rfl (step_shaderKeyword (kind_of_terminal opened)) front⟩
  | bindings part =>
    obtain ⟨events, walked, _⟩ := bindings_walks source part
    exact ⟨events, walked⟩
  | shader part =>
    obtain ⟨events, walked, _⟩ := shader_walks part
    exact ⟨events, walked⟩
  | leave inside closed =>
    exact ⟨[], walks_leave closed (step_rightBrace inside (kind_of_terminal closed))⟩

/-- What a walk over some tokens tells lies within them. -/
theorem Walks.within {n : Nat} {scope' : Scope} (walked : Walks scope scope' seg events)
    (bound : ∀ t ∈ seg, t.index ≤ n) :
    List.Forall₂ (Event.Alike fun i j => i = j ∧ j ≤ n) events events := by
  have inside : List.Forall₂ (Token.Alike fun i j => i = j ∧ j ≤ n) (significant seg)
      (significant seg) :=
    List.forall₂_same.2 fun t counts =>
      ⟨rfl, fun _ => rfl, rfl, bound t (List.mem_filter.1 counts).1⟩
  have alike := (walk_alike scope ⟨rfl, Nat.le_refl n⟩ inside).events
  have none : (finish n scope').events = [] := by cases scope' <;> rfl
  have whole := walked n []
  rw [List.append_nil, walk_nil, Reading.bind_of_ok _ rfl] at whole
  rwa [whole, none, List.append_nil] at alike

/-- What a successful step tells is told whatever follows the tokens that it takes. -/
theorem step_walks {scope' : Scope} {front rest : List Token} (opened : Terminal t.kind front t)
    (counts : significant front = [t])
    (goes : (step size scope t (significant ts)).result = .ok (scope', rest)) :
    ∃ seg ts', ts = seg ++ ts' ∧ rest = significant ts' ∧ Moves "" scope (front ++ seg) scope' ∧
      Walks scope scope' (front ++ seg) (step size scope t (significant ts)).events := by
  obtain ⟨seg, ts', rfl, moves, rfl⟩ := step_moves "" opened goes
  obtain ⟨events, walked⟩ := moves.walks
  have whole := congrArg Reading.events (walked size (significant ts'))
  rw [significant_append, counts, List.append_assoc, ← significant_append, List.singleton_append,
    walk_cons, Reading.bind_of_ok _ goes, Reading.bind_of_ok _ rfl] at whole
  rw [List.append_cancel_right whole]
  exact ⟨seg, ts', rfl, rfl, moves, walked⟩

/-- The code of a stage among the tokens from a scope on, with what comes before and behind. -/
structure Passage (scope : Scope) (stage : Stage) (ts : List Token) where
  front : List Token
  told : List Event
  walks : Walks scope .shader front told
  head : List Token
  keyword : Token
  opened : Terminal stage.keyword head keyword
  gap : List Token
  brace : Token
  entered : Terminal .leftBrace gap brace
  body : List Token
  raw : Raw body
  close : Token
  closed : close.kind = .rightBrace
  rest : List Token
  split : ts = front ++ (head ++ (gap ++ (body ++ close :: rest)))

def Passage.prepend {scope' : Scope} (walked : Walks scope scope' seg events)
    (p : Passage scope' stage ts) : Passage scope stage (seg ++ ts) :=
  { p with
    front := seg ++ p.front
    told := events ++ p.told
    walks := walked.append p.walks
    split := by rw [List.append_assoc, ← p.split] }

/-- A step that tells code tells of its keyword before. -/
theorem passage_of_step {front : List Token} (opened : Terminal t.kind front t)
    (told : .code stage start stop ∈ (step size scope t (significant ts)).events) :
    (step size scope t (significant ts)).events =
      [.opens (.code stage) t.index, .code stage start stop] ∧
    ∃ p : Passage scope stage (front ++ ts), p.told = [] ∧ p.keyword = t ∧
      start = p.brace.index + 1 ∧ stop = p.close.index := by
  obtain ⟨rfl, kind, within⟩ := code_of_step told
  obtain ⟨gap, body, brace, close, rest, rfl, entered, raw, closed, rfl, rfl⟩ := raw_of_code within
  constructor
  · have read : code size stage _ = _ := code_raw stage entered raw closed (significant rest)
    rw [step_stage kind, List.append_cons, ← List.append_assoc, significant_append, read]
    rfl
  · exact ⟨⟨[], [], walks_nil .shader, front, t, kind ▸ opened, gap, brace, entered, body, raw,
      close, closed, rest, rfl⟩, rfl, rfl, rfl, rfl⟩

/-- Where a walk tells code, it has come there by what stands before the keyword. -/
theorem exists_passage {before after : List Event}
    (told : (walk size scope (significant ts)).events =
      before ++ .code stage start stop :: after) :
    ∃ p : Passage scope stage ts, before = p.told ++ [.opens (.code stage) p.keyword.index] ∧
      start = p.brace.index + 1 ∧ stop = p.close.index := by
  induction length : ts.length using Nat.strongRecOn generalizing ts scope before with
  | _ n ih =>
    cases found : significant ts with
    | nil =>
      rw [found, walk_nil] at told
      cases scope <;> simp [finish, Fault.mismatch] at told
    | cons t more =>
      have solid : t.kind.isComment = false := by
        have counts : t ∈ significant ts := by simp [found]
        simpa using (List.mem_filter.1 counts).2
      rw [found, walk_cons] at told
      obtain ⟨front, ts', rfl, opened, rfl⟩ := significant_eq_cons found
      have counts := significant_terminal opened solid
      rcases Reading.events_bind_split told with ⟨behind, here⟩ | ⟨next, later, goes, rfl, there⟩
      · have inside : .code stage start stop ∈ (step size scope t (significant ts')).events := by
          simp [here]
        obtain ⟨events, p, none, rfl, places⟩ := passage_of_step opened inside
        refine ⟨p, ?_, places⟩
        have lengths := congrArg List.length here
        rw [events] at here lengths
        obtain _ | ⟨first, _ | ⟨second, more⟩⟩ := before
        · simp at here
        · rw [none, (List.cons.inj here).1]
          rfl
        · simp at lengths
      · obtain ⟨scope', rest⟩ := next
        obtain ⟨seg, ts₂, rfl, rfl, _, walked⟩ := step_walks opened counts goes
        have shorter : ts₂.length < n := by
          obtain ⟨_, _⟩ := opened
          simp at length
          omega
        obtain ⟨p, rfl, places⟩ := ih _ shorter there rfl
        rw [← List.append_assoc]
        exact ⟨p.prepend walked, by simp [Passage.prepend], places⟩

/-- The outline of tokens that a walk goes over first, and of those behind them. -/
theorem ofTokens_of_walks (walked : Walks .top scope seg events)
    (kept : (once [] events).result = .ok ()) (size : Nat) (ts : List Token) :
    ofTokens size (seg ++ ts) =
      (⟨events, .ok ()⟩ : Reading Unit) >>= fun _ =>
        once (Event.items events).reverse (walk size scope (significant ts)).events >>= fun _ =>
          Reading.lift (walk size scope (significant ts)).result := by
  have whole : walk size .top (significant (seg ++ ts)) =
      ⟨events ++ (walk size scope (significant ts)).events,
        (walk size scope (significant ts)).result⟩ := by
    rw [significant_append, walked]
    exact Reading.bind_of_ok _ rfl
  rw [ofTokens, whole]
  simp only [once_append kept, List.append_nil, Reading.bind_assoc]

def Passage.trail (p : Passage scope stage ts) (closing : Nat) : List Event :=
  p.told ++ [.opens (.code stage) p.keyword.index, .code stage (p.brace.index + 1) closing]

theorem Passage.walks_code {body : List Token} {close : Token} (p : Passage scope stage ts)
    (raw : Raw body) (closed : close.kind = .rightBrace) :
    Walks scope .shader (p.front ++ (p.head ++ (p.gap ++ (body ++ [close]))))
      (p.trail close.index) :=
  p.walks.append (code_walks stage p.opened p.entered raw closed)

theorem Passage.items_trail (p : Passage scope stage ts) (closing : Nat) :
    Event.items (p.trail closing) = Event.items p.told ++ [.code stage] := by
  rw [Passage.trail, Event.items_append]
  rfl

def Passage.later (p : Passage .top stage ts) (size : Nat) (rest : List Token) : Reading Unit := do
  let all := walk size .shader (significant rest)
  once (Event.items p.told ++ [Item.code stage]).reverse all.events
  .lift all.result

/-- The outline with any code between the braces. -/
theorem Passage.outline {body : List Token} {close : Token} (p : Passage .top stage ts)
    (raw : Raw body) (closed : close.kind = .rightBrace)
    (kept : (once [] (p.trail close.index)).result = .ok ()) (size : Nat) (rest : List Token) :
    ofTokens size (p.front ++ (p.head ++ (p.gap ++ (body ++ close :: rest)))) =
      (⟨p.trail close.index, .ok ()⟩ : Reading Unit) >>= fun _ => p.later size rest := by
  have split : p.front ++ (p.head ++ (p.gap ++ (body ++ close :: rest))) =
      p.front ++ (p.head ++ (p.gap ++ (body ++ [close]))) ++ rest := by simp
  rw [split, ofTokens_of_walks (p.walks_code raw closed) kept, p.items_trail]
  rfl

/-- Code that an outline holds is that of a passage, and no item is opened twice up to it. -/
theorem passage_of_ofTokens (told : .code stage start stop ∈ (ofTokens size ts).events) :
    ∃ p : Passage .top stage ts, start = p.brace.index + 1 ∧ stop = p.close.index ∧
      ∀ closing, (once [] (p.trail closing)).result = .ok () := by
  obtain ⟨more, whole, kept⟩ := once_front [] (walk size .top (significant ts)).events
  have inside : .code stage start stop ∈
      (once [] (walk size .top (significant ts)).events).events := by
    simpa [ofTokens, Reading.mem_events_bind] using told
  obtain ⟨before, after, split⟩ := List.append_of_mem inside
  rw [split] at whole kept
  rw [List.append_assoc, List.cons_append] at whole
  obtain ⟨p, rfl, first, last⟩ := exists_passage whole
  refine ⟨p, first, last, fun closing => ?_⟩
  obtain ⟨single, _⟩ := once_eq_ok_iff.1 kept
  rw [Event.items_append] at single
  have front := (List.nodup_append.1 single).1
  rw [Event.items_append] at front
  refine once_eq_ok_iff.2 ⟨?_, by simp⟩
  rw [p.items_trail]
  exact front

end Outline

end ShaderDef
