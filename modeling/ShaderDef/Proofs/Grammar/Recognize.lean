import ShaderDef.Proofs.Grammar.Accept

/-! What is accepted has a derivation. Each reader that succeeds has taken a segment which the
grammar derives, and the walk through a whole source puts the segments together. -/

namespace ShaderDef

open Grammar

theorem Token.require_eq_ok {expected : Kind} {t : Token} {u : Unit} :
    t.require expected = .ok u ↔ t.kind = expected := by
  unfold require
  split <;> simp_all

theorem Token.requireSlot_eq_ok {t : Token} {u : Unit} :
    t.requireSlot = .ok u ↔ t.kind = .symbol ∨ t.kind = .numberLiteral := by
  unfold requireSlot
  split
  · simp_all
  · rename_i other
    simp [Token.require_eq_ok, other]

theorem Except.bind_eq_ok {ε α β : Type} {x : Except ε α} {f : α → Except ε β} {b : β} :
    x >>= f = .ok b ↔ ∃ a, x = .ok a ∧ f a = .ok b := by
  cases x with
  | error fault => simp [bind, Except.bind]
  | ok a => simp [bind, Except.bind]

theorem Except.bind_eq_error {ε α β : Type} {x : Except ε α} {f : α → Except ε β} {e : ε} :
    x >>= f = .error e ↔ x = .error e ∨ ∃ a, x = .ok a ∧ f a = .error e := by
  cases x with
  | error fault => simp [bind, Except.bind]
  | ok a => simp [bind, Except.bind]

theorem Grammar.Program.prepend {source : String} {seg ts : List Token} {ds es : List Declaration}
    (part : Section source seg ds) (program : Program source ts es) :
    Program source (seg ++ ts) (ds ++ es) := by
  obtain ⟨sections, comments⟩ := program
  rw [← List.append_assoc]
  exact .intro (.cons part sections) comments

namespace Outline

variable {size : Nat} {kind : Token.Kind} {ts rest : List Token} {t : Token}

theorem significant_eq_cons (found : significant ts = t :: rest) :
    ∃ seg ts', ts = seg ++ ts' ∧ Terminal t.kind seg t ∧ significant ts' = rest := by
  obtain ⟨gap, ts', rfl, comments, _, rfl⟩ := List.filter_eq_cons_iff.1 found
  refine ⟨gap ++ [t], ts', by simp, ⟨fun c member => ?_, rfl⟩, rfl⟩
  simpa using comments c member

theorem comments_of_significant (none : significant ts = []) :
    ∀ c ∈ ts, c.kind.isComment = true := by
  simpa using List.filter_eq_nil_iff.1 none

theorem take_eq_ok (taken : take size kind ts = .ok (t, rest)) :
    ts = t :: rest ∧ t.kind = kind := by
  cases ts with
  | nil => simp [take] at taken
  | cons head more =>
    obtain ⟨_, met, same⟩ := Except.bind_eq_ok.1 taken
    obtain ⟨rfl, rfl⟩ : head = t ∧ more = rest := by simpa [pure, Except.pure] using same
    exact ⟨rfl, Token.require_eq_ok.1 met⟩

theorem terminal_of_take (taken : take size kind (significant ts) = .ok (t, rest)) :
    ∃ seg ts', ts = seg ++ ts' ∧ Terminal kind seg t ∧ rest = significant ts' := by
  obtain ⟨found, same⟩ := take_eq_ok taken
  obtain ⟨seg, ts', rfl, terminal, rfl⟩ := significant_eq_cons found
  exact ⟨seg, ts', rfl, same ▸ terminal, rfl⟩

/-- A block found among the tokens that count is a block among all tokens. -/
theorem block_of_read {bad : Token.Kind → Bool} {b : Block}
    (found : Block.read size (significant ts) >>= Block.refuse bad = .ok b) :
    ∃ body ts', ts = body ++ b.close :: ts' ∧ b.body = significant body ∧ Nested 0 body ∧
      b.close.kind = .rightBrace ∧ b.rest = significant ts' ∧
      ∀ t ∈ significant body, bad t.kind = false := by
  obtain ⟨c, read, kept⟩ := Except.bind_eq_ok.1 found
  obtain ⟨rfl, allowed⟩ := Block.refuse_eq_ok.1 kept
  have halves := Block.read_eq_ok.1 read
  rw [significant, Block.split_filter] at halves
  obtain ⟨front, behind⟩ := Prod.mk.inj halves
  have whole := Block.split_append 0 ts
  cases split : (Block.split 0 ts).2 with
  | nil => simp [split] at behind
  | cons close ts' =>
    obtain ⟨nested, closed⟩ := Block.nested_of_split (Prod.ext rfl split)
    have solid : close.kind.isComment = false := by rw [closed]; rfl
    rw [split, List.filter_cons_of_pos (by simp [solid])] at behind
    obtain ⟨rfl, rest⟩ := List.cons.inj behind
    rw [split] at whole
    exact ⟨_, ts', whole.symm, front.symm, nested, closed, rest.symm,
      fun t member => allowed t (front ▸ member)⟩

theorem bound_of_ofTokens {type name colon slot semicolon : Token} {b : Binding}
    (ok : Binding.ofTokens type name colon slot semicolon = .ok b) :
    (type.kind = .symbol ∧ name.kind = .symbol ∧ colon.kind = .colon ∧
      (slot.kind = .symbol ∨ slot.kind = .numberLiteral) ∧ semicolon.kind = .semicolon) ∧
      b = ⟨type.text, name.text, slot.text⟩ := by
  obtain ⟨_, typed, ok⟩ := Except.bind_eq_ok.1 ok
  obtain ⟨_, named, ok⟩ := Except.bind_eq_ok.1 ok
  obtain ⟨_, divided, ok⟩ := Except.bind_eq_ok.1 ok
  obtain ⟨_, placed, ok⟩ := Except.bind_eq_ok.1 ok
  obtain ⟨_, ended, ok⟩ := Except.bind_eq_ok.1 ok
  simp only [pure, Except.pure, Except.ok.injEq] at ok
  exact ⟨⟨Token.require_eq_ok.1 typed, Token.require_eq_ok.1 named,
    Token.require_eq_ok.1 divided, Token.requireSlot_eq_ok.1 placed,
    Token.require_eq_ok.1 ended⟩, ok.symm⟩

theorem star_of_listOfTokens {label : String} {bs : List Binding}
    (ok : Binding.listOfTokens label (significant ts) = .ok bs) :
    ∃ items gap, ts = items ++ gap ∧ Star Bound items bs ∧
      ∀ c ∈ gap, c.kind.isComment = true := by
  generalize found : significant ts = toks at ok
  induction toks using Binding.listOfTokens.induct generalizing ts bs with
  | case1 type name colon slot semicolon more ih =>
    obtain ⟨b, first, ok⟩ := Except.bind_eq_ok.1 ok
    obtain ⟨others, later, same⟩ := Except.bind_eq_ok.1 ok
    simp only [pure, Except.pure, Except.ok.injEq] at same
    obtain ⟨⟨typed, named, divided, placed, ended⟩, rfl⟩ := bound_of_ofTokens first
    obtain ⟨s₁, _, rfl, t₁, found⟩ := significant_eq_cons found
    obtain ⟨s₂, _, rfl, t₂, found⟩ := significant_eq_cons found
    obtain ⟨s₃, _, rfl, t₃, found⟩ := significant_eq_cons found
    obtain ⟨s₄, _, rfl, t₄, found⟩ := significant_eq_cons found
    obtain ⟨s₅, rest, rfl, t₅, found⟩ := significant_eq_cons found
    obtain ⟨items, gap, rfl, star, comments⟩ := ih found later
    have slots : Terminal .symbol s₄ slot ∨ Terminal .numberLiteral s₄ slot := by
      rcases placed with symbol | number
      · exact .inl (symbol ▸ t₄)
      · exact .inr (number ▸ t₄)
    have bound := Bound.intro (typed ▸ t₁) (named ▸ t₂) (divided ▸ t₃) slots (ended ▸ t₅)
    refine ⟨(s₁ ++ (s₂ ++ (s₃ ++ (s₄ ++ s₅)))) ++ items, gap, by simp, ?_, comments⟩
    rw [← same]
    exact .cons bound star
  | case2 =>
    obtain rfl : [] = bs := by simpa [Binding.listOfTokens] using ok
    exact ⟨[], ts, rfl, .nil, comments_of_significant found⟩
  | case3 head more _ => simp [Binding.listOfTokens] at ok

theorem star_of_entries {close : Token} (closed : close.kind = .rightBrace)
    (ok : (entries close (significant ts)).result = .ok ()) :
    ∃ items gap ds, ts = items ++ gap ∧ Star Entered items ds ∧
      ∀ c ∈ gap, c.kind.isComment = true := by
  generalize found : significant ts = toks at ok
  induction toks using entries.induct close generalizing ts with
  | case1 => exact ⟨[], ts, [], rfl, .nil, comments_of_significant found⟩
  | case2 head more unknown =>
    rw [entries] at ok
    simp [unknown] at ok
  | case3 head more point known ih =>
    rw [entries] at ok
    simp only [known] at ok
    obtain ⟨_, _, ok⟩ := Reading.bind_eq_ok.1 ok
    obtain ⟨_, named, ok⟩ := Reading.bind_eq_ok.1 ok
    obtain ⟨_, ended, ok⟩ := Reading.bind_eq_ok.1 ok
    obtain ⟨_, _, ok⟩ := Reading.bind_eq_ok.1 ok
    have named := Token.require_eq_ok.1 named
    have ended := Token.require_eq_ok.1 ended
    have opened := Entry.ofKeyword?_eq_some.1 known
    -- The closing brace stands in for a missing token, and is of neither kind.
    rcases more with _ | ⟨text, _ | ⟨semicolon, more⟩⟩
    · simp [closed] at named
    · simp [closed] at ended
    · obtain ⟨s₁, _, rfl, t₁, found⟩ := significant_eq_cons found
      obtain ⟨s₂, _, rfl, t₂, found⟩ := significant_eq_cons found
      obtain ⟨s₃, rest, rfl, t₃, found⟩ := significant_eq_cons found
      obtain ⟨items, gap, ds, rfl, star, comments⟩ := ih found ok
      have entered := Entered.intro point (opened ▸ t₁) (named ▸ t₂) (ended ▸ t₃)
      exact ⟨(s₁ ++ (s₂ ++ s₃)) ++ items, gap, _, by simp, .cons entered star, comments⟩

theorem braced_of_bindings {label : String} {event : List Binding → Event}
    (ok : (bindings size label event (significant ts)).result = .ok rest) :
    ∃ seg ts' list, ts = seg ++ ts' ∧ Braced (Star Bound) seg list ∧ rest = significant ts' := by
  obtain ⟨⟨brace, behind⟩, taken, ok⟩ := Reading.bind_eq_ok.1 ok
  obtain ⟨block, closed, ok⟩ := Reading.bind_eq_ok.1 ok
  obtain ⟨list, listed, ok⟩ := Reading.bind_eq_ok.1 ok
  obtain ⟨_, _, done⟩ := Reading.bind_eq_ok.1 ok
  obtain ⟨front, _, rfl, opened, rfl⟩ := terminal_of_take taken
  obtain ⟨body, ts', rfl, within, _, right, behind, _⟩ := block_of_read closed
  rw [Reading.result_lift, within] at listed
  obtain ⟨items, gap, rfl, star, comments⟩ := star_of_listOfTokens listed
  have last : Terminal .rightBrace (gap ++ [block.close]) block.close := ⟨comments, right⟩
  refine ⟨front ++ (items ++ (gap ++ [block.close])), ts', list, by simp, ⟨opened, star, last⟩, ?_⟩
  rw [← behind]
  simpa using done.symm

theorem braced_of_entrypoints (ok : (entrypoints size (significant ts)).result = .ok rest) :
    ∃ seg ts' ds, ts = seg ++ ts' ∧ Braced (Star Entered) seg ds ∧ rest = significant ts' := by
  obtain ⟨⟨brace, behind⟩, taken, ok⟩ := Reading.bind_eq_ok.1 ok
  obtain ⟨block, closed, ok⟩ := Reading.bind_eq_ok.1 ok
  obtain ⟨_, listed, done⟩ := Reading.bind_eq_ok.1 ok
  obtain ⟨front, _, rfl, opened, rfl⟩ := terminal_of_take taken
  obtain ⟨body, ts', rfl, within, _, right, behind, _⟩ := block_of_read closed
  rw [within] at listed
  obtain ⟨items, gap, ds, rfl, star, comments⟩ := star_of_entries right listed
  have last : Terminal .rightBrace (gap ++ [block.close]) block.close := ⟨comments, right⟩
  refine ⟨front ++ (items ++ (gap ++ [block.close])), ts', ds, by simp, ⟨opened, star, last⟩, ?_⟩
  rw [← behind]
  simpa using done.symm

theorem section_of_name {front : List Token} (source : String)
    (opened : Terminal .nameKeyword front t)
    (ok : (name size (significant ts)).result = .ok rest) :
    ∃ seg ts' ds, ts = seg ++ ts' ∧ Section source (front ++ seg) ds ∧ rest = significant ts' := by
  obtain ⟨⟨text, behind⟩, first, ok⟩ := Reading.bind_eq_ok.1 ok
  obtain ⟨⟨semicolon, after⟩, second, ok⟩ := Reading.bind_eq_ok.1 ok
  obtain ⟨_, _, done⟩ := Reading.bind_eq_ok.1 ok
  obtain ⟨s₂, _, rfl, named, rfl⟩ := terminal_of_take first
  obtain ⟨s₃, ts', rfl, ended, rfl⟩ := terminal_of_take second
  exact ⟨s₂ ++ s₃, ts', _, by simp, .name opened named ended, by simpa using done.symm⟩

theorem bindings_of_uniforms {front : List Token} (opened : Terminal .uniformsKeyword front t)
    (ok : (uniforms size (significant ts)).result = .ok rest) :
    ∃ seg ts' ds, ts = seg ++ ts' ∧ Bindings (front ++ seg) ds ∧ rest = significant ts' := by
  obtain ⟨⟨text, behind⟩, taken, ok⟩ := Reading.bind_eq_ok.1 ok
  obtain ⟨s₂, _, rfl, named, rfl⟩ := terminal_of_take taken
  obtain ⟨s₃, ts', list, rfl, listed, same⟩ := braced_of_bindings ok
  exact ⟨s₂ ++ s₃, ts', _, by simp, .uniforms opened named listed, same⟩

theorem shader_of_code {stage : Stage} {front : List Token} (source : String)
    (opened : Terminal stage.keyword front t)
    (ok : (code size stage (significant ts)).result = .ok rest) :
    ∃ seg ts' ds, ts = seg ++ ts' ∧ Shader source (front ++ seg) ds ∧ rest = significant ts' := by
  obtain ⟨⟨brace, behind⟩, taken, ok⟩ := Reading.bind_eq_ok.1 ok
  obtain ⟨block, closed, ok⟩ := Reading.bind_eq_ok.1 ok
  obtain ⟨_, _, done⟩ := Reading.bind_eq_ok.1 ok
  obtain ⟨s₂, _, rfl, entered, rfl⟩ := terminal_of_take taken
  obtain ⟨body, ts', rfl, within, nested, right, behind, allowed⟩ := block_of_read closed
  have native : ∀ t ∈ body, t.kind ≠ .invalid := by
    intro t member foreign
    have counts : t ∈ significant body :=
      List.mem_filter.2 ⟨member, by simp [foreign, Token.Kind.isComment]⟩
    exact beq_eq_false_iff_ne.1 (allowed t counts) foreign
  refine ⟨s₂ ++ (body ++ [block.close]), ts', _, by simp,
    .code stage opened entered ⟨balanced_iff.2 nested, native⟩ right, ?_⟩
  rw [← behind]
  simpa using done.symm

inductive Moves (source : String) : Scope → List Token → Scope → Prop
  | whole {seg : List Token} {ds : List Declaration} (part : Section source seg ds) :
      Moves source .top seg .top
  | enterBindings {s₁ s₂ : List Token} {keyword brace : Token}
      (opened : Terminal .bindingsKeyword s₁ keyword) (front : Terminal .leftBrace s₂ brace) :
      Moves source .top (s₁ ++ s₂) .bindings
  | enterShader {s₁ s₂ : List Token} {keyword brace : Token}
      (opened : Terminal .shaderKeyword s₁ keyword) (front : Terminal .leftBrace s₂ brace) :
      Moves source .top (s₁ ++ s₂) .shader
  | bindings {seg : List Token} {ds : List Declaration} (part : Bindings seg ds) :
      Moves source .bindings seg .bindings
  | shader {seg : List Token} {ds : List Declaration} (part : Shader source seg ds) :
      Moves source .shader seg .shader
  | leave {scope : Scope} {seg : List Token} {close : Token} (inside : scope ≠ .top)
      (closed : Terminal .rightBrace seg close) : Moves source scope seg .top

theorem goOn_eq_ok {scope scope' : Scope} {read : Reading (List Token)}
    (ok : (goOn scope read).result = .ok (scope', rest)) :
    scope' = scope ∧ read.result = .ok rest := by
  obtain ⟨left, done, same⟩ := Reading.bind_eq_ok.1 ok
  simp only [Reading.result_pure, Except.ok.injEq, Prod.mk.injEq] at same
  exact ⟨same.1.symm, same.2 ▸ done⟩

theorem declare_eq_ok {item : Item} {read : Reading (List Token)}
    (ok : (declare item t read).result = .ok rest) : read.result = .ok rest := by
  obtain ⟨_, _, done⟩ := Reading.bind_eq_ok.1 ok
  exact done

theorem enter_eq_ok {scope scope' : Scope}
    (ok : (enter size scope (significant ts)).result = .ok (scope', rest)) :
    scope' = scope ∧ ∃ seg ts' brace,
      ts = seg ++ ts' ∧ Terminal .leftBrace seg brace ∧ rest = significant ts' := by
  obtain ⟨⟨brace, behind⟩, taken, done⟩ := Reading.bind_eq_ok.1 ok
  obtain ⟨seg, ts', rfl, entered, rfl⟩ := terminal_of_take taken
  simp only [Reading.result_pure, Except.ok.injEq, Prod.mk.injEq] at done
  exact ⟨done.1.symm, seg, ts', brace, rfl, entered, done.2.symm⟩

theorem topStep_moves {scope' : Scope} {front : List Token} (source : String)
    (opened : Terminal t.kind front t)
    (ok : (topStep size t (significant ts)).result = .ok (scope', rest)) :
    ∃ seg ts', ts = seg ++ ts' ∧ Moves source .top (front ++ seg) scope' ∧
      rest = significant ts' := by
  unfold topStep at ok
  split at ok
  · rename_i same
    obtain ⟨rfl, done⟩ := goOn_eq_ok ok
    obtain ⟨seg, ts', ds, rfl, part, behind⟩ :=
      section_of_name source (same ▸ opened) (declare_eq_ok done)
    exact ⟨seg, ts', rfl, .whole part, behind⟩
  · rename_i same
    obtain ⟨rfl, seg, ts', brace, rfl, entered, behind⟩ := enter_eq_ok ok
    exact ⟨seg, ts', rfl, .enterBindings (same ▸ opened) entered, behind⟩
  · rename_i same
    obtain ⟨rfl, done⟩ := goOn_eq_ok ok
    obtain ⟨seg, ts', list, rfl, listed, behind⟩ := braced_of_bindings (declare_eq_ok done)
    exact ⟨seg, ts', rfl, .whole (.input (same ▸ opened) listed), behind⟩
  · rename_i same
    obtain ⟨rfl, done⟩ := goOn_eq_ok ok
    obtain ⟨seg, ts', list, rfl, listed, behind⟩ := braced_of_bindings (declare_eq_ok done)
    exact ⟨seg, ts', rfl, .whole (.pixelInput (same ▸ opened) listed), behind⟩
  · rename_i same
    obtain ⟨rfl, seg, ts', brace, rfl, entered, behind⟩ := enter_eq_ok ok
    exact ⟨seg, ts', rfl, .enterShader (same ▸ opened) entered, behind⟩
  · simp at ok

theorem leave_moves {scope scope' : Scope} {front : List Token} (source : String)
    (inside : scope ≠ .top) (closed : Terminal .rightBrace front t)
    (ok : (pure (Scope.top, significant ts) : Reading (Scope × List Token)).result =
      .ok (scope', rest)) :
    ∃ seg ts', ts = seg ++ ts' ∧ Moves source scope (front ++ seg) scope' ∧
      rest = significant ts' := by
  simp only [Reading.result_pure, Except.ok.injEq, Prod.mk.injEq] at ok
  obtain ⟨rfl, rfl⟩ := ok
  refine ⟨[], ts, rfl, ?_, rfl⟩
  rw [List.append_nil]
  exact .leave inside closed

theorem bindingsStep_moves {scope' : Scope} {front : List Token} (source : String)
    (opened : Terminal t.kind front t)
    (ok : (bindingsStep size t (significant ts)).result = .ok (scope', rest)) :
    ∃ seg ts', ts = seg ++ ts' ∧ Moves source .bindings (front ++ seg) scope' ∧
      rest = significant ts' := by
  unfold bindingsStep at ok
  split at ok
  · rename_i same
    exact leave_moves source (by decide) (same ▸ opened) ok
  · rename_i same
    obtain ⟨rfl, done⟩ := goOn_eq_ok ok
    obtain ⟨seg, ts', ds, rfl, part, behind⟩ := bindings_of_uniforms (same ▸ opened) done
    exact ⟨seg, ts', rfl, .bindings part, behind⟩
  · rename_i same
    obtain ⟨rfl, done⟩ := goOn_eq_ok ok
    obtain ⟨seg, ts', list, rfl, listed, behind⟩ := braced_of_bindings done
    exact ⟨seg, ts', rfl, .bindings (.textures (same ▸ opened) listed), behind⟩
  · simp at ok

theorem shaderStep_moves {scope' : Scope} {front : List Token} (source : String)
    (opened : Terminal t.kind front t)
    (ok : (shaderStep size t (significant ts)).result = .ok (scope', rest)) :
    ∃ seg ts', ts = seg ++ ts' ∧ Moves source .shader (front ++ seg) scope' ∧
      rest = significant ts' := by
  unfold shaderStep at ok
  split at ok
  · rename_i stage known
    obtain ⟨rfl, done⟩ := goOn_eq_ok ok
    obtain ⟨seg, ts', ds, rfl, part, behind⟩ :=
      shader_of_code source (Stage.ofKeyword?_eq_some.1 known ▸ opened) (declare_eq_ok done)
    exact ⟨seg, ts', rfl, .shader part, behind⟩
  · split at ok
    · rename_i same
      exact leave_moves source (by decide) (same ▸ opened) ok
    · rename_i same
      obtain ⟨rfl, done⟩ := goOn_eq_ok ok
      obtain ⟨seg, ts', ds, rfl, listed, behind⟩ := braced_of_entrypoints done
      exact ⟨seg, ts', rfl, .shader (.entrypoint (same ▸ opened) listed), behind⟩
    · simp at ok

theorem step_moves {scope scope' : Scope} {front : List Token} (source : String)
    (opened : Terminal t.kind front t)
    (ok : (step size scope t (significant ts)).result = .ok (scope', rest)) :
    ∃ seg ts', ts = seg ++ ts' ∧ Moves source scope (front ++ seg) scope' ∧
      rest = significant ts' := by
  unfold step at ok
  split at ok
  · simp at ok
  · cases scope with
    | top => exact topStep_moves source opened ok
    | bindings => exact bindingsStep_moves source opened ok
    | shader => exact shaderStep_moves source opened ok

/-- What may still come in a scope: the rest of its parts, its closing brace, and a program. -/
def Rest (source : String) (P : List Token → List Declaration → Prop) (ts : List Token) : Prop :=
  ∃ items parts tail close behind ds, ts = items ++ (tail ++ behind) ∧ Star P items parts ∧
    Terminal .rightBrace tail close ∧ Program source behind ds

def Remains (source : String) : Scope → List Token → Prop
  | .top, ts => ∃ ds, Program source ts ds
  | .bindings, ts => Rest source Bindings ts
  | .shader, ts => Rest source (Shader source) ts

theorem Rest.prepend {source : String} {P : List Token → List Declaration → Prop}
    {seg : List Token} {ds : List Declaration} (part : P seg ds) (remains : Rest source P ts) :
    Rest source P (seg ++ ts) := by
  obtain ⟨items, parts, tail, close, behind, es, rfl, star, closed, program⟩ := remains
  exact ⟨seg ++ items, ds :: parts, tail, close, behind, es, by simp, .cons part star, closed,
    program⟩

theorem Rest.leave {source : String} {P : List Token → List Declaration → Prop}
    {seg : List Token} {close : Token} {ds : List Declaration}
    (closed : Terminal .rightBrace seg close) (program : Program source ts ds) :
    Rest source P (seg ++ ts) :=
  ⟨[], [], seg, close, ts, ds, rfl, .nil, closed, program⟩

theorem Moves.remains {source : String} {scope scope' : Scope} {seg : List Token}
    (moves : Moves source scope seg scope') (remains : Remains source scope' ts) :
    Remains source scope (seg ++ ts) := by
  cases moves with
  | whole part =>
    obtain ⟨ds, program⟩ := remains
    exact ⟨_, program.prepend part⟩
  | enterBindings opened front =>
    obtain ⟨items, parts, tail, close, behind, ds, rfl, star, closed, program⟩ := remains
    have part : Section source _ _ := .bindings opened ⟨front, star, closed⟩
    refine ⟨parts.flatten ++ ds, ?_⟩
    simpa using program.prepend part
  | enterShader opened front =>
    obtain ⟨items, parts, tail, close, behind, ds, rfl, star, closed, program⟩ := remains
    have part := Section.shader opened ⟨front, star, closed⟩
    refine ⟨parts.flatten ++ ds, ?_⟩
    simpa using program.prepend part
  | bindings part => exact Rest.prepend part remains
  | shader part => exact Rest.prepend part remains
  | leave inside closed =>
    obtain ⟨ds, program⟩ := remains
    cases scope with
    | top => exact absurd rfl inside
    | bindings => exact Rest.leave closed program
    | shader => exact Rest.leave closed program

/-- The tokens of a successful walk are what may come in its scope. -/
theorem remains_of_walk {scope : Scope} (source : String)
    (ok : (walk size scope (significant ts)).result = .ok ()) : Remains source scope ts := by
  induction length : ts.length using Nat.strongRecOn generalizing ts scope with
  | _ n ih =>
    cases found : significant ts with
    | nil =>
      rw [found, walk_nil] at ok
      cases scope with
      | top => exact ⟨_, .intro .nil (comments_of_significant found)⟩
      | bindings => simp [finish] at ok
      | shader => simp [finish] at ok
    | cons t more =>
      rw [found, walk_cons] at ok
      obtain ⟨⟨scope', behind⟩, stepped, ok⟩ := Reading.bind_eq_ok.1 ok
      obtain ⟨front, ts₁, rfl, opened, rfl⟩ := significant_eq_cons found
      obtain ⟨seg, ts', rfl, moves, rfl⟩ := step_moves source opened stepped
      have shorter : ts'.length < n := by
        obtain ⟨_, _⟩ := opened
        simp at length
        omega
      rw [← List.append_assoc]
      exact moves.remains (ih _ shorter ok rfl)

/-- A source is read to its end exactly if the grammar derives its tokens. -/
theorem walk_eq_ok_iff (source : String) (size : Nat) :
    (walk size .top (significant ts)).result = .ok () ↔ ∃ ds, Program source ts ds := by
  refine ⟨remains_of_walk source, fun ⟨ds, program⟩ => ?_⟩
  obtain ⟨events, walked, _⟩ := program_walks program
  rw [walked.end]

end Outline

end ShaderDef
