import ShaderDef.Outline.Scope
import ShaderDef.Proofs.Grammar.Braces

/-! What the grammar derives is accepted: each reader, given the tokens of a derivation and more,
takes just these and tells their declarations, and so does the walk. -/

namespace ShaderDef

open Grammar

def Event.declared? (source : String) : Event → Option Declaration
  | .opens .. => none
  | .name text => some (.name text)
  | .uniforms buffer => some (.uniforms buffer)
  | .textures list => some (.textures list)
  | .input list => some (.input list)
  | .pixelInput list => some (.pixelInput list)
  | .code stage start stop =>
    some (.code stage (String.ofList (Text.slice start stop source.toList)))
  | .entry point text => some (.entry point text)

def Event.keyword? : Event → Option (Token.Kind × Nat)
  | .opens item index => some (item.keyword, index)
  | _ => none

/-- The events of a segment complete these declarations, and open the items of these and no others,
by keywords of the segment in their order. -/
structure Event.Trace (source : String) (seg : List Token) (events : List Event)
    (ds : List Declaration) : Prop where
  declared : events.filterMap (Event.declared? source) = ds
  opened : events.filterMap Event.opened? = ds.filterMap Declaration.item?
  keywords : (events.filterMap Event.keyword?).Sublist (seg.map Token.key)

namespace Event

variable {source : String} {seg seg' : List Token} {events events' : List Event}
  {ds ds' : List Declaration}

theorem Trace.nil : Trace source [] [] [] :=
  ⟨rfl, rfl, List.Sublist.slnil⟩

theorem Trace.append (front : Trace source seg events ds)
    (behind : Trace source seg' events' ds') :
    Trace source (seg ++ seg') (events ++ events') (ds ++ ds') where
  declared := by rw [List.filterMap_append, front.declared, behind.declared]
  opened := by rw [List.filterMap_append, front.opened, behind.opened, List.filterMap_append]
  keywords := by
    rw [List.filterMap_append, List.map_append]
    exact front.keywords.append behind.keywords

theorem Trace.widen (trace : Trace source seg events ds) (within : seg.Sublist seg') :
    Trace source seg' events ds :=
  ⟨trace.declared, trace.opened, trace.keywords.trans (within.map Token.key)⟩

theorem Trace.within (trace : Trace source seg events ds) (front rest : List Token) :
    Trace source (front ++ (seg ++ rest)) events ds :=
  trace.widen ((List.sublist_append_left seg rest).trans (List.sublist_append_right front _))

theorem keyword_sublist {kind : Token.Kind} {t : Token} (terminal : Terminal kind seg t)
    (rest : List Token) : [(kind, t.index)].Sublist ((seg ++ rest).map Token.key) := by
  obtain ⟨_, rfl⟩ := terminal
  exact List.singleton_sublist.2 (by simp [Token.key])

end Event

namespace Outline

variable {size : Nat} {kind : Token.Kind} {ts seg gap : List Token} {t : Token}

@[simp] theorem significant_append (ss ts : List Token) :
    significant (ss ++ ts) = significant ss ++ significant ts :=
  List.filter_append ..

theorem significant_cons (solid : t.kind.isComment = false) (ts : List Token) :
    significant (t :: ts) = t :: significant ts :=
  List.filter_cons_of_pos (by simp [solid])

theorem significant_cons_comment (comment : t.kind.isComment = true) (ts : List Token) :
    significant (t :: ts) = significant ts :=
  List.filter_cons_of_neg (by simp [comment])

theorem significant_comments (comments : ∀ c ∈ gap, c.kind.isComment = true) :
    significant gap = [] := by
  rw [significant, List.filter_eq_nil_iff]
  simpa using comments

theorem significant_terminal (terminal : Terminal kind seg t) (solid : kind.isComment = false) :
    significant seg = [t] := by
  obtain ⟨comments, rfl⟩ := terminal
  rw [significant_append, significant_comments comments]
  simp [significant, solid]

theorem kind_of_terminal (terminal : Terminal kind seg t) : t.kind = kind := by
  obtain ⟨_, same⟩ := terminal
  exact same

theorem take_of_kind (same : t.kind = kind) (rest : List Token) :
    take size kind (t :: rest) = .ok (t, rest) := by
  rw [take, Token.require, if_pos same]
  rfl

theorem take_terminal (terminal : Terminal kind seg t) (solid : kind.isComment = false)
    (rest : List Token) : take size kind (significant seg ++ rest) = .ok (t, rest) := by
  rw [significant_terminal terminal solid, List.singleton_append,
    take_of_kind (kind_of_terminal terminal)]

def Quiet (ts : List Token) : Prop :=
  ∀ t ∈ ts, t.kind ≠ .leftBrace ∧ t.kind ≠ .rightBrace ∧ t.kind.isInvalid = false

theorem Quiet.nested (quiet : Quiet ts) : Nested 0 ts := by
  induction ts with
  | nil => exact nested_nil.2 rfl
  | cons t ts ih =>
    obtain ⟨left, right, _⟩ := quiet t List.mem_cons_self
    rw [nested_cons, Token.Kind.nest_other 0 left right]
    exact ⟨fun wrong => right wrong.1, ih fun s member => quiet s (List.mem_cons_of_mem t member)⟩

theorem declarations_quiet {close : Token} (quiet : Quiet ts) (closed : close.kind = .rightBrace)
    (rest : List Token) :
    Block.declarations size (ts ++ close :: rest) = .ok ⟨ts, close, rest⟩ := by
  have found := Block.split_of_nested rest quiet.nested closed
  have read : Block.read size (ts ++ close :: rest) = .ok ⟨ts, close, rest⟩ :=
    Block.read_eq_ok.2 found
  have kept : Block.refuse Token.Kind.isInvalid ⟨ts, close, rest⟩ = .ok ⟨ts, close, rest⟩ :=
    Block.refuse_eq_ok.2 ⟨rfl, fun t member => (quiet t member).2.2⟩
  rw [Block.declarations, read]
  exact kept

theorem Quiet.append {ss ts : List Token} (front : Quiet ss) (behind : Quiet ts) :
    Quiet (ss ++ ts) := by
  intro t member
  rcases List.mem_append.1 member with first | second
  · exact front t first
  · exact behind t second

theorem Quiet.terminal (terminal : Terminal kind seg t) (solid : kind.isComment = false)
    (plain : kind ≠ .leftBrace ∧ kind ≠ .rightBrace ∧ kind.isInvalid = false) :
    Quiet (significant seg) := by
  rw [significant_terminal terminal solid]
  intro s member
  rw [List.mem_singleton.1 member, kind_of_terminal terminal]
  exact plain

theorem Quiet.star {α : Type} {P : List Token → α → Prop} {as : List α}
    (each : ∀ seg a, P seg a → Quiet (significant seg)) (star : Star P seg as) :
    Quiet (significant seg) := by
  induction star with
  | nil => exact fun t member => by simp [significant] at member
  | cons head _ ih =>
    rw [significant_append]
    exact (each _ _ head).append ih

theorem bound_quiet {b : Binding} (bound : Bound seg b) : Quiet (significant seg) := by
  obtain ⟨typed, named, divided, placed, ended⟩ := bound
  simp only [significant_append]
  apply (Quiet.terminal typed rfl (by decide)).append
  apply (Quiet.terminal named rfl (by decide)).append
  apply (Quiet.terminal divided rfl (by decide)).append
  refine Quiet.append ?_ (Quiet.terminal ended rfl (by decide))
  rcases placed with symbol | number
  · exact Quiet.terminal symbol rfl (by decide)
  · exact Quiet.terminal number rfl (by decide)

theorem entered_quiet {d : Declaration} (entered : Entered seg d) : Quiet (significant seg) := by
  obtain ⟨entry, opened, named, ended⟩ := entered
  simp only [significant_append]
  refine Quiet.append ?_ ((Quiet.terminal named rfl (by decide)).append
    (Quiet.terminal ended rfl (by decide)))
  cases entry with
  | vertex => exact Quiet.terminal opened rfl (by decide)
  | fragment => exact Quiet.terminal opened rfl (by decide)

theorem listOfTokens_bound {b : Binding} (label : String) (bound : Bound seg b)
    (rest : List Token) :
    Binding.listOfTokens label (significant seg ++ rest) =
      (Binding.listOfTokens label rest).map (b :: ·) := by
  obtain ⟨typed, named, divided, placed, ended⟩ := bound
  rename_i s₁ s₂ s₃ s₄ s₅ type name colon slot semicolon
  have slots : slot.requireSlot = .ok () := by
    rcases placed with symbol | number
    · simp [Token.requireSlot, Token.require, kind_of_terminal symbol]
    · simp [Token.requireSlot, kind_of_terminal number]
  have spelled : significant s₄ = [slot] := by
    rcases placed with symbol | number
    · exact significant_terminal symbol rfl
    · exact significant_terminal number rfl
  have whole : Binding.ofTokens type name colon slot semicolon =
      .ok ⟨type.text, name.text, slot.text⟩ := by
    simp [Binding.ofTokens, Token.require, kind_of_terminal typed, kind_of_terminal named,
      kind_of_terminal divided, kind_of_terminal ended, slots, bind, Except.bind, pure, Except.pure]
  simp only [significant_append, significant_terminal typed rfl, significant_terminal named rfl,
    significant_terminal divided rfl, spelled, significant_terminal ended rfl,
    List.cons_append, List.nil_append, Binding.listOfTokens, whole]
  cases Binding.listOfTokens label rest with
  | error fault => rfl
  | ok bs => rfl

theorem listOfTokens_star {bs : List Binding} (label : String) (star : Star Bound seg bs) :
    Binding.listOfTokens label (significant seg) = .ok bs := by
  induction star with
  | nil => rfl
  | cons head _ ih =>
    rw [significant_append, listOfTokens_bound label head, ih]
    rfl

theorem bindings_braced {bs : List Binding} (label : String) (event : List Binding → Event)
    (braced : Braced (Star Bound) seg bs) (rest : List Token) :
    bindings size label event (significant seg ++ rest) = ⟨[event bs], .ok rest⟩ := by
  obtain ⟨opened, inside, closed⟩ := braced
  have quiet := Quiet.star (fun _ _ => bound_quiet) inside
  simp only [significant_append, List.append_assoc, bindings, take_terminal opened rfl,
    Reading.lift_ok_bind, significant_terminal closed rfl, List.singleton_append,
    declarations_quiet quiet (kind_of_terminal closed), listOfTokens_star label inside]
  rfl

theorem entries_entered {d : Declaration} (source : String) (close : Token)
    (entered : Entered seg d) (rest : List Token) :
    ∃ events, entries close (significant seg ++ rest) =
      (⟨events, .ok ()⟩ : Reading Unit) >>= (fun _ => entries close rest) ∧
      Event.Trace source seg events [d] := by
  obtain ⟨entry, opened, named, ended⟩ := entered
  rename_i keyword text semicolon
  have solid : entry.keyword.isComment = false := by cases entry <;> rfl
  have known := Entry.ofKeyword?_eq_some.2 (kind_of_terminal opened)
  refine ⟨[.opens (.entry entry) keyword.index, .entry entry text.text], ?_, rfl, rfl,
    Event.keyword_sublist opened _⟩
  simp only [significant_append, significant_terminal opened solid,
    significant_terminal named rfl, significant_terminal ended rfl, List.nil_append,
    List.cons_append]
  rw [entries]
  simp only [known, List.headD_cons, List.tail_cons, Token.require,
    kind_of_terminal named, kind_of_terminal ended, if_true, Reading.lift_ok_bind]
  rfl

theorem entries_star {ds : List Declaration} (source : String) (close : Token)
    (star : Star Entered seg ds) (rest : List Token) :
    ∃ events, entries close (significant seg ++ rest) =
      (⟨events, .ok ()⟩ : Reading Unit) >>= (fun _ => entries close rest) ∧
      Event.Trace source seg events ds := by
  induction star with
  | nil => exact ⟨[], (Reading.pure_bind () fun _ => entries close rest).symm, .nil⟩
  | cons head _ ih =>
    obtain ⟨later, read, trace⟩ := ih
    obtain ⟨first, entered, told⟩ := entries_entered source close head _
    refine ⟨first ++ later, ?_, told.append trace⟩
    rw [significant_append, List.append_assoc, entered, read, ← Reading.bind_assoc]
    rfl

theorem entrypoints_braced {ds : List Declaration} (source : String)
    (braced : Braced (Star Entered) seg ds) :
    ∃ events, (∀ size rest, entrypoints size (significant seg ++ rest) = ⟨events, .ok rest⟩) ∧
      Event.Trace source seg events ds := by
  obtain ⟨opened, inside, closed⟩ := braced
  rename_i close
  have quiet := Quiet.star (fun _ _ => entered_quiet) inside
  obtain ⟨events, read, trace⟩ := entries_star source close inside []
  rw [List.append_nil, entries, Reading.bind_of_ok _ rfl] at read
  refine ⟨events, fun size rest => ?_, trace.within _ _⟩
  simp only [significant_append, List.append_assoc, entrypoints, take_terminal opened rfl,
    Reading.lift_ok_bind, significant_terminal closed rfl, List.singleton_append,
    declarations_quiet quiet (kind_of_terminal closed), read]
  rw [Reading.bind_of_ok _ rfl]
  simp

theorem code_raw {brace close : Token} {body : List Token} (stage : Stage)
    (front : Terminal .leftBrace seg brace) (raw : Raw body) (closed : close.kind = .rightBrace)
    (rest : List Token) :
    code size stage (significant (seg ++ (body ++ [close])) ++ rest) =
      ⟨[.code stage (brace.index + 1) close.index], .ok rest⟩ := by
  have nested := Block.nested_filter (balanced_iff.1 raw.balanced)
  have kept : significant [close] = [close] := by
    simp [significant, closed, Token.Kind.isComment]
  have read : Block.read size (significant body ++ close :: rest) =
      .ok ⟨significant body, close, rest⟩ :=
    Block.read_eq_ok.2 (Block.split_of_nested rest nested closed)
  have allowed : Block.refuse (· == .invalid) ⟨significant body, close, rest⟩ =
      .ok ⟨significant body, close, rest⟩ := by
    refine Block.refuse_eq_ok.2 ⟨rfl, fun t member => ?_⟩
    exact beq_eq_false_iff_ne.2 (raw.native t (List.mem_filter.1 member).1)
  have block : Block.code size (significant body ++ close :: rest) =
      .ok ⟨significant body, close, rest⟩ := by
    rw [Block.code, read]
    exact allowed
  simp only [significant_append, List.append_assoc, kept, List.singleton_append, code,
    take_terminal front rfl, Reading.lift_ok_bind, block]
  rfl

/-- From one scope to another, the walk takes a segment and tells its events, whatever follows. -/
def Walks (scope scope' : Scope) (seg : List Token) (events : List Event) : Prop :=
  ∀ size rest, walk size scope (significant seg ++ rest) =
    (⟨events, .ok ()⟩ : Reading Unit) >>= fun _ => walk size scope' rest

theorem walks_nil (scope : Scope) : Walks scope scope [] [] := by
  intro size rest
  rw [significant, List.filter_nil, List.nil_append]
  exact (Reading.pure_bind () fun _ => walk size scope rest).symm

theorem Walks.append {scope scope' scope'' : Scope} {ss : List Token} {es fs : List Event}
    (front : Walks scope scope' ss es) (behind : Walks scope' scope'' ts fs) :
    Walks scope scope'' (ss ++ ts) (es ++ fs) := by
  intro size rest
  rw [significant_append, List.append_assoc, front, behind, ← Reading.bind_assoc]
  rfl

theorem walks_step {scope scope' : Scope} {behind : List Token} {events : List Event}
    (terminal : Terminal kind seg t) (solid : kind.isComment = false)
    (read : ∀ size rest, step size scope t (significant behind ++ rest) =
      ⟨events, .ok (scope', rest)⟩) : Walks scope scope' (seg ++ behind) events := by
  intro size rest
  rw [significant_append, significant_terminal terminal solid, List.append_assoc,
    List.singleton_append, walk_cons, read, Reading.bind_of_ok _ rfl, Reading.bind_of_ok _ rfl]

theorem walks_star {scope : Scope} {source : String}
    {P : List Token → List Declaration → Prop} {parts : List (List Declaration)}
    (each : ∀ seg ds, P seg ds →
      ∃ events, Walks scope scope seg events ∧ Event.Trace source seg events ds)
    (star : Star P seg parts) :
    ∃ events, Walks scope scope seg events ∧ Event.Trace source seg events parts.flatten := by
  induction star with
  | nil => exact ⟨[], walks_nil scope, .nil⟩
  | cons head _ ih =>
    obtain ⟨first, walked, told⟩ := each _ _ head
    obtain ⟨later, onward, trace⟩ := ih
    exact ⟨first ++ later, walked.append onward, told.append trace⟩

theorem walks_enter {scope : Scope} {opening : Token.Kind} {keyword brace : Token}
    {front : List Token} (opened : Terminal opening front keyword)
    (solid : opening.isComment = false)
    (enters : ∀ size ts, step size .top keyword ts = enter size scope ts)
    (entered : Terminal .leftBrace seg brace) : Walks .top scope (front ++ seg) [] := by
  refine walks_step opened solid fun size rest => ?_
  rw [enters, enter, take_terminal entered rfl]
  rfl

theorem walks_leave {scope : Scope} {close : Token} (closed : Terminal .rightBrace seg close)
    (leaves : ∀ size ts, step size scope close ts = pure (.top, ts)) :
    Walks scope .top seg [] := by
  rw [← List.append_nil seg]
  refine walks_step closed rfl fun size rest => ?_
  rw [leaves]
  rfl

/-- A scope is entered by its brace and left by the brace that closes it. -/
theorem walks_scope {scope : Scope} {opening : Token.Kind} {source : String} {keyword : Token}
    {front : List Token} {P : List Token → List Declaration → Prop}
    {parts : List (List Declaration)} (opened : Terminal opening front keyword)
    (solid : opening.isComment = false)
    (enters : ∀ size ts, step size .top keyword ts = enter size scope ts)
    (leaves : ∀ size close ts, close.kind = .rightBrace →
      step size scope close ts = pure (.top, ts))
    (each : ∀ seg ds, P seg ds →
      ∃ events, Walks scope scope seg events ∧ Event.Trace source seg events ds)
    (braced : Braced (Star P) seg parts) :
    ∃ events, Walks .top .top (front ++ seg) events ∧
      Event.Trace source (front ++ seg) events parts.flatten := by
  obtain ⟨entered, inside, closed⟩ := braced
  obtain ⟨events, walked, trace⟩ := walks_star each inside
  rename_i brace body rest _ close
  have entry := walks_enter opened solid enters entered
  have exit := walks_leave closed fun size ts => leaves size close ts (kind_of_terminal closed)
  refine ⟨events, ?_, (trace.within brace rest).widen (List.sublist_append_right front _)⟩
  simpa using entry.append (walked.append exit)

theorem step_nameKeyword (kind : t.kind = .nameKeyword) (size : Nat) (ts : List Token) :
    step size .top t ts = goOn .top (declare .name t (name size ts)) := by
  simp [step, kind, Token.Kind.isInvalid, topStep]

theorem step_bindingsKeyword (kind : t.kind = .bindingsKeyword) (size : Nat) (ts : List Token) :
    step size .top t ts = enter size .bindings ts := by
  simp [step, kind, Token.Kind.isInvalid, topStep]

theorem step_shaderKeyword (kind : t.kind = .shaderKeyword) (size : Nat) (ts : List Token) :
    step size .top t ts = enter size .shader ts := by
  simp [step, kind, Token.Kind.isInvalid, topStep]

theorem step_rightBrace {scope : Scope} (inside : scope ≠ .top) (kind : t.kind = .rightBrace)
    (size : Nat) (ts : List Token) : step size scope t ts = pure (.top, ts) := by
  cases scope with
  | top => exact absurd rfl inside
  | bindings => simp [step, kind, Token.Kind.isInvalid, bindingsStep]
  | shader => simp [step, kind, Token.Kind.isInvalid, shaderStep, Stage.ofKeyword?]

theorem step_stage {stage : Stage} (kind : t.kind = stage.keyword) (size : Nat)
    (ts : List Token) :
    step size .shader t ts = goOn .shader (declare (.code stage) t (code size stage ts)) := by
  have valid : t.kind.isInvalid = false := by
    rw [kind]
    cases stage <;> rfl
  simp only [step, valid, Bool.false_eq_true, if_false, shaderStep,
    Stage.ofKeyword?_eq_some.2 kind]

theorem bindings_walks {ds : List Declaration} (source : String) (part : Bindings seg ds) :
    ∃ events, Walks .bindings .bindings seg events ∧ Event.Trace source seg events ds := by
  obtain ⟨opened, named, listed⟩ | ⟨opened, listed⟩ := part
  · rename_i text list
    refine ⟨[.uniforms ⟨text.text, list⟩], walks_step opened rfl fun size rest => ?_, rfl, rfl,
      List.nil_sublist _⟩
    simp only [step, kind_of_terminal opened, Token.Kind.isInvalid, Bool.false_eq_true, if_false,
      bindingsStep, goOn, uniforms, significant_append, List.append_assoc,
      take_terminal named rfl, Reading.lift_ok_bind, bindings_braced _ _ listed]
    rfl
  · rename_i list
    refine ⟨[.textures list], walks_step opened rfl fun size rest => ?_, rfl, rfl,
      List.nil_sublist _⟩
    simp only [step, kind_of_terminal opened, Token.Kind.isInvalid, Bool.false_eq_true, if_false,
      bindingsStep, goOn, bindings_braced _ _ listed]
    rfl

/-- The code of a stage is opened by its keyword and told when its braces are read. -/
theorem code_walks {keyword brace close : Token} {front body : List Token} (stage : Stage)
    (opened : Terminal stage.keyword seg keyword) (entered : Terminal .leftBrace front brace)
    (raw : Raw body) (closed : close.kind = .rightBrace) :
    Walks .shader .shader (seg ++ (front ++ (body ++ [close])))
      [.opens (.code stage) keyword.index, .code stage (brace.index + 1) close.index] := by
  have solid : stage.keyword.isComment = false := by cases stage <;> rfl
  refine walks_step opened solid fun size rest => ?_
  rw [step_stage (kind_of_terminal opened), code_raw stage entered raw closed]
  rfl

theorem shader_walks {source : String} {ds : List Declaration} (part : Shader source seg ds) :
    ∃ events, Walks .shader .shader seg events ∧ Event.Trace source seg events ds := by
  obtain ⟨stage, opened, front, raw, closed⟩ | ⟨opened, listed⟩ := part
  · exact ⟨_, code_walks stage opened front raw closed, rfl, rfl, Event.keyword_sublist opened _⟩
  · obtain ⟨events, read, trace⟩ := entrypoints_braced source listed
    refine ⟨events, walks_step opened rfl fun size rest => ?_,
      trace.widen (List.sublist_append_right _ _)⟩
    simp only [step, kind_of_terminal opened, Token.Kind.isInvalid, Bool.false_eq_true, if_false,
      shaderStep, Stage.ofKeyword?, goOn]
    rw [read size rest, Reading.bind_of_ok _ rfl]
    simp

theorem section_walks {source : String} {ds : List Declaration} (part : Section source seg ds) :
    ∃ events, Walks .top .top seg events ∧ Event.Trace source seg events ds := by
  cases part with
  | name opened named ended =>
    rename_i keyword text _
    refine ⟨[.opens .name keyword.index, .name text.text],
      walks_step opened rfl fun size rest => ?_, rfl, rfl, Event.keyword_sublist opened _⟩
    simp only [step, kind_of_terminal opened, Token.Kind.isInvalid, Bool.false_eq_true, if_false,
      topStep, goOn, declare, name, significant_append, List.append_assoc,
      take_terminal named rfl, take_terminal ended rfl, Reading.lift_ok_bind]
    rfl
  | bindings opened listed =>
    exact walks_scope opened rfl (step_bindingsKeyword (kind_of_terminal opened))
      (fun size _ ts closed => step_rightBrace (by decide) closed size ts)
      (fun _ _ => bindings_walks source) listed
  | input opened listed =>
    rename_i keyword list
    refine ⟨[.opens .input keyword.index, .input list],
      walks_step opened rfl fun size rest => ?_, rfl, rfl, Event.keyword_sublist opened _⟩
    simp only [step, kind_of_terminal opened, Token.Kind.isInvalid, Bool.false_eq_true, if_false,
      topStep, goOn, declare, bindings_braced _ _ listed]
    rfl
  | pixelInput opened listed =>
    rename_i keyword list
    refine ⟨[.opens .pixelInput keyword.index, .pixelInput list],
      walks_step opened rfl fun size rest => ?_, rfl, rfl, Event.keyword_sublist opened _⟩
    simp only [step, kind_of_terminal opened, Token.Kind.isInvalid, Bool.false_eq_true, if_false,
      topStep, goOn, declare, bindings_braced _ _ listed]
    rfl
  | shader opened listed =>
    exact walks_scope opened rfl (step_shaderKeyword (kind_of_terminal opened))
      (fun size _ ts closed => step_rightBrace (by decide) closed size ts)
      (fun _ _ => shader_walks) listed

/-- What the grammar derives is accepted, whatever follows. -/
theorem program_walks {source : String} {ds : List Declaration} (program : Program source ts ds) :
    ∃ events, Walks .top .top ts events ∧ Event.Trace source ts events ds := by
  obtain ⟨sections, comments⟩ := program
  obtain ⟨events, walked, trace⟩ := walks_star (fun _ _ => section_walks) sections
  refine ⟨events, fun size rest => ?_, trace.widen (List.sublist_append_left _ _)⟩
  rw [significant_append, significant_comments comments, List.append_nil, walked]

theorem Walks.end {events : List Event} (walked : Walks .top .top ts events) (size : Nat) :
    walk size .top (significant ts) = ⟨events, .ok ()⟩ := by
  have read := walked size []
  rw [List.append_nil, walk_nil, Reading.bind_of_ok _ rfl] at read
  simpa [finish] using read

end Outline

end ShaderDef
