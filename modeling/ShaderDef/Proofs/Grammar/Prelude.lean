import ShaderDef.Proofs.Outline.Late
import ShaderDef.Proofs.Outline.Placing

/-! Preludes: whole declarations at the front of a source, whatever comes of the rest. What a walk
tells up to any point are the declarations of a prelude, and those of every prelude are told. -/

namespace ShaderDef

namespace Grammar

/-- The front of a program up to a place between two parts of a scope, and what it declares. -/
inductive Begun (source : String) : Scope → List Token → List Declaration → Prop
  | top {ts : List Token} {sections : List (List Declaration)}
      (before : Star (Section source) ts sections) : Begun source .top ts sections.flatten
  | bindings {ts s₁ s₂ inner : List Token} {keyword brace : Token}
      {sections parts : List (List Declaration)} (before : Star (Section source) ts sections)
      (opened : Terminal .bindingsKeyword s₁ keyword) (entered : Terminal .leftBrace s₂ brace)
      (within : Star Bindings inner parts) :
      Begun source .bindings (ts ++ (s₁ ++ s₂ ++ inner)) (sections.flatten ++ parts.flatten)
  | shader {ts s₁ s₂ inner : List Token} {keyword brace : Token}
      {sections parts : List (List Declaration)} (before : Star (Section source) ts sections)
      (opened : Terminal .shaderKeyword s₁ keyword) (entered : Terminal .leftBrace s₂ brace)
      (within : Star (Shader source) inner parts) :
      Begun source .shader (ts ++ (s₁ ++ s₂ ++ inner)) (sections.flatten ++ parts.flatten)

/-- Whole declarations at the front of some tokens, and what is left behind them. An entry point is
a whole declaration in a scope that is closed and holds no malformed token. -/
inductive Prelude (source : String) : List Token → List Token → List Declaration → Prop
  | between {scope : Scope} {front rest : List Token} {ds : List Declaration}
      (begun : Begun source scope front ds) : Prelude source front rest ds
  | entries {front s₁ s₂ items more rest : List Token} {keyword brace close : Token}
      {ds es : List Declaration} (begun : Begun source .shader front ds)
      (opened : Terminal .entrypointKeyword s₁ keyword) (entered : Terminal .leftBrace s₂ brace)
      (listed : Star Entered items es) (balanced : Balanced (items ++ more))
      (fine : ∀ t ∈ items ++ more, t.kind.isInvalid = false) (closed : close.kind = .rightBrace) :
      Prelude source (front ++ (s₁ ++ s₂ ++ items)) (more ++ close :: rest) (ds ++ es)

def HasPrelude (source : String) (ts : List Token) (ds : List Declaration) : Prop :=
  ∃ front rest, ts = front ++ rest ∧ Prelude source front rest ds

end Grammar

open Grammar

namespace Outline

open Reading

variable {source : String} {size : Nat} {scope scope' : Scope} {t close : Token}
  {ts seg front rest : List Token} {told events : List Event} {ds es : List Declaration}

section Walking

/-- A walk goes over what stands before a scope, and over the parts that are read in it. -/
theorem walks_within {P : List Token → List Declaration → Prop}
    {sections parts : List (List Declaration)} (before : Star (Section source) ts sections)
    (enters : Walks .top scope front [])
    (each : ∀ seg ds, P seg ds →
      ∃ events, Walks scope scope seg events ∧ Event.Trace source seg events ds)
    (within : Star P seg parts) :
    ∃ events, Walks .top scope (ts ++ (front ++ seg)) events ∧
      Event.Trace source (ts ++ (front ++ seg)) events (sections.flatten ++ parts.flatten) := by
  obtain ⟨first, walked, told⟩ := walks_star (fun _ _ => section_walks) before
  obtain ⟨later, onward, trace⟩ := walks_star each within
  exact ⟨first ++ later, walked.append (enters.append onward),
    told.append (trace.widen (List.sublist_append_right front seg))⟩

theorem begun_walks (begun : Begun source scope ts ds) :
    ∃ events, Walks .top scope ts events ∧ Event.Trace source ts events ds := by
  cases begun with
  | top before => exact walks_star (fun _ _ => section_walks) before
  | bindings before opened entered within =>
    have enters := walks_enter opened rfl (step_bindingsKeyword (kind_of_terminal opened)) entered
    exact walks_within before enters (fun _ _ => bindings_walks source) within
  | shader before opened entered within =>
    have enters := walks_enter opened rfl (step_shaderKeyword (kind_of_terminal opened)) entered
    exact walks_within before enters (fun _ _ => shader_walks) within

/-- What a walk goes over next belongs to the program that has begun. -/
theorem Moves.begun (moves : Moves source scope seg scope') (begun : Begun source scope ts ds) :
    ∃ es events, Begun source scope' (ts ++ seg) (ds ++ es) ∧ Walks scope scope' seg events ∧
      Event.Trace source seg events es := by
  cases moves with
  | whole part =>
    obtain ⟨events, walked, trace⟩ := section_walks part
    obtain ⟨before⟩ := begun
    exact ⟨_, events, by simpa using Begun.top (before.append (.single part)), walked, trace⟩
  | enterBindings opened entered =>
    obtain ⟨before⟩ := begun
    refine ⟨[], [], by simpa using Begun.bindings before opened entered .nil, ?_, ?_⟩
    · exact walks_enter opened rfl (step_bindingsKeyword (kind_of_terminal opened)) entered
    · exact .widen .nil (List.nil_sublist _)
  | enterShader opened entered =>
    obtain ⟨before⟩ := begun
    refine ⟨[], [], by simpa using Begun.shader before opened entered .nil, ?_, ?_⟩
    · exact walks_enter opened rfl (step_shaderKeyword (kind_of_terminal opened)) entered
    · exact .widen .nil (List.nil_sublist _)
  | bindings part =>
    obtain ⟨events, walked, trace⟩ := bindings_walks source part
    obtain _ | ⟨before, opened, entered, within⟩ := begun
    refine ⟨_, events, ?_, walked, trace⟩
    simpa using Begun.bindings before opened entered (within.append (.single part))
  | shader part =>
    obtain ⟨events, walked, trace⟩ := shader_walks part
    obtain _ | _ | ⟨before, opened, entered, within⟩ := begun
    refine ⟨_, events, ?_, walked, trace⟩
    simpa using Begun.shader before opened entered (within.append (.single part))
  | leave inside closed =>
    refine ⟨[], [], ?_, walks_leave closed (step_rightBrace inside (kind_of_terminal closed)),
      .widen .nil (List.nil_sublist _)⟩
    cases begun with
    | top => exact absurd rfl inside
    | bindings before opened entered within =>
      have part : Section source _ _ := .bindings opened ⟨entered, within, closed⟩
      simpa using Begun.top (before.append (.single part))
    | shader before opened entered within =>
      have part : Section source _ _ := .shader opened ⟨entered, within, closed⟩
      simpa using Begun.top (before.append (.single part))

end Walking

section Reaching

/-- What is told by some point of a scope of entry points are whole ones at its front. -/
theorem exists_entered (source : String) (closed : close.kind = .rightBrace)
    (within : told <+: (entries close (significant ts)).events) :
    ∃ items more es, ts = items ++ more ∧ Star Entered items es ∧
      told.filterMap (Event.declared? source) = es := by
  generalize found : significant ts = toks at within
  induction toks using entries.induct close generalizing ts told with
  | case1 =>
    rw [entries] at within
    rw [List.prefix_nil.1 within]
    exact ⟨[], ts, [], rfl, .nil, rfl⟩
  | case2 head more unknown =>
    rw [entries] at within
    simp only [unknown, events_fail] at within
    rw [List.prefix_nil.1 within]
    exact ⟨[], ts, [], rfl, .nil, rfl⟩
  | case3 head more point known ih =>
    rw [entries_cons known] at within
    have late : Late source (declare (.entry point) head (do
        .lift ((more.headD close).require .stringLiteral)
        .lift ((more.tail.headD close).require .semicolon)
        .emit (.entry point (more.headD close).text)
        return more.tail.tail)) :=
      .declare (.behind fun _ => .behind fun _ => late_emit _ _) _ _
    rcases late.split within with none | ⟨left, later, ok, rfl, inner⟩
    · exact ⟨[], ts, [], rfl, .nil, none⟩
    obtain ⟨_, _, ok⟩ := bind_eq_ok.1 ok
    obtain ⟨_, named, ok⟩ := bind_eq_ok.1 ok
    obtain ⟨_, ended, ok⟩ := bind_eq_ok.1 ok
    obtain ⟨_, _, ok⟩ := bind_eq_ok.1 ok
    obtain rfl := Except.ok.inj ok
    have named := Token.require_eq_ok.1 named
    have ended := Token.require_eq_ok.1 ended
    have opened := Entry.ofKeyword?_eq_some.1 known
    -- The closing brace stands in for a missing token, and is of neither kind.
    rcases more with _ | ⟨text, _ | ⟨semicolon, more⟩⟩
    · simp [closed] at named
    · simp [closed] at ended
    obtain ⟨s₁, _, rfl, t₁, found⟩ := significant_eq_cons found
    obtain ⟨s₂, _, rfl, t₂, found⟩ := significant_eq_cons found
    obtain ⟨s₃, rest, rfl, t₃, found⟩ := significant_eq_cons found
    obtain ⟨items, behind, es, rfl, star, declared⟩ := ih found inner
    have entered := Entered.intro point (opened ▸ t₁) (named ▸ t₂) (ended ▸ t₃)
    refine ⟨s₁ ++ (s₂ ++ s₃) ++ items, behind, _, by simp, .cons entered star, ?_⟩
    have first : text.require .stringLiteral = .ok () := if_pos named
    have second : semicolon.require .semicolon = .ok () := if_pos ended
    simp only [List.headD_cons, List.tail_cons, first, second, lift_ok_bind, declare_events,
      List.filterMap_append, declared]
    rfl

theorem step_events (walked : Walks scope scope' seg events) (rest : List Token)
    {t : Token} {ts : List Token} (taken : significant seg ++ rest = t :: ts)
    (goes : (step size scope t ts).result = .ok (scope', rest)) :
    (step size scope t ts).events = events := by
  have whole := congrArg Reading.events (walked size rest)
  rw [taken, walk_cons, bind_of_ok _ goes, bind_of_ok _ rfl] at whole
  exact List.append_cancel_right whole

/-- What is told by some point of a scope of entry points belongs to a prelude. -/
theorem hasPrelude_entries {behind gap : List Token} (begun : Begun source .shader front ds)
    (opened : Terminal .entrypointKeyword gap t)
    (within : told <+: (entrypoints size (significant behind)).events) :
    HasPrelude source (front ++ (gap ++ behind))
      (ds ++ told.filterMap (Event.declared? source)) := by
  have nothing : told.filterMap (Event.declared? source) = [] →
      HasPrelude source (front ++ (gap ++ behind))
        (ds ++ told.filterMap (Event.declared? source)) := by
    intro none
    rw [none, List.append_nil]
    exact ⟨front, gap ++ behind, rfl, .between begun⟩
  rcases (late_lift _).split within with none | ⟨⟨brace, left⟩, _, taken, rfl, behind⟩
  · exact nothing none
  rcases (late_lift _).split behind with none | ⟨block, _, found, rfl, inner⟩
  · exact nothing none
  rw [events_bind_quiet fun _ => rfl] at inner
  obtain ⟨s₂, _, rfl, entered, rfl⟩ := terminal_of_take taken
  obtain ⟨body, rest, rfl, counts, nested, closed, _, valid⟩ := block_of_read found
  rw [counts] at inner
  obtain ⟨items, more, es, rfl, listed, declared⟩ := exists_entered source closed inner
  have fine : ∀ s ∈ items ++ more, s.kind.isInvalid = false := by
    intro s inside
    cases comment : s.kind.isComment with
    | true => exact isInvalid_of_isComment comment
    | false => exact valid s (List.mem_filter.2 ⟨inside, by simp [comment]⟩)
  rw [declared]
  exact ⟨_, more ++ block.close :: rest, by simp,
    .entries begun opened entered listed (balanced_iff.2 nested) fine closed⟩

/-- What is told by some point of a walk belongs to a prelude. -/
theorem hasPrelude_walk (begun : Begun source scope front ds)
    (within : told <+: (walk size scope (significant rest)).events) :
    HasPrelude source (front ++ rest) (ds ++ told.filterMap (Event.declared? source)) := by
  generalize found : significant rest = ts at within
  induction scope, ts using walk.induct size generalizing front rest ds told with
  | case1 scope =>
    have none : (finish size scope).events = [] := by cases scope <;> rfl
    rw [walk_nil, none] at within
    rw [List.prefix_nil.1 within]
    simpa using ⟨front, rest, rfl, .between begun⟩
  | case2 scope t ts ih =>
    obtain ⟨gap, behind, rfl, opened, rfl⟩ := significant_eq_cons found
    have goes : ∀ next more, (step size scope t (significant behind)).result = .ok next →
        more <+: (walk size next.1 next.2).events →
        HasPrelude source (front ++ (gap ++ behind)) (ds ++
          ((step size scope t (significant behind)).events ++ more).filterMap
            (Event.declared? source)) := by
      rintro ⟨scope', left⟩ more ok inner
      obtain ⟨seg, rest, rfl, moves, rfl⟩ := step_moves source opened ok
      obtain ⟨es, events, later, walked, trace⟩ := moves.begun begun
      have solid := (List.mem_filter.1 (List.mem_of_mem_head? (congrArg List.head? found))).2
      have counts := significant_terminal opened (by simpa using solid)
      have same := step_events walked (significant rest) (by simp [counts]) ok
      have reached := ih _ ok later rfl inner
      rw [same, List.filterMap_append, trace.declared]
      simpa using reached
    rw [walk_cons] at within
    rcases step_late source size scope t (significant behind) with late | ⟨rfl, same⟩
    · rcases late.split within with none | ⟨next, more, ok, rfl, inner⟩
      · rw [none, List.append_nil]
        exact ⟨front, gap ++ behind, rfl, .between begun⟩
      · exact goes next more ok inner
    · have first : told <+: (step size .shader t (significant behind)).events →
          HasPrelude source (front ++ (gap ++ behind))
            (ds ++ told.filterMap (Event.declared? source)) := by
        rw [step_entrypoint same, goOn_events]
        exact hasPrelude_entries begun (same ▸ opened)
      cases outcome : (step size .shader t (significant behind)).result with
      | error fault =>
        rw [bind_of_error _ outcome] at within
        exact first within
      | ok next =>
        rw [bind_of_ok _ outcome] at within
        rcases List.prefix_or_prefix_of_prefix within (List.prefix_append _ _) with
          early | ⟨more, rfl⟩
        · exact first early
        · exact goes next more outcome ((List.prefix_append_right_inj _).1 within)

end Reaching

section Preludes

/-- The declarations of a prelude are told by the walk, and whatever it tells or meets behind them
is in the rest of the source. -/
theorem prelude_walk (prelude : Prelude source front rest ds) (size : Nat) :
    ∃ told left, walk size .top (significant (front ++ rest)) =
      (⟨told, .ok ()⟩ : Reading Unit) >>= (fun _ => left) ∧
      Event.Trace source front told ds ∧ Placed size rest left := by
  cases prelude with
  | @between scope _ _ _ begun =>
    obtain ⟨told, walked, trace⟩ := begun_walks begun
    refine ⟨told, walk size scope (significant rest), ?_, trace, ?_⟩
    · rw [significant_append, walked]
    · exact (walk_placed _ _ _).widen List.filter_sublist.subset
  | @entries before s₁ s₂ items more rest keyword brace close ds es begun opened entered listed
      balanced fine closed =>
    obtain ⟨told, walked, trace⟩ := begun_walks begun
    obtain ⟨later, read, traced⟩ := entries_star source close listed (significant more)
    refine ⟨told ++ later, entries close (significant more) >>= fun _ =>
      walk size .shader (significant rest), ?_, trace.append (traced.widen ?_), ?_⟩
    · have solid : close.kind.isComment = false := by rw [closed]; rfl
      have counts : significant (before ++ (s₁ ++ s₂ ++ items) ++ (more ++ close :: rest)) =
          significant before ++
            (keyword :: brace :: (significant (items ++ more) ++ close :: significant rest)) := by
        simp [significant_terminal opened rfl, significant_terminal entered rfl,
          significant_cons solid]
      have nested : Nested 0 (significant (items ++ more)) :=
        Block.nested_filter (balanced_iff.1 balanced)
      have split := Block.split_of_nested (significant rest) nested closed
      have valid : ∀ s ∈ significant (items ++ more), s.kind.isInvalid = false :=
        fun s inside => fine s (List.filter_sublist.subset inside)
      rw [counts, walked, walk_cons, step_entrypoint (kind_of_terminal opened), goOn,
        entrypoints_of_split (kind_of_terminal entered) split valid, significant_append, read]
      simp only [bind_assoc, pure_bind]
      rw [← bind_assoc]
      rfl
    · exact List.sublist_append_right _ _
    · have behind : ∀ s ∈ significant more, s.kind.isInvalid = false :=
        fun s inside => fine s (List.mem_append_right _ (List.filter_sublist.subset inside))
      refine ((entries_placed behind).widen ?_).bind fun _ _ => (walk_placed _ _ _).widen ?_
      · exact (List.filter_sublist.append (List.singleton_sublist.2 List.mem_cons_self)).subset
      · exact ((List.filter_sublist.cons close).trans (List.sublist_append_right more _)).subset

end Preludes

end Outline

end ShaderDef
