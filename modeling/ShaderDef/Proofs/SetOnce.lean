import ShaderDef.Proofs.Assign
import ShaderDef.Proofs.Lexical.Word
import ShaderDef.Proofs.Outline.Course
import ShaderDef.Proofs.Outline.Extension
import ShaderDef.Proofs.Outline.Opening

/-! Items are declared once. Main statement: a keyword that is reached and whose item has been
declared before is refused, whatever follows it; an item is reported for no other reason; and on no
run is the field of an item written twice. -/

namespace ShaderDef

open Event (items completed)

def Item.scope? : Item → Option Scope
  | .name | .input | .pixelInput => some .top
  | .code _ => some .shader
  | .entry _ => none

theorem Item.keyword_isWord (item : Item) : item.keyword.isWord = true := by
  cases item with
  | code stage => cases stage <;> decide
  | entry point => cases point <;> decide
  | _ => decide

namespace Outline

open Reading

/-- The walk over all tokens of a source comes to the keyword of an item and has told events by
then. The keyword of an entry point counts in a scope that is closed and holds no malformed token,
if only whole entry points stand before it. -/
inductive Meets (size : Nat) (all : List Token) : List Event → Item → Token → Prop
  | keyword {told : List Event} {scope : Scope} {t : Token} {ts : List Token} {item : Item}
      (here : Comes size all told scope (t :: ts)) (stands : item.scope? = some scope)
      (same : t.kind = item.keyword) : Meets size all told item t
  | entry {told earlier : List Event} {opening brace t close : Token}
      {ts before more rest : List Token} {point : Entry}
      (here : Comes size all told .shader (opening :: brace :: ts))
      (opened : opening.kind = .entrypointKeyword) (front : brace.kind = .leftBrace)
      (closed : Block.split 0 ts = (before ++ t :: more, close :: rest))
      (fine : ∀ s ∈ before ++ t :: more, s.kind.isInvalid = false)
      (whole : Entries before earlier) (same : t.kind = point.keyword) :
      Meets size all (told ++ earlier) (.entry point) t

variable {size index : Nat} {all ts : List Token} {told front behind : List Event} {scope : Scope}
  {item : Item} {t close : Token}

section Telling

theorem declare_events (item : Item) (t : Token) (read : Reading (List Token)) :
    (declare item t read).events = .opens item t.index :: read.events := by
  rw [declare, bind_of_ok _ rfl]
  rfl

theorem events_bind_quiet {α β : Type} {r : Reading α} {next : α → Reading β}
    (quiet : ∀ a, (next a).events = []) : (r >>= next).events = r.events := by
  cases outcome : r.result with
  | error fault => rw [bind_of_error _ outcome]
  | ok a => rw [bind_of_ok _ outcome, quiet, List.append_nil]

theorem goOn_events (scope : Scope) (read : Reading (List Token)) :
    (goOn scope read).events = read.events :=
  events_bind_quiet fun _ => rfl

/-- A section that belongs to an item opens it first. -/
theorem step_of_scope (stands : item.scope? = some scope) (same : t.kind = item.keyword)
    (size : Nat) (ts : List Token) :
    ∃ read, step size scope t ts = goOn scope (declare item t read) := by
  cases item with
  | code stage =>
    obtain rfl := Option.some.inj stands
    exact ⟨_, step_stage same size ts⟩
  | entry point => cases stands
  | _ =>
    obtain rfl := Option.some.inj stands
    exact ⟨_, by simp only [step, same, Item.keyword, Token.Kind.isInvalid, topStep]; rfl⟩

theorem opens_of_scope (stands : item.scope? = some scope) (same : t.kind = item.keyword)
    (size : Nat) (ts : List Token) :
    [.opens item t.index] <+: (walk size scope (t :: ts)).events := by
  obtain ⟨read, opens⟩ := step_of_scope stands same size ts
  rw [walk_cons, opens]
  refine .trans ?_ (prefix_bind _ _)
  rw [goOn_events, declare_events]
  exact List.prefix_append [_] _

/-- Where a walk meets a keyword, it opens the item next. -/
theorem Meets.tells (meets : Meets size all told item t) :
    told ++ [.opens item t.index] <+: (walk size .top all).events := by
  cases meets with
  | keyword here stands same =>
    rw [here.walk, bind_of_ok _ rfl, List.prefix_append_right_inj]
    exact opens_of_scope stands same size _
  | entry here opened front closed fine whole same =>
    rename_i earlier opening brace close ts before more rest point
    have known := Entry.ofKeyword?_eq_some.2 same
    have entered : step size .shader opening (brace :: ts) =
        goOn .shader (entrypoints size (brace :: ts)) := step_entrypoint opened size _
    rw [here.walk, bind_of_ok _ rfl, walk_cons, entered, List.append_assoc,
      List.prefix_append_right_inj]
    refine .trans ?_ (prefix_bind _ _)
    rw [goOn_events, entrypoints_of_split front closed fine]
    refine .trans ?_ (prefix_bind _ _)
    rw [whole.read, bind_of_ok _ rfl, List.prefix_append_right_inj, entries_cons known]
    refine .trans ?_ (prefix_bind _ _)
    rw [declare_events]
    exact List.prefix_append [_] _

end Telling

section Meeting

/-- Where entry points open an item, whole ones stand before its keyword. -/
theorem exists_entries (closed : close.kind = .rightBrace)
    (told : (entries close ts).events = front ++ .opens item index :: behind) :
    ∃ before t more point, ts = before ++ t :: more ∧ Entries before front ∧
      t.kind = point.keyword ∧ item = .entry point ∧ index = t.index := by
  induction ts using entries.induct close generalizing front with
  | case1 =>
    rw [entries] at told
    simp at told
  | case2 t rest unknown =>
    rw [entries] at told
    simp [unknown] at told
  | case3 t rest point known ih =>
    have opened := Entry.ofKeyword?_eq_some.1 known
    rw [entries] at told
    simp only [known] at told
    rcases events_bind_split told with ⟨_, here⟩ | ⟨_, front, _, rfl, second⟩
    · obtain ⟨rfl, rfl, rfl⟩ : front = [] ∧ item = .entry point ∧ index = t.index := by
        cases front <;> simp_all
      exact ⟨[], t, rest, point, rfl, .nil, opened, rfl, rfl⟩
    rcases events_bind_split second with ⟨_, none⟩ | ⟨_, front, named, rfl, third⟩
    · simp at none
    rcases events_bind_split third with ⟨_, none⟩ | ⟨_, front, ended, rfl, fourth⟩
    · simp at none
    rcases events_bind_split fourth with ⟨_, none⟩ | ⟨_, front, _, rfl, later⟩
    · cases front <;> simp at none
    have named := Token.require_eq_ok.1 named
    have ended := Token.require_eq_ok.1 ended
    -- The closing brace stands in for a missing token, and is of neither kind.
    rcases rest with _ | ⟨text, _ | ⟨semicolon, rest⟩⟩
    · simp [closed] at named
    · simp [closed] at ended
    · obtain ⟨before, s, more, which, rfl, whole, same, rfl, rfl⟩ := ih later
      exact ⟨t :: text :: semicolon :: before, s, more, which, rfl, .cons opened named ended whole,
        same, rfl, rfl⟩

/-- A section that tells nothing of other items opens its own at its front. -/
theorem split_of_declare {item' : Item} {read : Reading (List Token)} (silent : read.Silent)
    (told : (goOn scope (declare item' t read)).events = front ++ .opens item index :: behind) :
    front = [] ∧ item = item' ∧ index = t.index := by
  rw [goOn_events, declare_events] at told
  cases front with
  | nil =>
    obtain ⟨same, _⟩ := List.cons.inj told
    injection same with item place
    exact ⟨rfl, item.symm, place.symm⟩
  | cons e front =>
    obtain ⟨_, later⟩ := List.cons.inj told
    have within : .opens item index ∈ read.events := by rw [later]; simp
    exact absurd within silent.not_opens

theorem Comes.keyword {read : Reading (List Token)} (here : Comes size all told scope (t :: ts))
    (item' : Item) (stands : item'.scope? = some scope) (same : t.kind = item'.keyword)
    (silent : read.Silent)
    (opens : (goOn scope (declare item' t read)).events = front ++ .opens item index :: behind) :
    ∃ t', Meets size all (told ++ front) item t' ∧ t'.index = index := by
  obtain ⟨rfl, rfl, rfl⟩ := split_of_declare silent opens
  rw [List.append_nil]
  exact ⟨t, .keyword here stands same, rfl⟩

theorem Comes.entry (here : Comes size all told .shader (t :: ts))
    (opened : t.kind = .entrypointKeyword)
    (opens : (goOn scope (entrypoints size ts)).events = front ++ .opens item index :: behind) :
    ∃ t', Meets size all (told ++ front) item t' ∧ t'.index = index := by
  rw [goOn_events] at opens
  rcases events_bind_split opens with ⟨_, none⟩ | ⟨⟨brace, rest⟩, front, taken, rfl, second⟩
  · simp at none
  rcases events_bind_split second with ⟨_, none⟩ | ⟨block, front, found, rfl, third⟩
  · simp at none
  obtain ⟨rfl, left⟩ := take_eq_ok taken
  obtain ⟨_, read, kept⟩ := Except.bind_eq_ok.1 found
  obtain ⟨rfl, fine⟩ := Block.refuse_eq_ok.1 kept
  have halves := Block.read_eq_ok.1 read
  obtain ⟨_, closed⟩ := Block.nested_of_split halves
  rcases events_bind_split third with ⟨_, within⟩ | ⟨_, _, _, _, none⟩
  · obtain ⟨before, t', more, point, split, whole, same, rfl, rfl⟩ := exists_entries closed within
    rw [split] at halves fine
    exact ⟨t', .entry here opened left halves fine whole same, rfl⟩
  · simp at none

/-- Where a step opens an item it has met the keyword. -/
theorem Comes.step (here : Comes size all told scope (t :: ts))
    (opens : (step size scope t ts).events = front ++ .opens item index :: behind) :
    ∃ t', Meets size all (told ++ front) item t' ∧ t'.index = index := by
  have silent : ∀ read : Reading (Scope × List Token), read.Silent →
      read.events ≠ front ++ .opens item index :: behind := by
    intro read silent same
    have within : .opens item index ∈ read.events := by rw [same]; simp
    exact silent.not_opens within
  unfold Outline.step at opens
  split at opens
  · exact absurd opens (silent _ (List.forall_mem_nil _))
  · cases scope with
    | top =>
      simp only [topStep] at opens
      split at opens
      · rename_i same
        exact here.keyword .name rfl same (name_silent size ts) opens
      · exact absurd opens (silent _ (enter_silent size _ ts))
      · rename_i same
        exact here.keyword .input rfl same (bindings_silent (fun _ => rfl) size _ ts) opens
      · rename_i same
        exact here.keyword .pixelInput rfl same (bindings_silent (fun _ => rfl) size _ ts)
          opens
      · exact absurd opens (silent _ (enter_silent size _ ts))
      · exact absurd opens (silent _ (List.forall_mem_nil _))
    | bindings => exact absurd opens (silent _ (bindingsStep_silent size t ts))
    | shader =>
      simp only [shaderStep] at opens
      split at opens
      · rename_i stage known
        exact here.keyword (.code stage) rfl (Stage.ofKeyword?_eq_some.1 known)
          (code_silent size stage ts) opens
      · split at opens
        · exact absurd opens (silent _ (List.forall_mem_nil _))
        · rename_i same
          exact here.entry same opens
        · exact absurd opens (silent _ (List.forall_mem_nil _))

/-- Where a walk opens an item it has met the keyword. -/
theorem Comes.meets (here : Comes size all told scope ts)
    (opens : (Outline.walk size scope ts).events = front ++ .opens item index :: behind) :
    ∃ t, Meets size all (told ++ front) item t ∧ t.index = index := by
  induction scope, ts using walk.induct size generalizing told front with
  | case1 scope =>
    rw [walk_nil] at opens
    cases scope <;> simp [finish, Fault.mismatch] at opens
  | case2 scope t ts ih =>
    rw [walk_cons] at opens
    rcases events_bind_split opens with ⟨_, first⟩ | ⟨next, front, goes, rfl, later⟩
    · exact here.step first
    · obtain ⟨t', meets, place⟩ := ih next goes (here.next goes) later
      exact ⟨t', by rwa [← List.append_assoc], place⟩

end Meeting

section Declared

/-- All items opened on the way to a place have been declared. -/
theorem Comes.declared (here : Comes size all told scope ts) : items told = completed told := by
  induction here with
  | start => rfl
  | next _ goes ih =>
    rw [Event.items_append, Event.completed_append, ih, (step_paired _ _ _ _).done _ goes]

theorem Meets.declared (meets : Meets size all told item t) : items told = completed told := by
  cases meets with
  | keyword here => exact here.declared
  | entry here _ _ _ _ whole =>
    rw [Event.items_append, Event.completed_append, here.declared, whole.declared]

end Declared

structure Arrives (source : String) (told : List Event) (item : Item) (t : Token) : Prop where
  meets : Meets (Text.size source.toList) (significant (Token.ofSource source)) told item t
  kept : (once [] told).result = .ok ()

/-- The tokens up to a keyword that the run arrives at, with any others behind it. -/
theorem Arrives.exists_before {source : String} (arrives : Arrives source told item t)
    (section' : item.scope? ≠ none) :
    ∃ before behind, Token.ofSource source = before ++ t :: behind ∧
      ∀ size later, told ++ [.opens item t.index] <+:
        (walk size .top (significant (before ++ t :: later))).events := by
  obtain ⟨here, stands, same⟩ | _ := arrives.meets
  · rename_i scope ts
    obtain ⟨seg, rest, whole, found, walked, _⟩ := here.walks
    obtain ⟨gapped, behind, rfl, opened, _⟩ := significant_eq_cons found.symm
    obtain ⟨comments, -⟩ := opened
    rename_i gap
    have solid : t.kind.isComment = false :=
      Token.Kind.solid_of_isWord (same ▸ item.keyword_isWord)
    refine ⟨seg ++ gap, behind, by simp [whole], fun size later => ?_⟩
    have counts : significant (seg ++ gap ++ t :: later) =
        significant seg ++ t :: significant later := by
      rw [significant_append, significant_append, significant_comments comments]
      simp [significant, solid]
    rw [counts, walked, bind_of_ok _ rfl, List.prefix_append_right_inj]
    exact opens_of_scope stands same size _
  · exact absurd rfl section'

end Outline

open Outline

variable {source : String} {told : List Event} {item : Item} {t : Token}

theorem compile_of_arrives (arrives : Arrives source told item t) (again : item ∈ completed told) :
    compile source = .error ⟨.alreadySet item.label, t.index⟩ :=
  compile_eq_error.2
    (ofTokens_of_again arrives.kept (arrives.meets.declared ▸ again) arrives.meets.tells)

def resume (source : String) (t : Token) (text : String) : String :=
  String.ofList (Text.takeBytes t.stop source.toList) ++ text

theorem Token.ofSource_resume {before behind : List Token}
    (split : ofSource source = before ++ t :: behind) (worded : t.kind.isWord = true)
    {text : String} (ends : ∀ c ∈ text.toList.head?, Text.isWordPart c = false) :
    ofSource (resume source t text) = before ++ t :: scan t.stop text.toList := by
  rw [ofSource_eq_scan] at split
  obtain ⟨front, rest, whole, place, stop, exchange⟩ := scan_behind_word split worded
  have taken : Text.takeBytes t.stop source.toList = front ++ t.text.toList := by
    have extent : t.stop = Text.size (front ++ t.text.toList) := by
      rw [stop, place, Text.size_append, Nat.zero_add]
    rw [whole, extent, ← List.append_assoc, Text.takeBytes_size_append]
  rw [ofSource_eq_scan, resume, String.toList_append, String.toList_ofList, taken,
    List.append_assoc, exchange _ ends]

/-- Behind the keyword of a section any text may stand that does not go on with the word. -/
theorem compile_resume (arrives : Arrives source told item t) (section' : item.scope? ≠ none)
    (again : item ∈ completed told) {text : String}
    (ends : ∀ c ∈ text.toList.head?, Text.isWordPart c = false) :
    compile (resume source t text) = .error ⟨.alreadySet item.label, t.index⟩ := by
  obtain ⟨before, behind, split, opens⟩ := arrives.exists_before section'
  have kind : t.kind = item.keyword := by
    obtain ⟨_, _, same⟩ | ⟨_, _, _, _, _, _, same⟩ := arrives.meets
    · exact same
    · exact same
  have tokens := Token.ofSource_resume split (kind ▸ item.keyword_isWord) ends
  rw [compile_eq_error, ofSource, tokens]
  exact ofTokens_of_again arrives.kept (arrives.meets.declared ▸ again) (opens _ _)

theorem arrives_of_error {f : Fault} (stopped : compile source = .error f)
    (kind : f.cause.kind = .alreadySet) :
    ∃ told item t, Arrives source told item t ∧ item ∈ completed told ∧
      f = ⟨.alreadySet item.label, t.index⟩ := by
  rcases Reading.bind_eq_error.1 (compile_eq_error.1 stopped) with twice | ⟨_, _, other⟩
  · obtain ⟨front, item, index, rest, opens, kept, again, rfl⟩ := once_eq_error.1 twice
    obtain ⟨t, meets, rfl⟩ := Comes.start.meets opens
    rw [List.nil_append] at meets
    refine ⟨front, item, t, ⟨meets, kept⟩, ?_, rfl⟩
    rw [← meets.declared]
    simpa using again
  · exact absurd kind ((walk_paired _ _ _).other f other)

/-- No two events of a run declare the same item. -/
theorem completed_nodup (source : String) : (completed (ofSource source).events).Nodup := by
  have told : (ofSource source).events = (once [] _).events := events_bind_quiet fun _ => rfl
  obtain ⟨more, whole, kept⟩ :=
    once_front [] (walk (Text.size source.toList) .top (significant (Token.ofSource source))).events
  have due := (walk_paired _ _ _).due _ ⟨more, whole.symm⟩
  rw [told]
  exact (once_eq_ok_iff.1 kept).1.sublist due.completed_sublist

/-- How often items are declared. `refused` and `regardless` say where a run stops for an item,
`reported` that it does so nowhere else, and the other fields that what it has written for an item
stays. -/
structure SetOnce (source : String) : Prop where
  refused : ∀ told item t, Arrives source told item t → item ∈ completed told →
    ∃ f, compile source = .error f ∧
      f.diagnostic = ⟨.alreadySet, s!"{item.label} already set", t.index⟩
  regardless : ∀ told item t, Arrives source told item t → item.scope? ≠ none →
    item ∈ completed told → ∀ text : String, (∀ c ∈ text.toList.head?, Text.isWordPart c = false) →
      ∃ f, compile (resume source t text) = .error f ∧
        f.diagnostic = ⟨.alreadySet, s!"{item.label} already set", t.index⟩
  reported : ∀ f, compile source = .error f → f.diagnostic.kind = .alreadySet →
    ∃ told item t, Arrives source told item t ∧ item ∈ completed told ∧
      f.diagnostic = ⟨.alreadySet, s!"{item.label} already set", t.index⟩
  fresh : ∀ front e behind item, (ofSource source).events = front ++ e :: behind →
    e.item? = some item → item ∉ completed front
  lasting : ∀ front behind item, (ofSource source).events = front ++ behind →
    item ∈ completed front →
      (Definition.assigned source (ofSource source).events).SameAt
        (Definition.assigned source front) item
  result : ∀ d, compile source = .ok d → d = .assigned source (ofSource source).events

/-- Every item is declared at most once: a second keyword of it is refused, this is reported for
nothing else, and nothing that a run has written for an item is written over. -/
theorem compile_setOnce (source : String) : SetOnce source where
  refused := fun _ _ _ arrives again => ⟨_, compile_of_arrives arrives again, rfl⟩
  regardless := fun _ _ _ arrives section' again _ ends =>
    ⟨_, compile_resume arrives section' again ends, rfl⟩
  reported := by
    intro f stopped kind
    obtain ⟨told, item, t, arrives, again, rfl⟩ := arrives_of_error stopped kind
    exact ⟨told, item, t, arrives, again, rfl⟩
  fresh := by
    intro front e behind item split declares known
    have single := completed_nodup source
    rw [split, Event.completed_append, List.nodup_append] at single
    have later : item ∈ completed (e :: behind) :=
      List.mem_filterMap.2 ⟨e, List.mem_cons_self, declares⟩
    exact single.2.2 item known item later rfl
  lasting := by
    intro front behind item split known
    have single := completed_nodup source
    rw [split, Event.completed_append, List.nodup_append] at single
    rw [split]
    exact Definition.assigned_sameAt fun later => single.2.2 item known item later rfl
  result := by
    intro d ok
    rw [← (compile_eq_ok.1 ok).2]
    exact Definition.ofEvents_eq_assigned (completed_nodup source)

/-- The first section is empty, and the second one is not closed. -/
theorem compile_setOnce_input :
    let source := "Input \x7b\x7d Input \x7b 1"
    let t : Token := ⟨.inputKeyword, 9, "Input"⟩
    Arrives source [.opens .input 0, .input []] .input t ∧
      ∃ f, compile source = .error f ∧ f.diagnostic = ⟨.alreadySet, "Input already set", 9⟩ := by
  intro source t
  have tokens : significant (Token.ofSource source) =
      [⟨.inputKeyword, 0, "Input"⟩, ⟨.leftBrace, 6, "\x7b"⟩, ⟨.rightBrace, 7, "\x7d"⟩, t,
        ⟨.leftBrace, 15, "\x7b"⟩, ⟨.numberLiteral, 17, "1"⟩] := by decide +kernel
  have here : Comes (Text.size source.toList) (significant (Token.ofSource source))
      [.opens .input 0, .input []] .top
      [t, ⟨.leftBrace, 15, "\x7b"⟩, ⟨.numberLiteral, 17, "1"⟩] := by
    rw [tokens]
    exact .next .start rfl
  have arrives : Arrives source [.opens .input 0, .input []] .input t :=
    ⟨.keyword here rfl rfl, rfl⟩
  exact ⟨arrives, (compile_setOnce source).refused _ _ _ arrives (by decide)⟩

end ShaderDef
