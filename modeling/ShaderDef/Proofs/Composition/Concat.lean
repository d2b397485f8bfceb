import ShaderDef.Proofs.Composition.Merge
import ShaderDef.Proofs.Outline.Passage
import ShaderDef.Proofs.Trivia
import Mathlib.Data.List.Nodup

/-! Compiling two sources joined by a line feed. Main statement: the result merges the two
definitions where they declare different items; the first keyword of the second source that opens
an item of the first one is blamed; and behind a source without items every fault of the second
source is met again, moved. -/

namespace ShaderDef

open List (Forall₂)
open Grammar Outline

namespace Outline

def declaredItems (source : String) : List Item :=
  Event.items (ofSource source).events

def Opens (source : String) (item : Item) (index : Nat) : Prop :=
  .opens item index ∈ (ofSource source).events

end Outline

structure Outlined (source : String) (d : Definition) (events : List Event)
    (ds : List Declaration) : Prop where
  program : Program source (Token.ofSource source) ds
  single : (ds.filterMap Declaration.item?).Nodup
  declares : d.Declares ds
  outline : ofSource source = ⟨events, .ok ()⟩
  walks : Walks .top .top (Token.ofSource source) events
  trace : Event.Trace source (Token.ofSource source) events ds

namespace Outlined

variable {a b source : String} {d e : Definition} {events later : List Event}
  {ds es : List Declaration}

theorem of_compile (ok : compile source = .ok d) : ∃ events ds, Outlined source d events ds := by
  obtain ⟨ds, program, single, declares⟩ := program_of_compile ok
  obtain ⟨events, outline, walks, trace⟩ := ofSource_of_program program single
  exact ⟨events, ds, program, single, declares, outline, walks, trace⟩

theorem declaredItems_eq (outlined : Outlined source d events ds) :
    declaredItems source = ds.filterMap Declaration.item? := by
  rw [declaredItems, outlined.outline]
  exact outlined.trace.opened

theorem items_eq (outlined : Outlined source d events ds) :
    Event.items events = declaredItems source := by
  rw [declaredItems, outlined.outline]

theorem opens_iff (outlined : Outlined source d events ds) {item : Item} {index : Nat} :
    Opens source item index ↔ .opens item index ∈ events := by
  rw [Opens, outlined.outline]

theorem kept (outlined : Outlined source d events ds) : (once [] events).result = .ok () := by
  refine once_eq_ok_iff.2 ⟨?_, by simp⟩
  rw [outlined.items_eq, outlined.declaredItems_eq]
  exact outlined.single

/-- The keywords that open items stand in the source in the order of the events. -/
theorem keyword_order (outlined : Outlined source d events ds) :
    events.Pairwise fun e e' => ∀ key, e.keyword? = some key → ∀ key', e'.keyword? = some key' →
      key.2 < key'.2 := by
  have ordered := Token.scan_ordered 0 source.toList
  rw [← Token.ofSource_eq_scan] at ordered
  have keys : ((Token.ofSource source).map Token.key).Pairwise fun k k' => k.2 < k'.2 :=
    List.pairwise_map.2 ordered
  exact List.pairwise_filterMap.1 (keys.sublist outlined.trace.keywords)

theorem key_of_opens (outlined : Outlined source d events ds) {item : Item} {index : Nat}
    (opened : .opens item index ∈ events) :
    ∃ t ∈ Token.ofSource source, t.kind = item.keyword ∧ t.index = index := by
  have listed : (item.keyword, index) ∈ events.filterMap Event.keyword? :=
    List.mem_filterMap.2 ⟨_, opened, rfl⟩
  obtain ⟨t, member, same⟩ := List.mem_map.1 (outlined.trace.keywords.subset listed)
  exact ⟨t, member, congrArg Prod.fst same, congrArg Prod.snd same⟩

theorem events_within (outlined : Outlined source d events ds) :
    Forall₂ (Event.Alike fun i j => i = j ∧ j ≤ Text.size source.toList) events events := by
  refine outlined.walks.within fun t listed => ?_
  rw [Token.ofSource_eq_scan] at listed
  have bounds := Token.index_of_mem_scan listed
  omega

end Outlined

namespace Outline

variable {a b : String} {d e : Definition} {events later : List Event} {ds es : List Declaration}

theorem significant_shift (n : Nat) (ts : List Token) :
    significant (ts.map (Token.shift n)) = (significant ts).map (Token.shift n) :=
  List.filter_map

theorem size_join (a b : String) :
    Text.size (a ++ "\n" ++ b).toList = Text.size b.toList + Text.reach a := by
  rw [toList_join, Text.size_append, Text.size_reach, Nat.add_comm]

def behind (a b : String) : Reading Unit :=
  walk (Text.size b.toList + Text.reach a) .top
    ((significant (Token.ofSource b)).map (Token.shift (Text.reach a)))

theorem behind_alike (a b : String) :
    Reading.Alike (fun i j => j = i + Text.reach a) (fun _ _ => True)
      (walk (Text.size b.toList) .top (significant (Token.ofSource b))) (behind a b) := by
  refine walk_alike .top rfl ?_
  rw [List.forall₂_map_right_iff]
  exact List.forall₂_same.2 fun t _ => Token.shift_alike _ t

theorem behind_of_outlined (second : Outlined b e later es) (a : String) :
    behind a b = ⟨later.map (Event.shift (Text.reach a)), .ok ()⟩ := by
  obtain ⟨result, moved⟩ := behind_alike a b
  rw [second.walks.end] at result moved
  apply Reading.ext (Event.eq_map_shift moved)
  generalize (behind a b).result = r at result
  cases result with
  | ok _ => rfl

/-- The outline of the joined sources: all events of the first, then what of the second source
opens no item again. -/
theorem ofSource_join (first : Outlined a d events ds) (b : String) :
    ofSource (a ++ "\n" ++ b) =
      (⟨events, .ok ()⟩ : Reading Unit) >>= fun _ =>
        once (declaredItems a).reverse (behind a b).events >>= fun _ =>
          Reading.lift (behind a b).result := by
  rw [ofSource, Token.ofSource_join first.program.finished,
    ofTokens_of_walks first.walks first.kept, significant_shift, size_join, first.items_eq]
  rfl

theorem ofSource_join_of_disjoint (first : Outlined a d events ds) (second : Outlined b e later es)
    (apart : (declaredItems a).Disjoint (declaredItems b)) :
    ofSource (a ++ "\n" ++ b) = ⟨events ++ later.map (Event.shift (Text.reach a)), .ok ()⟩ := by
  have kept : (once (declaredItems a).reverse
      (later.map (Event.shift (Text.reach a)))).result = .ok () := by
    rw [once_eq_ok_iff, Event.items_map_shift, second.items_eq]
    refine ⟨second.declaredItems_eq ▸ second.single, fun item member opened => ?_⟩
    exact apart (List.mem_reverse.1 opened) member
  rw [ofSource_join first, behind_of_outlined second, once_of_ok kept, Reading.bind_of_ok _ rfl,
    Reading.bind_of_ok _ rfl]
  simp

theorem declared_join (first : Outlined a d events ds) (second : Outlined b e later es) :
    (events ++ later.map (Event.shift (Text.reach a))).filterMap
      (Event.declared? (a ++ "\n" ++ b)) = ds ++ es := by
  have front : (a ++ "\n" ++ b).toList = a.toList ++ '\n' :: b.toList := by
    rw [toList_join, List.append_assoc]
    rfl
  have same : events.filterMap (Event.declared? a) =
      events.filterMap (Event.declared? (a ++ "\n" ++ b)) :=
    Event.filterMap_alike (fun _ _ alike => (Event.declared?_append front alike).symm)
      first.events_within
  have moved : later.filterMap (Event.declared? b) =
      (later.map (Event.shift (Text.reach a))).filterMap (Event.declared? (a ++ "\n" ++ b)) := by
    rw [List.filterMap_map, ← Text.size_reach]
    exact List.filterMap_congr fun e _ => (Event.declared?_shift (toList_join a b) e).symm
  rw [List.filterMap_append, ← same, ← moved, first.trace.declared, second.trace.declared]

/-- Where an item would be opened again, there is a first keyword that would do so. -/
theorem exists_first_again (second : Outlined b e later es) {opened : List Item}
    (meet : ¬ opened.Disjoint (declaredItems b)) :
    ∃ front item index rest, later = front ++ .opens item index :: rest ∧ item ∈ opened ∧
      (∀ other ∈ Event.items front, other ∉ opened) ∧
      ∀ other place, .opens other place ∈ later → other ∈ opened → index ≤ place := by
  have meets : ∃ item ∈ Event.items later, item ∈ opened := by
    rw [second.items_eq]
    simpa [List.Disjoint, and_comm] using meet
  obtain ⟨front, item, index, rest, split, known, fresh⟩ := Event.exists_first meets
  refine ⟨front, item, index, rest, split, known, fresh, fun other place member seen => ?_⟩
  have ordered := second.keyword_order
  rw [split, List.pairwise_append, List.pairwise_cons] at ordered
  rw [split, List.mem_append, List.mem_cons] at member
  rcases member with early | here | late
  · exact absurd seen (fresh other (Event.mem_items_of_opens early))
  · simp only [Event.opens.injEq] at here
    omega
  · exact Nat.le_of_lt (ordered.2.1.1 _ late _ rfl _ rfl)

end Outline

variable {a b : String} {d e : Definition} {f : Fault}

theorem compile_join_of_disjoint (first : compile a = .ok d) (second : compile b = .ok e)
    (apart : (declaredItems a).Disjoint (declaredItems b)) :
    compile (a ++ "\n" ++ b) = .ok (d.merge (declaredItems a) e) := by
  obtain ⟨events, ds, first⟩ := Outlined.of_compile first
  obtain ⟨later, es, second⟩ := Outlined.of_compile second
  have declared := declared_join first second
  have whole := ofSource_join_of_disjoint first second apart
  rw [first.declaredItems_eq, second.declaredItems_eq] at apart
  have single : ((ds ++ es).filterMap Declaration.item?).Nodup := by
    rw [List.filterMap_append]
    exact List.Nodup.append first.single second.single apart
  rw [compile_eq_ok, whole, first.declaredItems_eq]
  exact ⟨rfl, (Definition.declares_ofEvents declared single).unique
    (Definition.declares_merge first.declares second.declares apart)⟩

theorem compile_join_of_meet (first : compile a = .ok d) (second : compile b = .ok e)
    (meet : ¬ (declaredItems a).Disjoint (declaredItems b)) :
    ∃ item index, Opens b item index ∧ item ∈ declaredItems a ∧
      (∀ other place, Opens b other place → other ∈ declaredItems a → index ≤ place) ∧
      (∃ t ∈ Token.ofSource b, t.kind = item.keyword ∧ t.index = index) ∧
      compile (a ++ "\n" ++ b) =
        .error ⟨.alreadySet item.label, Text.size a.toList + 1 + index⟩ := by
  obtain ⟨events, ds, first⟩ := Outlined.of_compile first
  obtain ⟨later, es, second⟩ := Outlined.of_compile second
  obtain ⟨front, item, index, rest, split, known, fresh, earliest⟩ := exists_first_again second meet
  have opened : .opens item index ∈ later := by
    rw [split]
    exact List.mem_append_right front List.mem_cons_self
  have kept : (once (declaredItems a).reverse
      (front.map (Event.shift (Text.reach a)))).result = .ok () := by
    have single := second.single
    rw [← second.declaredItems_eq, ← second.items_eq, split, Event.items_append] at single
    rw [once_eq_ok_iff, Event.items_map_shift]
    exact ⟨(List.nodup_append.1 single).1, fun other member again =>
      fresh other member (List.mem_reverse.1 again)⟩
  have moved : later.map (Event.shift (Text.reach a)) = front.map (Event.shift (Text.reach a)) ++
      .opens item (index + Text.reach a) :: rest.map (Event.shift (Text.reach a)) := by
    rw [split, List.map_append]
    rfl
  refine ⟨item, index, second.opens_iff.2 opened, known, fun other place there seen => ?_,
    second.key_of_opens opened, ?_⟩
  · exact earliest other place (second.opens_iff.1 there) seen
  · rw [compile_eq_error, ofSource_join first, behind_of_outlined second, moved,
      once_again kept (.inr (List.mem_reverse.2 known)), Reading.bind_of_ok _ rfl,
      Reading.bind_of_error (r := ⟨_, .error _⟩) _ rfl, Text.reach, Nat.add_comm index]

theorem compile_join_of_error (first : compile a = .ok d) (none : declaredItems a = [])
    (second : compile b = .error f) :
    compile (a ++ "\n" ++ b) = .error (f.shift (Text.size a.toList + 1)) := by
  obtain ⟨_, _, first⟩ := Outlined.of_compile first
  obtain ⟨result, events⟩ := behind_alike a b
  have kept := once_alike [] events
  have alike := (kept.bind fun _ _ _ => Reading.alike_lift result).result
  change Result.Alike _ _ (ofSource b).result _ at alike
  rw [compile_eq_error.1 second] at alike
  rw [compile_eq_error, ofSource_join first, none, List.reverse_nil, Reading.bind_of_ok _ rfl]
  exact alike.eq_error_shift

/-- Joined sources compile to the merge of their definitions where they declare different items.
Otherwise the earliest keyword of the second source that opens an item of the first is blamed. If
the first source declares none, a fault of the second one is met again at its moved place. -/
theorem compile_join (first : compile a = .ok d) (b : String) :
    (∀ e, compile b = .ok e → (declaredItems a).Disjoint (declaredItems b) →
      compile (a ++ "\n" ++ b) = .ok (d.merge (declaredItems a) e)) ∧
    (∀ e, compile b = .ok e → ¬ (declaredItems a).Disjoint (declaredItems b) →
      ∃ item index, Opens b item index ∧ item ∈ declaredItems a ∧
        (∀ other place, Opens b other place → other ∈ declaredItems a → index ≤ place) ∧
        (∃ t ∈ Token.ofSource b, t.kind = item.keyword ∧ t.index = index) ∧
        compile (a ++ "\n" ++ b) =
          .error ⟨.alreadySet item.label, Text.size a.toList + 1 + index⟩) ∧
    (∀ f, declaredItems a = [] → compile b = .error f →
      compile (a ++ "\n" ++ b) = .error (f.shift (Text.size a.toList + 1))) :=
  ⟨fun _ second apart => compile_join_of_disjoint first second apart,
    fun _ second meet => compile_join_of_meet first second meet,
    fun _ none second => compile_join_of_error first none second⟩

theorem compile_join_comment :
    compile "Name \"a\"; Input \x7b\x7d // i" = .ok { interface := { name := some "a" } } ∧
    compile ("Name \"a\"; Input \x7b\x7d // i" ++ "\n" ++ "Shader \x7b Vertex \x7b v \x7d \x7d") =
      .ok { interface := { name := some "a" }, sources := { vertex := some " v " } } ∧
    (∃ item index, item ∈ declaredItems "Name \"a\"; Input \x7b\x7d // i" ∧
      Opens "PixelInput \x7b\x7d Input \x7b\x7d" item index ∧
      compile ("Name \"a\"; Input \x7b\x7d // i" ++ "\n" ++ "PixelInput \x7b\x7d Input \x7b\x7d") =
        .error ⟨.alreadySet item.label,
          Text.size "Name \"a\"; Input \x7b\x7d // i".toList + 1 + index⟩) ∧
    compile ("Bindings \x7b\x7d // b" ++ "\n" ++ "Name 1;") =
      .error (Fault.shift (Text.size "Bindings \x7b\x7d // b".toList + 1)
        ⟨.unexpected .stringLiteral .numberLiteral, 5⟩) := by
  have first : compile "Name \"a\"; Input \x7b\x7d // i" =
      .ok { interface := { name := some "a" } } := by decide +kernel
  have empty : compile "Bindings \x7b\x7d // b" = .ok {} := by decide +kernel
  have declared : declaredItems "Name \"a\"; Input \x7b\x7d // i" = [.name, .input] := by
    decide +kernel
  have stage : declaredItems "Shader \x7b Vertex \x7b v \x7d \x7d" = [.code .vertex] := by
    decide +kernel
  have inputs : declaredItems "PixelInput \x7b\x7d Input \x7b\x7d" = [.pixelInput, .input] := by
    decide +kernel
  refine ⟨first, ?_, ?_, ?_⟩
  · have merged := (compile_join first "Shader \x7b Vertex \x7b v \x7d \x7d").1
      { sources := { vertex := some " v " } } (by decide +kernel) (by rw [declared, stage]; simp)
    rw [merged, declared]
    rfl
  · obtain ⟨item, index, opens, known, _, _, blamed⟩ :=
      (compile_join first "PixelInput \x7b\x7d Input \x7b\x7d").2.1 {} (by decide +kernel)
        (by rw [declared, inputs]; simp)
    exact ⟨item, index, known, opens, blamed⟩
  · exact (compile_join empty "Name 1;").2.2 _ (by decide +kernel) (by decide +kernel)

end ShaderDef
