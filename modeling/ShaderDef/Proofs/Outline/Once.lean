import ShaderDef.Outline.Scope
import ShaderDef.Proofs.Outline.Simulation

/-! Items opened once. A list of events is kept exactly if it opens no item twice; otherwise it is
cut at the first event that opens an item again, and that event is blamed. -/

namespace ShaderDef

def Event.items (events : List Event) : List Item :=
  events.filterMap Event.opened?

namespace Event

variable {e : Event} {events more : List Event}

@[simp] theorem items_append : items (events ++ more) = items events ++ items more :=
  List.filterMap_append

theorem items_cons_plain (plain : e.opened? = none) : items (e :: events) = items events :=
  List.filterMap_cons_none plain

theorem items_cons_opens (item : Item) (index : Nat) :
    items (.opens item index :: events) = item :: items events :=
  rfl

theorem items_concat_plain (plain : e.opened? = none) : items (events ++ [e]) = items events := by
  rw [items_append, items_cons_plain plain]
  exact List.append_nil _

theorem items_concat_opens (item : Item) (index : Nat) :
    items (events ++ [.opens item index]) = items events ++ [item] :=
  items_append

theorem mem_items_of_opens {item : Item} {index : Nat} (there : .opens item index ∈ events) :
    item ∈ items events :=
  List.mem_filterMap.2 ⟨_, there, rfl⟩

theorem plain_or_opens (e : Event) : e.opened? = none ∨ ∃ item index, e = .opens item index := by
  cases e with
  | opens item index => exact .inr ⟨item, index, rfl⟩
  | _ => exact .inl rfl

/-- Where events open an item of a list, one of them is the first to do so. -/
theorem exists_first {opened : List Item} (meet : ∃ item ∈ items events, item ∈ opened) :
    ∃ front item index rest, events = front ++ .opens item index :: rest ∧ item ∈ opened ∧
      ∀ other ∈ items front, other ∉ opened := by
  induction events with
  | nil => simp [items] at meet
  | cons e events ih =>
    rcases e.plain_or_opens with plain | ⟨item, index, rfl⟩
    · rw [items_cons_plain plain] at meet
      obtain ⟨front, item, index, rest, split, again, fresh⟩ := ih meet
      refine ⟨e :: front, item, index, rest, by rw [split, List.cons_append], again, ?_⟩
      rwa [items_cons_plain plain]
    · by_cases again : item ∈ opened
      · exact ⟨[], item, index, events, rfl, again, by simp [items]⟩
      · obtain ⟨other, member, known⟩ := meet
        have later : other ∈ items events :=
          (List.mem_cons.1 member).resolve_left fun same => again (same ▸ known)
        obtain ⟨front, first, place, rest, split, known, fresh⟩ := ih ⟨other, later, known⟩
        refine ⟨.opens item index :: front, first, place, rest, by rw [split, List.cons_append],
          known, ?_⟩
        rw [items_cons_opens, List.forall_mem_cons]
        exact ⟨again, fresh⟩

end Event

namespace Outline

open Event (items)

variable {opened : List Item} {item : Item} {index : Nat} {e : Event} {events more : List Event}

theorem once_cons_plain (plain : e.opened? = none) :
    once opened (e :: events) = Reading.emit e >>= fun _ => once opened events := by
  cases e with
  | opens item index => simp [Event.opened?] at plain
  | _ => rfl

theorem once_cons_fresh (fresh : item ∉ opened) :
    once opened (.opens item index :: events) =
      Reading.emit (.opens item index) >>= fun _ => once (item :: opened) events := by
  rw [once]
  simp only [if_neg fresh]

theorem once_cons_again (again : item ∈ opened) :
    once opened (.opens item index :: events) = .fail ⟨.alreadySet item.label, index⟩ := by
  rw [once]
  simp only [if_pos again]

/-- Kept is what opens no item twice, and none that was opened before. -/
theorem once_eq_ok_iff :
    (once opened events).result = .ok () ↔
      (items events).Nodup ∧ ∀ item ∈ items events, item ∉ opened := by
  induction events generalizing opened with
  | nil => simp [once, items]
  | cons e events ih =>
    rcases e.plain_or_opens with plain | ⟨other, index, rfl⟩
    · rw [once_cons_plain plain, Event.items_cons_plain plain, Reading.bind_of_ok _ rfl]
      exact ih
    · rw [Event.items_cons_opens, List.nodup_cons]
      by_cases again : other ∈ opened
      · rw [once_cons_again again]
        simp [again]
      · rw [once_cons_fresh again, Reading.bind_of_ok _ rfl, ih]
        simp only [List.mem_cons, not_or, forall_eq_or_imp]
        constructor
        · intro kept
          obtain ⟨nodup, apart⟩ := kept
          exact ⟨⟨fun member => (apart other member).1 rfl, nodup⟩, again,
            fun item member => (apart item member).2⟩
        · intro kept
          obtain ⟨⟨single, nodup⟩, _, apart⟩ := kept
          refine ⟨nodup, fun item member => ⟨?_, apart item member⟩⟩
          intro same
          subst same
          exact single member

/-- Events that are kept stand before the events that come after them, and open their items. -/
theorem once_append (kept : (once opened events).result = .ok ()) :
    once opened (events ++ more) =
      (⟨events, .ok ()⟩ : Reading Unit) >>= fun _ =>
        once ((items events).reverse ++ opened) more := by
  induction events generalizing opened with
  | nil => exact (Reading.pure_bind () fun _ => once opened more).symm
  | cons e events ih =>
    rcases e.plain_or_opens with plain | ⟨other, index, rfl⟩
    · rw [once_cons_plain plain, Reading.bind_of_ok _ rfl] at kept
      rw [List.cons_append, once_cons_plain plain, Event.items_cons_plain plain, ih kept]
      rfl
    · by_cases again : other ∈ opened
      · rw [once_cons_again again] at kept
        simp at kept
      · rw [once_cons_fresh again, Reading.bind_of_ok _ rfl] at kept
        rw [List.cons_append, once_cons_fresh again, ih kept, Event.items_cons_opens,
          List.reverse_cons, List.append_assoc, List.singleton_append]
        rfl

theorem once_of_ok (kept : (once opened events).result = .ok ()) :
    once opened events = ⟨events, .ok ()⟩ := by
  have whole := @once_append opened events [] kept
  rw [List.append_nil, once, Reading.bind_of_ok _ rfl] at whole
  simpa using whole

/-- The first event that opens an item again is blamed. -/
theorem once_again {front : List Event} (kept : (once opened front).result = .ok ())
    (again : item ∈ items front ∨ item ∈ opened) :
    once opened (front ++ .opens item index :: events) =
      ⟨front, .error ⟨.alreadySet item.label, index⟩⟩ := by
  have member : item ∈ (items front).reverse ++ opened := by simpa using again
  rw [once_append kept, once_cons_again member, Reading.bind_of_ok _ rfl]
  simp

/-- An item that is opened again is reported, whatever else there is. -/
theorem ofTokens_of_again {size : Nat} {all : List Token}
    (kept : (once [] events).result = .ok ()) (again : item ∈ items events)
    (opens : events ++ [.opens item index] <+: (walk size .top (significant all)).events) :
    (ofTokens size all).result = .error ⟨.alreadySet item.label, index⟩ := by
  obtain ⟨more, whole⟩ := opens
  rw [List.append_assoc, List.singleton_append] at whole
  have stopped : once [] (events ++ .opens item index :: more) = _ := once_again kept (.inl again)
  rw [whole] at stopped
  simp only [ofTokens, stopped]
  rfl

/-- Only an item that was opened before is reported, where it is opened again. -/
theorem once_eq_error {f : Fault} :
    (once opened events).result = .error f ↔
      ∃ front item index rest, events = front ++ .opens item index :: rest ∧
        (once opened front).result = .ok () ∧ (item ∈ items front ∨ item ∈ opened) ∧
        f = ⟨.alreadySet item.label, index⟩ := by
  constructor
  · intro stopped
    induction events generalizing opened with
    | nil => simp [once] at stopped
    | cons e events ih =>
      rcases e.plain_or_opens with plain | ⟨item, index, rfl⟩
      · rw [once_cons_plain plain, Reading.bind_of_ok _ rfl] at stopped
        obtain ⟨front, item, index, rest, rfl, kept, again, blamed⟩ := ih stopped
        refine ⟨e :: front, item, index, rest, rfl, ?_, ?_, blamed⟩
        · rwa [once_cons_plain plain, Reading.bind_of_ok _ rfl]
        · rwa [Event.items_cons_plain plain]
      · by_cases again : item ∈ opened
        · rw [once_cons_again again] at stopped
          exact ⟨[], item, index, events, rfl, rfl, .inr again, (Except.error.inj stopped).symm⟩
        · rw [once_cons_fresh again, Reading.bind_of_ok _ rfl] at stopped
          obtain ⟨front, other, place, rest, rfl, kept, known, blamed⟩ := ih stopped
          refine ⟨.opens item index :: front, other, place, rest, rfl, ?_, ?_, blamed⟩
          · rwa [once_cons_fresh again, Reading.bind_of_ok _ rfl]
          · rcases known with inside | known
            · exact .inl (List.mem_cons_of_mem item inside)
            · rcases List.mem_cons.1 known with rfl | before
              · exact .inl List.mem_cons_self
              · exact .inr before
  · rintro ⟨front, item, index, rest, rfl, kept, again, rfl⟩
    rw [once_again kept again]

/-- What is kept stands at the front of the events. -/
theorem once_front (opened : List Item) (events : List Event) :
    ∃ more, events = (once opened events).events ++ more ∧
      (once opened (once opened events).events).result = .ok () := by
  cases outcome : (once opened events).result with
  | ok _ =>
    rw [once_of_ok outcome]
    exact ⟨[], (List.append_nil events).symm, outcome⟩
  | error fault =>
    obtain ⟨front, item, index, rest, rfl, kept, again, _⟩ := once_eq_error.1 outcome
    rw [once_again kept again]
    exact ⟨_, rfl, kept⟩

theorem once_alike {R : Nat → Nat → Prop} {es fs : List Event} (opened : List Item)
    (alike : List.Forall₂ (Event.Alike R) es fs) :
    Reading.Alike R (fun _ _ => True) (once opened es) (once opened fs) := by
  induction alike generalizing opened with
  | nil => exact Reading.alike_pure trivial
  | @cons e f es fs head tail ih =>
    cases head with
    | opens item place =>
      by_cases again : item ∈ opened
      · rw [once_cons_again again, once_cons_again again]
        exact Reading.alike_fail ⟨rfl, place⟩
      · rw [once_cons_fresh again, once_cons_fresh again]
        exact (Reading.alike_emit (.opens item place)).bind fun _ _ _ => ih _
    | code stage front behind =>
      rw [once_cons_plain rfl, once_cons_plain rfl]
      exact (Reading.alike_emit (.code stage front behind)).bind fun _ _ _ => ih _
    | same free =>
      have plain : e.opened? = none := by cases e <;> simp_all [Event.isPlaced, Event.opened?]
      rw [once_cons_plain plain, once_cons_plain plain]
      exact (Reading.alike_emit (.same free)).bind fun _ _ _ => ih _

theorem ofTokens_alike {R : Nat → Nat → Prop} {size size' : Nat} {ss ts : List Token}
    (ends : R size size')
    (alike : List.Forall₂ (Token.Alike R) (significant ss) (significant ts)) :
    Reading.Alike R (fun _ _ => True) (ofTokens size ss) (ofTokens size' ts) := by
  obtain ⟨result, events⟩ := walk_alike .top ends alike
  exact (once_alike [] events).bind fun _ _ _ => Reading.alike_lift result

end Outline

end ShaderDef
