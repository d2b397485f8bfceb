import ShaderDef.Proofs.OnePass.Scope

/-! Sections in one pass. Each section is read from its keyword to its end, and is then what the
definition holds. Between two sections every item that has been opened is declared, so the
definition shows which of them there are. -/

namespace ShaderDef

open Text Outline
open Event (items completed)

variable {source : String} {p : Pass} {t : Token} {ts : List Token} {told : List Event}
  {item : Item}

structure Pass.Between (source : String) (p : Pass) (ts : List Token) (told : List Event)
    (left : Reading Unit) : Prop extends p.Stands source ts told left where
  level : items told = completed told

def Pass.Before (source : String) (scope : Scope) (p : Pass) : Prop :=
  ∃ ts told, p.Between source ts told
    (walk (size source.toList) scope (Outline.significant ts))

namespace Pass

theorem Between.isSet_iff {left : Reading Unit} (here : p.Between source ts told left)
    (item : Item) : p.isSet item = true ↔ item ∈ items told := by
  have shown (listed : item ≠ .input) (listed' : item ≠ .pixelInput) :
      p.definition.shows item = true ↔ item ∈ items told := by
    rw [here.definition, here.level]
    exact Definition.shows_assigned listed listed'
  cases item with
  | input => exact here.input
  | pixelInput => exact here.pixelInput
  | _ => exact shown (by simp) (by simp)

theorem Holds.tell {e : Event} {d : Definition} (holds : p.Holds source told)
    (plain : e.opened? = none) (writes : d = .assign source p.definition e) :
    Holds source { p with definition := d } (told ++ [e]) := by
  have same : items (told ++ [e]) = items told := Event.items_concat_plain plain
  refine ⟨?_, same ▸ holds.input, same ▸ holds.pixelInput⟩
  rw [Definition.assigned_concat, ← holds.definition, writes]

theorem Holds.begin (holds : p.Holds source told) (item : Item) (index : Nat) :
    (p.begin item).Holds source (told ++ [.opens item index]) := by
  obtain ⟨definition, input, pixelInput⟩ := holds
  refine ⟨?_, ?_, ?_⟩
  · rw [Definition.assigned_concat, ← definition]
    cases item <;> rfl
  · rw [Event.items_concat_opens]
    cases item <;> simp [Pass.begin, input]
  · rw [Event.items_concat_opens]
    cases item <;> simp [Pass.begin, pixelInput]

theorem At.begin (here : p.At source ts) (item : Item) : (p.begin item).At source ts := by
  cases item <;> exact ⟨here.boundary, here.sound, here.tokens, here.received⟩

end Pass

namespace Pull

theorem start_ends {k : Unit → Reading Unit}
    (here : p.Between source ts told (.emit (.opens item t.index) >>= k)) :
    (start item t).Ends source p fun _ q =>
      q.Stands source ts (told ++ [.opens item t.index]) (k ()) := by
  by_cases again : item ∈ items told
  · have ran : (start item t).run p = (.error (.fault ⟨.alreadySet item.label, t.index⟩), p) :=
      if_pos ((here.isSet_iff item).2 again)
    rw [Ends, ran]
    exact ⟨here.follows.again again, here.toAt.stream⟩
  · have ran : (start item t).run p = (.ok (), p.begin item) :=
      if_neg fun set => again ((here.isSet_iff item).1 set)
    exact ends_of_run ran ⟨here.toAt.begin item, here.toHolds.begin item t.index,
      here.follows.opens again⟩

theorem write_ends {e : Event} {change : Definition → Definition} {k : Unit → Reading Unit}
    (here : p.Stands source ts told (.emit e >>= k)) (plain : e.opened? = none)
    (writes : change p.definition = .assign source p.definition e) :
    (write change).Ends source p fun _ q => q.Stands source ts (told ++ [e]) (k ()) :=
  ends_of_run rfl ⟨⟨here.boundary, here.sound, here.tokens, here.received⟩,
    here.toHolds.tell plain writes, here.follows.plain plain⟩

def Reads (source : String) (f : Pull Unit) (read : List Token → Reading (List Token)) : Prop :=
  ∀ p ts told k, p.Between source ts told (read (Outline.significant ts) >>= k) →
    f.Ends source p fun _ q => ∃ rest told',
      q.Between source rest told' (k (Outline.significant rest))

theorem level_declared {index : Nat} {e : Event} (level : items told = completed told)
    (plain : e.opened? = none) (declares : e.item? = some item) :
    items (told ++ [.opens item index] ++ [e]) =
      completed (told ++ [.opens item index] ++ [e]) := by
  rw [List.append_assoc, Event.items_append, Event.completed_append, level]
  exact congrArg _ (Event.level_pair plain declares)

theorem name_reads (t : Token) : (name source t).Reads source fun ts =>
    declare .name t (Outline.name (size source.toList) ts) := by
  intro p ts told k here
  simp only [declare, Outline.name, Reading.bind_assoc] at here
  refine (start_ends here).bind fun _ q there => ?_
  refine (expect_ends there (by simp)).bind ?_
  rintro text q ⟨_, _, ts, there⟩
  refine (expect_ends there (by simp)).bind ?_
  rintro _ q ⟨_, _, ts, there⟩
  refine (write_ends there rfl rfl).imp fun _ q there => ?_
  exact ⟨ts, _, there, level_declared here.level rfl rfl⟩

theorem bindings_ends {label : String} {event : List Binding → Event}
    {k : List Token → Reading Unit}
    (here : p.Stands source ts told
      (Outline.bindings (size source.toList) label event (Outline.significant ts) >>= k))
    (plain : ∀ list, (event list).opened? = none) :
    (bindings source label event).Ends source p fun _ q => ∃ rest list,
      q.Stands source rest (told ++ [event list]) (k (Outline.significant rest)) := by
  simp only [Outline.bindings, Reading.bind_assoc] at here
  refine (expect_ends here (by simp)).bind ?_
  rintro _ q ⟨_, _, ts, there⟩
  refine (structuredScope_ends there).bind ?_
  rintro scope q ⟨ts, there⟩
  refine Ends.lift there fun list _ there => ?_
  exact (write_ends there (plain list) rfl).imp fun _ q there => ⟨ts, list, there⟩

theorem inputs_reads {event : List Binding → Event} (plain : ∀ list, (event list).opened? = none)
    (declares : ∀ list, (event list).item? = some item) (t : Token) :
    (inputs source item event t).Reads source fun ts =>
      declare item t (Outline.bindings (size source.toList) item.label event ts) := by
  intro p ts told k here
  simp only [declare, Reading.bind_assoc] at here
  refine (start_ends here).bind fun _ q there => ?_
  refine (bindings_ends there plain).imp ?_
  rintro _ q ⟨ts, list, there⟩
  exact ⟨ts, _, there, level_declared here.level (plain list) (declares list)⟩

theorem level_other {e : Event} (level : items told = completed told) (plain : e.opened? = none)
    (other : e.item? = none) : items (told ++ [e]) = completed (told ++ [e]) := by
  rw [Event.items_append, Event.completed_append, level]
  exact congrArg _ ((Reading.paired_plain plain other).done () rfl)

theorem textures_reads : (bindings source "Textures" .textures).Reads source fun ts =>
    Outline.bindings (size source.toList) "Textures" .textures ts := by
  intro p ts told k here
  refine (bindings_ends here.toStands fun _ => rfl).imp ?_
  rintro _ q ⟨ts, list, there⟩
  exact ⟨ts, _, there, level_other here.level rfl rfl⟩

theorem uniforms_reads :
    (uniforms source).Reads source (Outline.uniforms (size source.toList)) := by
  intro p ts told k here
  simp only [Outline.uniforms, Reading.bind_assoc] at here
  refine (expect_ends here.toStands (by simp)).bind ?_
  rintro buffer q ⟨_, _, ts, there⟩
  refine (bindings_ends there fun _ => rfl).imp ?_
  rintro _ q ⟨ts, list, there⟩
  exact ⟨ts, _, there, level_other here.level rfl rfl⟩

theorem code_reads (stage : Stage) (t : Token) : (code source stage t).Reads source fun ts =>
    declare (.code stage) t (Outline.code (size source.toList) stage ts) := by
  intro p ts told k here
  simp only [declare, Outline.code, Reading.bind_assoc] at here
  refine (start_ends here).bind fun _ q there => ?_
  refine (expect_ends there (by simp)).bind ?_
  rintro opening q ⟨front, given, ts, there⟩
  refine (rawScope_ends there given front).bind ?_
  rintro text q ⟨b, ts, same, rest, there⟩
  refine (write_ends there rfl (same ▸ rfl)).imp fun _ q there => ?_
  exact ⟨ts, _, rest ▸ there, level_declared here.level rfl rfl⟩

theorem entries_ends {close : Token} {body : List Token} {k : Unit → Reading Unit}
    (here : p.Between source ts told (Outline.entries close body >>= k)) :
    (entries source close body).Ends source p fun _ q => ∃ told',
      q.Between source ts told' (k ()) := by
  induction body using Outline.entries.induct close generalizing p told with
  | case1 =>
    rw [entries]
    rw [Outline.entries, Reading.pure_bind] at here
    exact ends_pure ⟨told, here⟩
  | case2 t rest unknown =>
    rw [entries]
    rw [Outline.entries] at here
    simp only [unknown, Reading.fail_bind] at here ⊢
    exact ends_fail here.follows.fails here.toAt.stream
  | case3 t rest point known ih =>
    rw [entries]
    rw [Outline.entries] at here
    simp only [known, Reading.bind_assoc] at here ⊢
    refine (start_ends here).bind fun _ q there => ?_
    refine Ends.lift there fun _ _ there => Ends.lift there fun _ _ there => ?_
    refine (write_ends there rfl rfl).bind fun _ q there => ?_
    exact ih ⟨there, level_declared here.level rfl rfl⟩

theorem entrypoints_reads :
    (entrypoints source).Reads source (Outline.entrypoints (size source.toList)) := by
  intro p ts told k here
  simp only [Outline.entrypoints, Reading.bind_assoc] at here
  refine (expect_ends here.toStands (by simp)).bind ?_
  rintro _ q ⟨_, _, ts, there⟩
  refine (structuredScope_ends there).bind ?_
  rintro scope q ⟨ts, there⟩
  refine (entries_ends ⟨there, here.level⟩).imp ?_
  rintro _ q ⟨told', there⟩
  exact ⟨ts, told', there⟩

end Pull

end ShaderDef
