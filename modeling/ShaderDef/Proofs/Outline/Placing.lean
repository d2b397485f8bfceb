import ShaderDef.Proofs.Outline.Opening

/-! Where a walk points to. The keyword of an item that it opens and the token that it stops at are
among the tokens that it has still to read, or it stops at the end. -/

namespace ShaderDef.Outline

open Reading

variable {α β : Type} {size : Nat} {ts : List Token} {close : Token} {r : Reading α}

/-- What a reading opens, and the fault that stops it, is at one of these tokens or at the end. -/
structure Placed (size : Nat) (ts : List Token) (r : Reading α) : Prop where
  opens : ∀ item index, .opens item index ∈ r.events → ∃ t ∈ ts, t.index = index
  stops : ∀ f, r.result = .error f → f.index = size ∨ ∃ t ∈ ts, t.index = f.index

theorem Placed.bind {next : α → Reading β} (first : Placed size ts r)
    (second : ∀ a, r.result = .ok a → Placed size ts (next a)) : Placed size ts (r >>= next) where
  opens item index told := by
    rcases mem_events_bind.1 told with here | ⟨a, ok, later⟩
    · exact first.opens item index here
    · exact (second a ok).opens item index later
  stops f stopped := by
    rcases bind_eq_error.1 stopped with here | ⟨a, ok, later⟩
    · exact first.stops f here
    · exact (second a ok).stops f later

theorem Placed.widen {us : List Token} (placed : Placed size ts r) (within : ts ⊆ us) :
    Placed size us r where
  opens item index told :=
    let ⟨t, inside, place⟩ := placed.opens item index told
    ⟨t, within inside, place⟩
  stops f stopped := (placed.stops f stopped).imp_right fun ⟨t, inside, place⟩ =>
    ⟨t, within inside, place⟩

theorem place_of_exposed {P : Token → Prop} {index : Nat} (exposed : Token.Exposed P ts)
    (place : ∀ t, P t → t.index = index) : ∃ t ∈ ts, t.index = index := by
  obtain ⟨before, t, behind, rfl, _, holds⟩ := exposed
  exact ⟨t, by simp, place t holds⟩

/-- Any scope can be reached. -/
theorem exists_reaches (size : Nat) (scope : Scope) (ts : List Token) :
    ∃ all, Reaches size all scope ts := by
  cases scope with
  | top => exact ⟨ts, .start⟩
  | bindings => exact ⟨⟨.bindingsKeyword, 0, ""⟩ :: ⟨.leftBrace, 0, ""⟩ :: ts, .next .start rfl⟩
  | shader => exact ⟨⟨.shaderKeyword, 0, ""⟩ :: ⟨.leftBrace, 0, ""⟩ :: ts, .next .start rfl⟩

theorem step_placed (size : Nat) (scope : Scope) (t : Token) (ts : List Token) :
    Placed size (t :: ts) (step size scope t ts) where
  opens item index told := place_of_exposed (opens_of_step told) fun _ same => same.2
  stops f stopped := by
    obtain ⟨all, here⟩ := exists_reaches size scope (t :: ts)
    rcases step_blames here stopped with exposed | ⟨ended, _⟩
    · exact .inr (place_of_exposed exposed fun _ points => points.place.symm)
    · exact .inl ended

theorem walk_placed (size : Nat) (scope : Scope) (ts : List Token) :
    Placed size ts (walk size scope ts) := by
  induction scope, ts using walk.induct size with
  | case1 scope =>
    have none : (finish size scope).events = [] := by cases scope <;> rfl
    rw [walk_nil]
    refine ⟨fun item index told => by simp [none] at told, fun f stopped => .inl ?_⟩
    cases scope with
    | top => cases stopped
    | _ =>
      obtain rfl := Except.error.inj stopped
      rfl
  | case2 scope t ts ih =>
    rw [walk_cons]
    refine (step_placed size scope t ts).bind fun next ok => (ih next ok).widen ?_
    exact List.Subset.trans (step_suffix ok).subset (List.subset_cons_self t ts)

theorem entries_placed (fine : ∀ t ∈ ts, t.kind.isInvalid = false) :
    Placed size (ts ++ [close]) (entries close ts) where
  opens item index told :=
    let ⟨s, inside, _, place⟩ := opens_of_entries told
    ⟨s, List.mem_append_left _ inside, place⟩
  stops f stopped := by
    have blamed : ∃ t ∈ ts ++ [close], f.PointsAt (fun _ _ => True) t :=
      points_of_entries fine stopped
    obtain ⟨s, inside, points⟩ := blamed
    exact .inr ⟨s, inside, points.place.symm⟩

end ShaderDef.Outline
