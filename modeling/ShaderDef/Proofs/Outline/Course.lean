import ShaderDef.Proofs.Malformed
import ShaderDef.Proofs.Outline.Bindings
import ShaderDef.Proofs.Outline.Declared
import ShaderDef.Proofs.Outline.Passage

/-! The course of a walk: what it has taken on its way to a place, and how lists and entry points
that are read to their end divide at a place within them. -/

namespace ShaderDef

open Grammar

namespace Grammar

variable {α : Type} {P : List Token → α → Prop} {kind : Token.Kind} {ss ts : List Token} {t : Token}

/-- The last token is well-formed, so nothing in it is cut off by what follows. -/
def Sealed (ts : List Token) : Prop :=
  ∀ t ∈ ts.getLast?, t.kind.isInvalid = false

theorem sealed_nil : Sealed [] :=
  fun _ last => by simp at last

theorem sealed_of_valid (valid : ∀ t ∈ ts, t.kind.isInvalid = false) : Sealed ts :=
  fun t last => valid t (List.mem_of_getLast? last)

theorem sealed_concat (valid : t.kind.isInvalid = false) (ss : List Token) :
    Sealed (ss ++ [t]) := by
  intro s last
  rw [List.getLast?_concat, Option.mem_def, Option.some.injEq] at last
  rwa [← last]

theorem Sealed.append (front : Sealed ss) (behind : Sealed ts) : Sealed (ss ++ ts) := by
  intro t last
  rw [List.getLast?_append, Option.mem_def, Option.or_eq_some_iff] at last
  rcases last with second | ⟨_, first⟩
  · exact behind t second
  · exact front t first

theorem Terminal.sealed (terminal : Terminal kind ts t) (valid : kind.isInvalid = false)
    (ss : List Token) : Sealed (ss ++ ts) := by
  obtain ⟨_, rfl⟩ := terminal
  rw [← List.append_assoc]
  exact sealed_concat valid _

theorem Braced.sealed {a : α} (braced : Braced P ts a) (ss : List Token) : Sealed (ss ++ ts) := by
  obtain ⟨_, _, closed⟩ := braced
  rw [← List.append_assoc, ← List.append_assoc]
  exact closed.sealed rfl _

theorem isInvalid_of_isComment {k : Token.Kind} (comment : k.isComment = true) :
    k.isInvalid = false := by
  have each : ∀ k ∈ Token.Kind.all, k.isComment = true → k.isInvalid = false := by decide
  exact each k k.mem_all comment

theorem Section.sealed {source : String} {ds : List Declaration} (part : Section source ts ds) :
    Sealed ts := by
  cases part with
  | name _ _ ended =>
    rw [← List.append_assoc]
    exact ended.sealed rfl _
  | bindings _ listed => exact listed.sealed _
  | input _ listed => exact listed.sealed _
  | pixelInput _ listed => exact listed.sealed _
  | shader _ listed => exact listed.sealed _

end Grammar

namespace Outline

/-- A segment that a walk takes ends in a well-formed token. -/
theorem Moves.sealed {source : String} {scope scope' : Scope} {seg : List Token}
    (moves : Moves source scope seg scope') : Sealed seg := by
  cases moves with
  | whole part => exact part.sealed
  | enterBindings _ front => exact front.sealed rfl _
  | enterShader _ front => exact front.sealed rfl _
  | bindings part =>
    obtain ⟨_, _, listed⟩ | ⟨_, listed⟩ := part
    · rw [← List.append_assoc]
      exact listed.sealed _
    · exact listed.sealed _
  | shader part =>
    obtain ⟨_, _, _, _, closed⟩ | ⟨_, listed⟩ := part
    · rw [← List.append_assoc, ← List.append_assoc]
      exact sealed_concat (by rw [closed]; rfl) _
    · exact listed.sealed _
  | leave _ closed => exact closed.sealed rfl []

variable {size : Nat} {all ts : List Token} {told : List Event} {scope : Scope} {t : Token}

/-- What a walk has taken on its way to a place does not depend on what stands there. -/
theorem Comes.walks (here : Comes size (significant all) told scope ts) :
    ∃ seg rest, all = seg ++ rest ∧ ts = significant rest ∧ Walks .top scope seg told ∧
      Sealed seg := by
  induction here with
  | start => exact ⟨[], all, rfl, rfl, walks_nil .top, sealed_nil⟩
  | next _ goes ih =>
    obtain ⟨seg, rest, rfl, found, walked, sealed⟩ := ih
    have solid := (List.mem_filter.1 (List.mem_of_mem_head? (congrArg List.head? found.symm))).2
    obtain ⟨front, behind, rfl, opened, rfl⟩ := significant_eq_cons found.symm
    have counts := significant_terminal opened (by simpa using solid)
    obtain ⟨taken, left, rfl, rfl, moves, onward⟩ := step_walks opened counts goes
    exact ⟨seg ++ (front ++ taken), left, by simp, rfl, walked.append onward,
      sealed.append moves.sealed⟩

section Entrypoints

open Reading

open Event (items completed)

variable {close : Token}

inductive Entries : List Token → List Event → Prop
  | nil : Entries [] []
  | cons {point : Entry} {keyword text semicolon : Token} {ts : List Token} {told : List Event}
      (opened : keyword.kind = point.keyword) (named : text.kind = .stringLiteral)
      (ended : semicolon.kind = .semicolon) (rest : Entries ts told) :
      Entries (keyword :: text :: semicolon :: ts)
        (.opens (.entry point) keyword.index :: .entry point text.text :: told)

theorem step_entrypoint (same : t.kind = .entrypointKeyword) (size : Nat) (ts : List Token) :
    step size .shader t ts = goOn .shader (entrypoints size ts) := by
  simp [step, same, Token.Kind.isInvalid, shaderStep, Stage.ofKeyword?]

theorem Entries.read {before : List Token} {earlier : List Event} (whole : Entries before earlier)
    (close : Token) (ts : List Token) :
    entries close (before ++ ts) =
      (⟨earlier, .ok ()⟩ : Reading Unit) >>= fun _ => entries close ts := by
  induction whole with
  | nil => exact (pure_bind () fun _ => entries close ts).symm
  | cons opened named ended _ ih =>
    have known := Entry.ofKeyword?_eq_some.2 opened
    rw [List.cons_append, List.cons_append, List.cons_append, entries]
    simp only [known, List.headD_cons, List.tail_cons, Token.require, named, ended, if_true,
      lift_ok_bind, ih]
    rfl

theorem entrypoints_of_split {brace : Token} {body rest : List Token}
    (front : brace.kind = .leftBrace) (closed : Block.split 0 ts = (body, close :: rest))
    (fine : ∀ s ∈ body, s.kind.isInvalid = false) :
    entrypoints size (brace :: ts) = entries close body >>= fun _ => pure rest := by
  have found : Block.read size ts = .ok ⟨body, close, rest⟩ := Block.read_eq_ok.2 closed
  have block : Block.declarations size ts = .ok ⟨body, close, rest⟩ := by
    rw [Block.declarations, found]
    exact Block.refuse_eq_ok.2 ⟨rfl, fine⟩
  simp only [entrypoints, take_of_kind front, lift_ok_bind, block]

theorem Entries.declared {earlier : List Event} (whole : Entries ts earlier) :
    items earlier = completed earlier := by
  induction whole with
  | nil => rfl
  | cons _ _ _ _ ih =>
    simp only [items, completed, List.filterMap_cons] at ih ⊢
    simp [Event.opened?, Event.item?, ih]

theorem Entries.of_ok (closed : close.kind = .rightBrace)
    (ok : (entries close ts).result = .ok ()) : ∃ told, Entries ts told := by
  induction ts using entries.induct close with
  | case1 => exact ⟨[], .nil⟩
  | case2 t rest unknown =>
    rw [entries] at ok
    simp [unknown] at ok
  | case3 t rest point known ih =>
    rw [entries] at ok
    simp only [known] at ok
    obtain ⟨_, _, ok⟩ := bind_eq_ok.1 ok
    obtain ⟨_, named, ok⟩ := bind_eq_ok.1 ok
    obtain ⟨_, ended, ok⟩ := bind_eq_ok.1 ok
    obtain ⟨_, _, ok⟩ := bind_eq_ok.1 ok
    have named := Token.require_eq_ok.1 named
    have ended := Token.require_eq_ok.1 ended
    rcases rest with _ | ⟨text, _ | ⟨semicolon, rest⟩⟩
    · simp [closed] at named
    · simp [closed] at ended
    · obtain ⟨told, whole⟩ := ih ok
      exact ⟨_, .cons (Entry.ofKeyword?_eq_some.1 known) named ended whole⟩

theorem Entries.append {before : List Token} {earlier : List Event} (front : Entries before earlier)
    (behind : Entries ts told) : Entries (before ++ ts) (earlier ++ told) := by
  induction front with
  | nil => exact behind
  | cons opened named ended _ ih => exact .cons opened named ended ih

/-- Entry points divide at the keyword of each of them. -/
theorem Entries.divide {before more : List Token} {point : Entry}
    (whole : Entries (before ++ t :: more) told) (same : t.kind = point.keyword) :
    ∃ first second, Entries before first ∧ Entries (t :: more) second ∧ told = first ++ second := by
  have other : t.kind ≠ .stringLiteral ∧ t.kind ≠ .semicolon := by
    rw [same]
    cases point <;> decide
  induction length : before.length using Nat.strongRecOn generalizing before told with
  | _ n ih =>
    rcases before with _ | ⟨keyword, _ | ⟨text, _ | ⟨semicolon, before⟩⟩⟩
    · exact ⟨[], told, .nil, whole, rfl⟩
    · obtain _ | ⟨_, named⟩ := whole
      exact absurd named other.1
    · obtain _ | ⟨_, _, ended⟩ := whole
      exact absurd ended other.2
    · obtain _ | ⟨opened, named, ended, whole⟩ := whole
      obtain ⟨first, second, left, right, rfl⟩ :=
        ih before.length (by simp [← length]; omega) whole rfl
      exact ⟨_, second, .cons opened named ended left, right, rfl⟩

theorem Entries.quiet (whole : Entries ts told) : Quiet ts := by
  induction whole with
  | nil => exact fun _ none => by simp at none
  | @cons point keyword text semicolon ts told opened named ended _ ih =>
    have first : keyword.kind ≠ .leftBrace ∧ keyword.kind ≠ .rightBrace ∧
        keyword.kind.isInvalid = false := by
      rw [opened]
      cases point <;> decide
    intro s inside
    rcases List.mem_cons.1 inside with rfl | inside
    · exact first
    rcases List.mem_cons.1 inside with rfl | inside
    · rw [named]
      decide
    rcases List.mem_cons.1 inside with rfl | inside
    · rw [ended]
      decide
    · exact ih s inside

/-- The walk over a scope of entry points. -/
theorem Entries.walk {opening brace : Token} (whole : Entries ts told)
    (opened : opening.kind = .entrypointKeyword) (front : brace.kind = .leftBrace)
    (closed : close.kind = .rightBrace) (size : Nat) (rest : List Token) :
    walk size .shader (opening :: brace :: (ts ++ close :: rest)) =
      (⟨told, .ok ()⟩ : Reading Unit) >>= fun _ => Outline.walk size .shader rest := by
  have split := Block.split_of_nested rest whole.quiet.nested closed
  have read := whole.read close []
  rw [List.append_nil, entries] at read
  have entered : entrypoints size (brace :: (ts ++ close :: rest)) = ⟨told, .ok rest⟩ := by
    rw [entrypoints_of_split front split fun s inside => (whole.quiet s inside).2.2, read,
      bind_assoc, bind_of_ok _ rfl]
    simp
  have stepped : step size .shader opening (brace :: (ts ++ close :: rest)) =
      ⟨told, .ok (.shader, rest)⟩ := by
    rw [step_entrypoint opened, goOn, entered, bind_of_ok _ rfl]
    simp
  rw [walk_cons, stepped, bind_of_ok _ rfl, bind_of_ok _ rfl]

end Entrypoints

section Lists

/-- A list divides between its entries. -/
theorem listOfTokens_append (label : String) {before : List Token} (whole : 5 ∣ before.length)
    (ts : List Token) :
    Binding.listOfTokens label (before ++ ts) = do
      let first ← Binding.listOfTokens label before
      let second ← Binding.listOfTokens label ts
      return first ++ second := by
  induction before using Binding.listOfTokens.induct with
  | case1 type name colon slot semicolon rest ih =>
    have fewer : 5 ∣ rest.length := by
      simp only [List.length_cons] at whole
      omega
    simp only [List.cons_append, Binding.listOfTokens, ih fewer]
    cases Binding.ofTokens type name colon slot semicolon with
    | error fault => rfl
    | ok binding =>
      cases Binding.listOfTokens label rest with
      | error fault => rfl
      | ok first => cases Binding.listOfTokens label ts <;> rfl
  | case2 =>
    rw [List.nil_append]
    cases Binding.listOfTokens label ts <;> rfl
  | case3 t rest short =>
    have few := Binding.length_of_short short
    rw [List.length_cons] at whole
    omega

theorem quiet_of_listOfTokens {label : String} {bs : List Binding}
    (listed : Binding.listOfTokens label ts = .ok bs) : Quiet ts := by
  induction ts using Binding.listOfTokens.induct generalizing bs with
  | case1 type name colon slot semicolon rest ih =>
    obtain ⟨b, first, listed⟩ := Except.bind_eq_ok.1 listed
    obtain ⟨others, later, _⟩ := Except.bind_eq_ok.1 listed
    obtain ⟨⟨typed, named, divided, placed, ended⟩, _⟩ := bound_of_ofTokens first
    have head : Quiet [type, name, colon, slot, semicolon] := by
      intro s inside
      simp only [List.mem_cons, List.not_mem_nil, or_false] at inside
      rcases inside with rfl | rfl | rfl | rfl | rfl
      · simp [typed, Token.Kind.isInvalid]
      · simp [named, Token.Kind.isInvalid]
      · simp [divided, Token.Kind.isInvalid]
      · rcases placed with symbol | number
        · simp [symbol, Token.Kind.isInvalid]
        · simp [number, Token.Kind.isInvalid]
      · simp [ended, Token.Kind.isInvalid]
    exact head.append (ih later)
  | case2 => exact fun _ none => by simp at none
  | case3 head rest short =>
    rw [Binding.listOfTokens] at listed
    · cases listed
    · exact short

/-- The first token of a list is the type of its first entry. -/
theorem kind_of_listOfTokens {label : String} {bs : List Binding}
    (listed : Binding.listOfTokens label (t :: ts) = .ok bs) : t.kind = .symbol := by
  rcases ts with _ | ⟨name, _ | ⟨colon, _ | ⟨slot, _ | ⟨semicolon, rest⟩⟩⟩⟩
  iterate 4 cases listed
  obtain ⟨b, first, _⟩ := Except.bind_eq_ok.1 listed
  exact (bound_of_ofTokens first).1.1

/-- The walk over a section of textures. -/
theorem walk_textures {keyword brace close : Token} {bs : List Binding}
    (opened : keyword.kind = .texturesKeyword) (front : brace.kind = .leftBrace)
    (listed : Binding.listOfTokens "Textures" ts = .ok bs) (closed : close.kind = .rightBrace)
    (size : Nat) (rest : List Token) :
    walk size .bindings (keyword :: brace :: (ts ++ close :: rest)) =
      (⟨[.textures bs], .ok ()⟩ : Reading Unit) >>= fun _ => walk size .bindings rest := by
  have block : Block.declarations size (ts ++ close :: rest) = .ok ⟨ts, close, rest⟩ :=
    declarations_quiet (quiet_of_listOfTokens listed) closed rest
  have read : bindings size "Textures" .textures (brace :: (ts ++ close :: rest)) =
      ⟨[.textures bs], .ok rest⟩ := by
    simp only [bindings, take_of_kind front, Reading.lift_ok_bind, block, listed]
    rfl
  have stepped : step size .bindings keyword (brace :: (ts ++ close :: rest)) =
      ⟨[.textures bs], .ok (.bindings, rest)⟩ := by
    simp only [step, opened, Token.Kind.isInvalid, bindingsStep, goOn, read]
    rfl
  rw [walk_cons, stepped, Reading.bind_of_ok _ rfl, Reading.bind_of_ok _ rfl]

end Lists

end Outline

end ShaderDef
