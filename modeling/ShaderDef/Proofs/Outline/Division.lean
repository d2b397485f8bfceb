import ShaderDef.Proofs.Assign
import ShaderDef.Proofs.Lexical.Word
import ShaderDef.Proofs.Outline.Course

/-! Divisions: scopes that may be closed in front of a part of theirs and opened again. What has
been taken of the scope is told where it is closed, and what is left where it has been opened
again; together this is what the undivided scope tells, except that a list comes in two. -/

namespace ShaderDef

open Grammar

namespace Outline

/-- The scopes that may be divided, each between its parts: buffers and textures, single textures,
stages and entry points, single entry points. -/
inductive Division where
  | bindings | textures | shader | entrypoint
deriving DecidableEq, Repr

namespace Division

def keyword : Division → Token.Kind
  | .bindings => .bindingsKeyword
  | .textures => .texturesKeyword
  | .shader => .shaderKeyword
  | .entrypoint => .entrypointKeyword

def outer : Division → Scope
  | .bindings | .shader => .top
  | .textures => .bindings
  | .entrypoint => .shader

/-- Where a walk is that comes to the first part. A section of textures or of entry points is read
in one step, so the walk is still in front of it. -/
def scope : Division → Scope
  | .bindings | .textures => .bindings
  | .shader | .entrypoint => .shader

def reopen (d : Division) (size : Nat) (ts : List Token) : Reading Unit :=
  walk size d.outer (⟨d.keyword, size, ""⟩ :: ⟨.leftBrace, size, ""⟩ :: ts)

end Division

open Reading

variable {size : Nat} {d : Division} {ts taken : List Token} {opening brace close t : Token}
  {early es fs : List Event} {b : Block}

/-- Where a scope is opened does not count. -/
theorem Division.step_opening {opening' brace' : Token} (opened : opening.kind = d.keyword)
    (front : brace.kind = .leftBrace) (opened' : opening'.kind = d.keyword)
    (front' : brace'.kind = .leftBrace) (size : Nat) (ts : List Token) :
    step size d.outer opening (brace :: ts) = step size d.outer opening' (brace' :: ts) := by
  cases d with
  | bindings =>
    simp only [outer, step_bindingsKeyword opened, step_bindingsKeyword opened', enter,
      take_of_kind front, take_of_kind front', lift_ok_bind]
  | textures =>
    simp only [outer, keyword, step, opened, opened', Token.Kind.isInvalid, bindingsStep,
      Outline.bindings, take_of_kind front, take_of_kind front', lift_ok_bind, Bool.false_eq_true,
      if_false]
  | shader =>
    simp only [outer, step_shaderKeyword opened, step_shaderKeyword opened', enter,
      take_of_kind front, take_of_kind front', lift_ok_bind]
  | entrypoint =>
    simp only [outer, step_entrypoint opened, step_entrypoint opened', entrypoints,
      take_of_kind front, take_of_kind front', lift_ok_bind]

theorem Division.walk_opening (opened : opening.kind = d.keyword) (front : brace.kind = .leftBrace)
    (size : Nat) (ts : List Token) :
    walk size d.outer (opening :: brace :: ts) = d.reopen size ts := by
  have same : step size d.outer opening (brace :: ts) =
      step size d.outer ⟨d.keyword, size, ""⟩ (⟨.leftBrace, size, ""⟩ :: ts) :=
    step_opening opened front rfl rfl size ts
  rw [reopen, walk_cons, walk_cons, same]

/-- What counts of a scope up to a place between its parts, as far as no step has taken it, and
what it tells. -/
inductive Division.Inside : Division → List Token → List Event → Prop
  | bindings : Inside .bindings [] []
  | textures {opening brace : Token} {ts : List Token} {bs : List Binding}
      (opened : opening.kind = .texturesKeyword) (front : brace.kind = .leftBrace)
      (listed : Binding.listOfTokens "Textures" ts = .ok bs) :
      Inside .textures (opening :: brace :: ts) [.textures bs]
  | shader : Inside .shader [] []
  | entrypoint {opening brace : Token} {ts : List Token} {told : List Event}
      (opened : opening.kind = .entrypointKeyword) (front : brace.kind = .leftBrace)
      (whole : Entries ts told) : Inside .entrypoint (opening :: brace :: ts) told

/-- The scope may be closed between its parts. -/
theorem Division.Inside.closes (inside : d.Inside taken early) (closed : close.kind = .rightBrace)
    (size : Nat) (ts : List Token) :
    walk size d.scope (taken ++ close :: ts) =
      (⟨early, .ok ()⟩ : Reading Unit) >>= fun _ => walk size d.outer ts := by
  cases inside with
  | bindings =>
    rw [List.nil_append, walk_cons, scope, step_rightBrace (by decide) closed, Reading.pure_bind]
    exact (Reading.pure_bind () fun _ => walk size .top ts).symm
  | textures opened front listed => exact walk_textures opened front listed closed size ts
  | shader =>
    rw [List.nil_append, walk_cons, scope, step_rightBrace (by decide) closed, Reading.pure_bind]
    exact (Reading.pure_bind () fun _ => walk size .top ts).symm
  | entrypoint opened front whole => exact whole.walk opened front closed size ts

theorem split_quiet (quiet : Quiet taken) (ts : List Token) :
    Block.split 0 (taken ++ ts) = (taken ++ (Block.split 0 ts).1, (Block.split 0 ts).2) := by
  induction taken with
  | nil => rfl
  | cons t taken ih =>
    obtain ⟨left, right, _⟩ := quiet t List.mem_cons_self
    rw [List.cons_append, Block.split, if_neg fun both => right both.1,
      Token.Kind.nest_other 0 left right,
      ih fun s inside => quiet s (List.mem_cons_of_mem t inside)]
    rfl

/-- A block of declarations begins with the quiet tokens that stand at its front, and goes on up to
the brace that closes it. -/
theorem declarations_append (quiet : Quiet taken)
    (found : Block.declarations size (taken ++ ts) = .ok b) :
    ∃ more, b.body = taken ++ more ∧ ts = more ++ b.close :: b.rest ∧
      b.close.kind = .rightBrace := by
  obtain ⟨b, read, kept⟩ := Except.bind_eq_ok.1 found
  obtain ⟨rfl, _⟩ := Block.refuse_eq_ok.1 kept
  have halves := Block.read_eq_ok.1 read
  obtain ⟨_, closed⟩ := Block.nested_of_split halves
  rw [split_quiet quiet] at halves
  obtain ⟨body, rest⟩ := Prod.mk.inj halves
  refine ⟨(Block.split 0 ts).1, body.symm, ?_, closed⟩
  rw [← rest, Block.split_append]

inductive Retold : List Event → List Event → Prop
  | same (es : List Event) : Retold es es
  | lists (front : List Event) (bs cs : List Binding) (behind : List Event) :
      Retold (front ++ .textures (bs ++ cs) :: behind)
        (front ++ .textures bs :: .textures cs :: behind)

theorem Retold.prepend (retold : Retold es fs) (front : List Event) :
    Retold (front ++ es) (front ++ fs) := by
  cases retold with
  | same => exact .same _
  | lists first bs cs behind =>
    rw [← List.append_assoc, ← List.append_assoc]
    exact .lists (front ++ first) bs cs behind

theorem Retold.items (retold : Retold es fs) : Event.items es = Event.items fs := by
  cases retold with
  | same => rfl
  | lists front bs cs behind =>
    rw [Event.items_append, Event.items_append]
    rfl

theorem Retold.ofEvents (retold : Retold es fs) (source : String) :
    Definition.ofEvents source es = Definition.ofEvents source fs := by
  cases retold with
  | same => rfl
  | lists front bs cs behind =>
    have parts : Definition.ofEvents source [.textures (bs ++ cs)] =
        Definition.ofEvents source [.textures bs, .textures cs] := by
      simp only [Definition.ofEvents, List.flatMap_cons, List.flatMap_nil, List.append_nil]
      rfl
    change Definition.ofEvents source (front ++ ([.textures (bs ++ cs)] ++ behind)) =
      Definition.ofEvents source (front ++ ([.textures bs, .textures cs] ++ behind))
    rw [Definition.ofEvents_append, Definition.ofEvents_append _ [_], parts,
      ← Definition.ofEvents_append, ← Definition.ofEvents_append]

theorem list_of_step (opened : opening.kind = .texturesKeyword) (front : brace.kind = .leftBrace)
    (ok : (walk size .bindings (opening :: brace :: ts)).result = .ok ()) :
    ∃ b bs, Block.declarations size ts = .ok b ∧
      Binding.listOfTokens "Textures" b.body = .ok bs := by
  have stepped : step size .bindings opening (brace :: ts) =
      goOn .bindings (bindings size "Textures" .textures (brace :: ts)) := by
    simp [step, opened, Token.Kind.isInvalid, bindingsStep]
  rw [walk_cons, stepped, bindings, take_of_kind front, lift_ok_bind] at ok
  obtain ⟨_, goes, _⟩ := bind_eq_ok.1 ok
  obtain ⟨_, read, _⟩ := bind_eq_ok.1 goes
  obtain ⟨b, found, read⟩ := bind_eq_ok.1 read
  obtain ⟨bs, listed, _⟩ := bind_eq_ok.1 read
  exact ⟨b, bs, found, listed⟩

theorem entries_of_step (opened : opening.kind = .entrypointKeyword)
    (front : brace.kind = .leftBrace)
    (ok : (walk size .shader (opening :: brace :: ts)).result = .ok ()) :
    ∃ b, Block.declarations size ts = .ok b ∧ (entries b.close b.body).result = .ok () := by
  rw [walk_cons, step_entrypoint opened, entrypoints, take_of_kind front, lift_ok_bind] at ok
  obtain ⟨_, goes, _⟩ := bind_eq_ok.1 ok
  obtain ⟨_, read, _⟩ := bind_eq_ok.1 goes
  obtain ⟨b, found, read⟩ := bind_eq_ok.1 read
  obtain ⟨_, whole, _⟩ := bind_eq_ok.1 read
  exact ⟨b, found, whole⟩

theorem reopen_bindings (size : Nat) (ts : List Token) :
    Division.bindings.reopen size ts = walk size .bindings ts := by
  have front : Token.kind ⟨.leftBrace, size, ""⟩ = .leftBrace := rfl
  rw [Division.reopen, walk_cons, Division.outer, step_bindingsKeyword rfl, enter,
    take_of_kind front, lift_ok_bind, pure_bind]

theorem reopen_shader (size : Nat) (ts : List Token) :
    Division.shader.reopen size ts = walk size .shader ts := by
  have front : Token.kind ⟨.leftBrace, size, ""⟩ = .leftBrace := rfl
  rw [Division.reopen, walk_cons, Division.outer, step_shaderKeyword rfl, enter,
    take_of_kind front, lift_ok_bind, pure_bind]

theorem behind_of_told {told : List Event} {r : Reading Unit}
    (whole : ((⟨told, .ok ()⟩ : Reading Unit) >>= fun _ => r) = ⟨es, .ok ()⟩) :
    ∃ later, r = ⟨later, .ok ()⟩ ∧ es = told ++ later := by
  obtain ⟨later, result⟩ := r
  rw [bind_of_ok _ rfl] at whole
  obtain ⟨rfl, rfl⟩ := Reading.mk.inj whole
  exact ⟨later, rfl, rfl⟩

/-- What is left of a scope is read in the same way where the scope is opened anew. -/
theorem Division.Inside.reopens (inside : d.Inside taken early)
    (ok : walk size d.scope (taken ++ ts) = ⟨es, .ok ()⟩) :
    ∃ later, d.reopen size ts = ⟨later, .ok ()⟩ ∧ Retold es (early ++ later) := by
  cases inside with
  | bindings => exact ⟨es, (reopen_bindings size ts).trans ok, .same es⟩
  | shader => exact ⟨es, (reopen_shader size ts).trans ok, .same es⟩
  | textures opened front listed =>
    rename_i bs
    obtain ⟨b, list, found, read⟩ := list_of_step opened front (congrArg Reading.result ok)
    obtain ⟨more, body, rfl, closed⟩ := declarations_append (quiet_of_listOfTokens listed) found
    rw [body] at read
    have parts := read
    have entries := (Binding.listOfTokens_eq_ok.1 listed).length
    rw [listOfTokens_append _ ⟨_, entries⟩] at parts
    obtain ⟨_, first, parts⟩ := Except.bind_eq_ok.1 parts
    obtain ⟨cs, second, same⟩ := Except.bind_eq_ok.1 parts
    obtain rfl := Except.ok.inj (listed.symm.trans first)
    obtain rfl : bs ++ cs = list := Except.ok.inj same
    have undivided := walk_textures opened front read closed size b.rest
    have divided : Division.textures.reopen size (more ++ b.close :: b.rest) = _ :=
      walk_textures rfl rfl second closed size b.rest
    rw [List.append_assoc] at undivided
    obtain ⟨later, rest, rfl⟩ := behind_of_told (undivided.symm.trans ok)
    rw [divided, rest]
    exact ⟨_, rfl, .lists [] bs cs later⟩
  | entrypoint opened front whole =>
    obtain ⟨b, found, read⟩ := entries_of_step opened front (congrArg Reading.result ok)
    obtain ⟨more, body, rfl, closed⟩ := declarations_append whole.quiet found
    rw [body, whole.read] at read
    obtain ⟨_, _, behind⟩ := bind_eq_ok.1 read
    obtain ⟨told, behind⟩ := Entries.of_ok closed behind
    have undivided := (whole.append behind).walk opened front closed size b.rest
    have divided : Division.entrypoint.reopen size (more ++ b.close :: b.rest) = _ :=
      behind.walk rfl rfl closed size b.rest
    rw [List.append_assoc] at undivided
    obtain ⟨later, rest, rfl⟩ := behind_of_told (undivided.symm.trans ok)
    rw [divided, rest, List.append_assoc]
    exact ⟨_, rfl, .same _⟩

inductive Seam (d : Division) : List Token → List Event → Token → Prop
  | intro {seg inner : List Token} {told early : List Event} {t : Token}
      (walked : Walks .top d.scope seg told) (inside : d.Inside (significant inner) early)
      (sealed : Sealed (seg ++ inner)) (worded : t.kind.isWord = true) :
      Seam d (seg ++ inner) (told ++ early) t

theorem Seam.sealed {told : List Event} (seam : Seam d taken told t) : Sealed taken := by
  cases seam with
  | intro _ _ sealed => exact sealed

theorem Seam.worded {told : List Event} (seam : Seam d taken told t) : t.kind.isWord = true := by
  cases seam with
  | intro _ _ _ worded => exact worded

theorem Seam.walks {told : List Event} (seam : Seam d taken told t)
    (closed : close.kind = .rightBrace) : Walks .top d.outer (taken ++ [close]) told := by
  cases seam with
  | intro walked inside =>
    rw [List.append_assoc]
    refine walked.append fun size ts => ?_
    rw [significant_append, significant_cons (by rw [closed]; rfl), List.append_assoc]
    exact inside.closes closed size ts

/-- The outlines of tokens with a seam, undivided and divided there, tell the same but for a list
up to the seam, and alike behind it. -/
theorem Seam.outlines {size' : Nat} {R : Nat → Nat → Prop} {told : List Event}
    {behind behind' : List Token} (seam : Seam d taken told t)
    (closed : close.kind = .rightBrace) (opened : opening.kind = d.keyword)
    (front : brace.kind = .leftBrace) (ends : R size size')
    (alike : List.Forall₂ (Token.Alike R) (significant behind) (significant behind'))
    (ok : walk size .top (significant (taken ++ behind)) = ⟨es, .ok ()⟩) :
    ∃ later later', Retold es (told ++ later) ∧ List.Forall₂ (Event.Alike R) later later' ∧
      walk size' .top (significant (taken ++ close :: opening :: brace :: behind')) =
        ⟨told ++ later', .ok ()⟩ := by
  have solid : opening.kind.isComment = false := by
    rw [opened]
    cases d <;> rfl
  have marks : significant (taken ++ close :: opening :: brace :: behind') =
      significant (taken ++ [close]) ++ opening :: brace :: significant behind' := by
    rw [List.append_cons, significant_append, significant_cons solid,
      significant_cons (by rw [front]; rfl)]
  have divided := seam.walks closed size' (opening :: brace :: significant behind')
  rw [d.walk_opening opened front, ← marks] at divided
  cases seam with
  | @intro seg inner told early _ walked inside =>
    rw [List.append_assoc, significant_append, walked, significant_append] at ok
    obtain ⟨rest, read, rfl⟩ := behind_of_told ok
    obtain ⟨later, reopened, retold⟩ := inside.reopens read
    have anew : Reading.Alike R (fun _ _ => True) (d.reopen size (significant behind))
        (d.reopen size' (significant behind')) := by
      refine walk_alike d.outer ends (.cons ?_ (.cons ?_ alike))
      · exact ⟨rfl, fun _ => rfl, ends⟩
      · exact ⟨rfl, fun _ => rfl, ends⟩
    rw [reopened] at anew
    obtain ⟨result, events⟩ := anew
    generalize d.reopen size' (significant behind') = r at divided result events
    obtain ⟨later', _⟩ := r
    cases result with
    | ok _ =>
      refine ⟨later, later', ?_, events, divided.trans (bind_of_ok _ rfl)⟩
      rw [List.append_assoc]
      exact retold.prepend told

end Outline

end ShaderDef
