import ShaderDef.Proofs.Grammar.Value
import ShaderDef.Proofs.Outline.Once

/-! Malformed tokens. Between sections one is refused when the walk comes to it, but a body in
braces is read to its closing brace before it is looked at. Main statement: a body with a malformed
token is refused for its first one if it is closed, and for its missing brace otherwise. -/

namespace ShaderDef

namespace Block

variable {size : Nat} {bad : Token.Kind → Bool} {ts body rest : List Token} {t close : Token}

theorem guarded_of_bad (closed : split 0 ts = (body, close :: rest))
    (found : body.find? (fun s => bad s.kind) = some t) :
    read size ts >>= refuse bad = .error (.blame .invalid t) := by
  have block : read size ts = .ok ⟨body, close, rest⟩ := read_eq_ok.2 closed
  rw [block]
  change refuse bad ⟨body, close, rest⟩ = _
  simp only [refuse, found]

theorem guarded_of_open (bad : Token.Kind → Bool) (unclosed : split 0 ts = (body, [])) :
    read size ts >>= refuse bad = .error (.mismatch .rightBrace (.finish size)) := by
  have stopped : read size ts = .error (.mismatch .rightBrace (.finish size)) := by
    simp only [read, unclosed]
  rw [stopped]
  rfl

end Block

namespace Outline

open Reading

inductive Comes (size : Nat) (all : List Token) : List Event → Scope → List Token → Prop
  | start : Comes size all [] .top all
  | next {told : List Event} {scope scope' : Scope} {t : Token} {ts rest : List Token}
      (here : Comes size all told scope (t :: ts))
      (goes : (step size scope t ts).result = .ok (scope', rest)) :
      Comes size all (told ++ (step size scope t ts).events) scope' rest

/-- What stands before a body that is read as a whole, with the scope where it may stand, the kinds
that the body must not hold, and the events told before it. -/
inductive BodyHead : Scope → (Token.Kind → Bool) → List Event → List Token → Prop
  | input {keyword brace : Token} (opened : keyword.kind = .inputKeyword)
      (front : brace.kind = .leftBrace) :
      BodyHead .top Token.Kind.isInvalid [.opens .input keyword.index] [keyword, brace]
  | pixelInput {keyword brace : Token} (opened : keyword.kind = .pixelInputKeyword)
      (front : brace.kind = .leftBrace) :
      BodyHead .top Token.Kind.isInvalid [.opens .pixelInput keyword.index] [keyword, brace]
  | uniforms {keyword buffer brace : Token} (opened : keyword.kind = .uniformsKeyword)
      (named : buffer.kind = .stringLiteral) (front : brace.kind = .leftBrace) :
      BodyHead .bindings Token.Kind.isInvalid [] [keyword, buffer, brace]
  | textures {keyword brace : Token} (opened : keyword.kind = .texturesKeyword)
      (front : brace.kind = .leftBrace) :
      BodyHead .bindings Token.Kind.isInvalid [] [keyword, brace]
  | entrypoint {keyword brace : Token} (opened : keyword.kind = .entrypointKeyword)
      (front : brace.kind = .leftBrace) :
      BodyHead .shader Token.Kind.isInvalid [] [keyword, brace]
  | code (stage : Stage) {keyword brace : Token}
      (opened : Stage.ofKeyword? keyword.kind = some stage) (front : brace.kind = .leftBrace) :
      BodyHead .shader (· == .invalid) [.opens (.code stage) keyword.index] [keyword, brace]

variable {size : Nat} {all ts head : List Token} {told opened : List Event} {scope : Scope}
  {bad : Token.Kind → Bool} {t : Token} {f : Fault}

theorem Comes.walk (here : Comes size all told scope ts) :
    walk size .top all = (⟨told, .ok ()⟩ : Reading Unit) >>= fun _ => walk size scope ts := by
  induction here with
  | start => exact (pure_bind () fun _ => Outline.walk size .top all).symm
  | next here goes ih =>
    rw [ih, walk_cons, bind_of_ok _ goes, bind_of_ok _ rfl, bind_of_ok _ rfl]
    simp only [List.append_assoc]

section Bodies

variable {brace : Token}

theorem bindings_stops (label : String) (event : List Binding → Event)
    (front : brace.kind = .leftBrace)
    (stopped : Block.read size ts >>= Block.refuse Token.Kind.isInvalid = .error f) :
    bindings size label event (brace :: ts) = .fail f := by
  simp only [bindings, take_of_kind front, lift_ok_bind, Block.declarations, stopped,
    lift_error_bind]

theorem entrypoints_stops (front : brace.kind = .leftBrace)
    (stopped : Block.read size ts >>= Block.refuse Token.Kind.isInvalid = .error f) :
    entrypoints size (brace :: ts) = .fail f := by
  simp only [entrypoints, take_of_kind front, lift_ok_bind, Block.declarations, stopped,
    lift_error_bind]

theorem code_stops (stage : Stage) (front : brace.kind = .leftBrace)
    (stopped : Block.read size ts >>= Block.refuse (· == .invalid) = .error f) :
    code size stage (brace :: ts) = .fail f := by
  simp only [code, take_of_kind front, lift_ok_bind, Block.code, stopped, lift_error_bind]

end Bodies

/-- A walk stops before a body for the fault that reading the body meets. -/
theorem BodyHead.walk (starts : BodyHead scope bad opened head)
    (stopped : Block.read size ts >>= Block.refuse bad = .error f) :
    walk size scope (head ++ ts) = ⟨opened, .error f⟩ := by
  cases starts with
  | input keyword front =>
    simp only [List.cons_append, List.nil_append, walk_cons, step, keyword, Token.Kind.isInvalid,
      topStep, goOn, declare, bindings_stops _ _ front stopped]
    rfl
  | pixelInput keyword front =>
    simp only [List.cons_append, List.nil_append, walk_cons, step, keyword, Token.Kind.isInvalid,
      topStep, goOn, declare, bindings_stops _ _ front stopped]
    rfl
  | uniforms keyword named front =>
    simp only [List.cons_append, List.nil_append, walk_cons, step, keyword, Token.Kind.isInvalid,
      bindingsStep, goOn, Outline.uniforms, take_of_kind named, lift_ok_bind,
      bindings_stops _ _ front stopped]
    rfl
  | textures keyword front =>
    simp only [List.cons_append, List.nil_append, walk_cons, step, keyword, Token.Kind.isInvalid,
      bindingsStep, goOn, bindings_stops _ _ front stopped]
    rfl
  | entrypoint keyword front =>
    simp only [List.cons_append, List.nil_append, walk_cons, step, keyword, Token.Kind.isInvalid,
      shaderStep, Stage.ofKeyword?, goOn, entrypoints_stops front stopped]
    rfl
  | code stage keyword front =>
    rw [List.cons_append, walk_cons, step_stage (Stage.ofKeyword?_eq_some.1 keyword), goOn, declare,
      List.cons_append, List.nil_append, code_stops stage front stopped]
    rfl

/-- What stops the walk stops the reading, unless an item was opened twice before. -/
theorem Comes.ofTokens (here : Comes size (significant all) told scope ts)
    (stopped : Outline.walk size scope ts = ⟨opened, .error f⟩)
    (kept : (once [] (told ++ opened)).result = .ok ()) :
    (Outline.ofTokens size all).result = .error f := by
  have whole : Outline.walk size .top (significant all) = ⟨told ++ opened, .error f⟩ := by
    rw [here.walk, stopped, bind_of_ok _ rfl]
  simp only [Outline.ofTokens, whole]
  exact bind_eq_error.2 (.inr ⟨(), kept, rfl⟩)

/-- These tokens of a source stand behind the brace of a body that is read: the walk comes to it,
and no item has been opened twice by then. -/
def ReadsBody (source : String) (bad : Token.Kind → Bool) (ts : List Token) : Prop :=
  ∃ told scope opened head,
    Comes (Text.size source.toList) (significant (Token.ofSource source)) told scope (head ++ ts) ∧
      BodyHead scope bad opened head ∧ (once [] (told ++ opened)).result = .ok ()

theorem readsBody_input {source : String} {keyword brace : Token}
    (tokens : significant (Token.ofSource source) = keyword :: brace :: ts)
    (opened : keyword.kind = .inputKeyword) (front : brace.kind = .leftBrace) :
    ReadsBody source Token.Kind.isInvalid ts := by
  refine ⟨[], .top, _, [keyword, brace], ?_, .input opened front, rfl⟩
  rw [tokens]
  exact .start

end Outline

open Outline

variable {source : String} {bad : Token.Kind → Bool} {ts body behind : List Token} {t : Token}
  {f : Fault}

theorem compile_of_body (reads : ReadsBody source bad ts)
    (stopped : Block.read (Text.size source.toList) ts >>= Block.refuse bad = .error f) :
    compile source = .error f := by
  obtain ⟨told, scope, opened, head, here, starts, kept⟩ := reads
  exact compile_eq_error.2 (here.ofTokens (starts.walk stopped) kept)

/-- Between sections a malformed token is refused when the walk comes to it, whatever follows. -/
theorem compile_malformed {told : List Event} {scope : Scope}
    (here : Comes (Text.size source.toList) (significant (Token.ofSource source)) told scope
      (t :: ts)) (kept : (once [] told).result = .ok ()) (malformed : t.kind.isInvalid = true) :
    compile source = .error (.blame .invalid t) := by
  have stopped : walk (Text.size source.toList) scope (t :: ts) =
      ⟨[], .error (.blame .invalid t)⟩ := by
    simp only [walk_cons, step, malformed, if_true]
    rfl
  exact compile_eq_error.2 (here.ofTokens stopped (by rwa [List.append_nil]))

/-- A body with a malformed token is refused for the first one if its closing brace is there, and
for that brace otherwise. -/
theorem compile_malformed_body (reads : ReadsBody source bad ts)
    (parts : Block.split 0 ts = (body, behind))
    (found : body.find? (fun s => bad s.kind) = some t) :
    ∃ f, compile source = .error f ∧ f.diagnostic =
      if behind = [] then
        ⟨.unexpectedToken, "Expected token RightBrace got: EndOfFile", Text.size source.toList⟩
      else ⟨.invalidToken, "Invalid token", t.index⟩ := by
  cases behind with
  | nil => exact ⟨_, compile_of_body reads (Block.guarded_of_open bad parts), rfl⟩
  | cons close rest => exact ⟨_, compile_of_body reads (Block.guarded_of_bad parts found), rfl⟩

theorem compile_malformed_body_number :
    significant (Token.ofSource "Input \x7b 1a \x7d") = [⟨.inputKeyword, 0, "Input"⟩,
      ⟨.leftBrace, 6, "\x7b"⟩, ⟨.invalidNumberLiteral, 8, "1"⟩, ⟨.symbol, 9, "a"⟩,
      ⟨.rightBrace, 11, "\x7d"⟩] ∧
    ∃ f, compile "Input \x7b 1a \x7d" = .error f ∧
      f.diagnostic = ⟨.invalidToken, "Invalid token", 8⟩ := by
  have tokens : significant (Token.ofSource "Input \x7b 1a \x7d") = [⟨.inputKeyword, 0, "Input"⟩,
      ⟨.leftBrace, 6, "\x7b"⟩, ⟨.invalidNumberLiteral, 8, "1"⟩, ⟨.symbol, 9, "a"⟩,
      ⟨.rightBrace, 11, "\x7d"⟩] := by decide +kernel
  exact ⟨tokens, compile_malformed_body (readsBody_input tokens rfl rfl) rfl rfl⟩

/-- Where the closing brace is missing the malformed token is not told. -/
theorem not_compile_malformed_body_open :
    ¬ ∀ (source : String) (bad : Token.Kind → Bool) (ts : List Token) (t : Token),
      ReadsBody source bad ts → (Block.split 0 ts).1.find? (fun s => bad s.kind) = some t →
        ∃ f, compile source = .error f ∧
          f.diagnostic = ⟨.invalidToken, "Invalid token", t.index⟩ := by
  intro reported
  have tokens : significant (Token.ofSource "Input \x7b 1a") = [⟨.inputKeyword, 0, "Input"⟩,
      ⟨.leftBrace, 6, "\x7b"⟩, ⟨.invalidNumberLiteral, 8, "1"⟩, ⟨.symbol, 9, "a"⟩] := by
    decide +kernel
  have stopped : compile "Input \x7b 1a" =
      .error ⟨.unexpected .rightBrace .endOfFile, 10⟩ := by decide +kernel
  obtain ⟨f, told, same⟩ := reported _ _ _ _ (readsBody_input tokens rfl rfl) rfl
  rw [stopped] at told
  obtain rfl := Except.error.inj told
  exact absurd (congrArg Diagnostic.index same) (by decide)

end ShaderDef
