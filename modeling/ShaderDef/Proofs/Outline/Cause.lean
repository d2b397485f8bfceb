import ShaderDef.Compile
import ShaderDef.Proofs.Grammar.Value
import ShaderDef.Proofs.Report.Layout

/-! Causes: what a source can be refused for. A cause names only scopes, lists and items of the
language, so the message of every fault is one line. -/

namespace ShaderDef

open Text

inductive Fault.Cause.Arises : Cause → Prop
  | invalid : Arises .invalid
  | unexpected (expected found : Token.Kind) : Arises (.unexpected expected found)
  | unknown : Arises .unknown
  | unknownIn {scope : String} (named : scope ∈ ["Bindings", "Shader", "Entrypoint"]) :
      Arises (.unknownIn scope)
  | unterminated : Arises .unterminated
  | alreadySet (item : Item) : Arises (.alreadySet item.label)
  | misaligned {list : String} (named : list ∈ ["Uniforms", "Textures", "Input", "PixelInput"]) :
      Arises (.misaligned list)

def Explained {α : Type} (result : Except Fault α) : Prop :=
  ∀ f, result = .error f → f.cause.Arises

section Results

variable {α β : Type} {f : Fault}

theorem explained_ok (a : α) : Explained (.ok a : Except Fault α) := by
  intro f stopped
  cases stopped

theorem explained_error (arises : f.cause.Arises) : Explained (.error f : Except Fault α) := by
  intro g stopped
  exact Except.error.inj stopped ▸ arises

theorem Explained.bind {r : Except Fault α} {next : α → Except Fault β} (first : Explained r)
    (second : ∀ a, Explained (next a)) : Explained (r >>= next) := by
  intro f stopped
  rcases Except.bind_eq_error.1 stopped with here | ⟨a, _, later⟩
  · exact first f here
  · exact second a f later

theorem Explained.andThen {r : Reading α} {next : α → Reading β} (first : Explained r.result)
    (second : ∀ a, Explained (next a).result) : Explained (r >>= next).result := by
  intro f stopped
  rcases Reading.bind_eq_error.1 stopped with here | ⟨a, _, later⟩
  · exact first f here
  · exact second a f later

end Results

variable {size : Nat} {ts : List Token}

theorem Token.require_explained (expected : Kind) (t : Token) : Explained (t.require expected) := by
  unfold require
  split
  · exact explained_ok ()
  · exact explained_error (.unexpected expected t.kind)

theorem Token.requireSlot_explained (t : Token) : Explained t.requireSlot := by
  unfold requireSlot
  split
  · exact explained_ok ()
  · exact t.require_explained .symbol

theorem Binding.ofTokens_explained (type name colon slot semicolon : Token) :
    Explained (ofTokens type name colon slot semicolon) :=
  (type.require_explained .symbol).bind fun _ => (name.require_explained .symbol).bind fun _ =>
    (colon.require_explained .colon).bind fun _ => slot.requireSlot_explained.bind fun _ =>
      (semicolon.require_explained .semicolon).bind fun _ => explained_ok _

theorem Binding.listOfTokens_explained {label : String}
    (named : label ∈ ["Uniforms", "Textures", "Input", "PixelInput"]) (ts : List Token) :
    Explained (listOfTokens label ts) := by
  induction ts using listOfTokens.induct with
  | case1 type name colon slot semicolon rest ih =>
    exact (ofTokens_explained _ _ _ _ _).bind fun _ => ih.bind fun _ => explained_ok _
  | case2 => exact explained_ok []
  | case3 head rest short =>
    rw [listOfTokens]
    · exact explained_error (.misaligned named)
    · exact short

theorem Block.guarded_explained (bad : Token.Kind → Bool) (size : Nat) (ts : List Token) :
    Explained (read size ts >>= refuse bad) := by
  refine Explained.bind ?_ fun b => ?_
  · unfold read
    split
    · exact explained_ok _
    · exact explained_error (.unexpected .rightBrace .endOfFile)
  · unfold refuse
    split
    · exact explained_error .invalid
    · exact explained_ok b

namespace Outline

theorem take_explained (size : Nat) (expected : Token.Kind) (ts : List Token) :
    Explained (take size expected ts) := by
  cases ts with
  | nil => exact explained_error (.unexpected expected .endOfFile)
  | cons t ts => exact (t.require_explained expected).bind fun _ => explained_ok _

theorem name_explained (size : Nat) (ts : List Token) : Explained (name size ts).result :=
  .andThen (take_explained size .stringLiteral ts) fun next =>
    .andThen (take_explained size .semicolon next.2) fun _ =>
      .andThen (explained_ok ()) fun _ => explained_ok _

theorem bindings_explained {label : String}
    (named : label ∈ ["Uniforms", "Textures", "Input", "PixelInput"])
    (event : List Binding → Event) (size : Nat) (ts : List Token) :
    Explained (bindings size label event ts).result :=
  .andThen (take_explained size .leftBrace ts) fun next =>
    .andThen (Block.guarded_explained _ size next.2) fun b =>
      .andThen (Binding.listOfTokens_explained named b.body) fun _ =>
        .andThen (explained_ok ()) fun _ => explained_ok _

theorem uniforms_explained (size : Nat) (ts : List Token) : Explained (uniforms size ts).result :=
  .andThen (take_explained size .stringLiteral ts) fun next =>
    bindings_explained (by decide) _ size next.2

theorem code_explained (size : Nat) (stage : Stage) (ts : List Token) :
    Explained (code size stage ts).result :=
  .andThen (take_explained size .leftBrace ts) fun next =>
    .andThen (Block.guarded_explained _ size next.2) fun _ =>
      .andThen (explained_ok ()) fun _ => explained_ok _

theorem entries_explained (close : Token) (ts : List Token) :
    Explained (entries close ts).result := by
  induction ts using entries.induct close with
  | case1 =>
    rw [entries]
    exact explained_ok ()
  | case2 t rest unknown =>
    rw [entries]
    simp only [unknown]
    exact explained_error (.unknownIn (by decide))
  | case3 t rest point known ih =>
    rw [entries]
    simp only [known]
    refine .andThen (explained_ok ()) fun _ => .andThen (Token.require_explained _ _) fun _ => ?_
    exact .andThen (Token.require_explained _ _) fun _ => .andThen (explained_ok ()) fun _ => ih

theorem entrypoints_explained (size : Nat) (ts : List Token) :
    Explained (entrypoints size ts).result :=
  .andThen (take_explained size .leftBrace ts) fun next =>
    .andThen (Block.guarded_explained _ size next.2) fun b =>
      .andThen (entries_explained b.close b.body) fun _ => explained_ok _

theorem enter_explained (size : Nat) (scope : Scope) (ts : List Token) :
    Explained (enter size scope ts).result :=
  .andThen (take_explained size .leftBrace ts) fun _ => explained_ok _

theorem declare_explained {read : Reading (List Token)} (item : Item) (t : Token)
    (explained : Explained read.result) : Explained (declare item t read).result :=
  .andThen (explained_ok ()) fun _ => explained

theorem goOn_explained {read : Reading (List Token)} (scope : Scope)
    (explained : Explained read.result) : Explained (goOn scope read).result :=
  .andThen explained fun _ => explained_ok _

theorem topStep_explained (size : Nat) (t : Token) (ts : List Token) :
    Explained (topStep size t ts).result := by
  unfold topStep
  split
  · exact goOn_explained _ (declare_explained _ t (name_explained size ts))
  · exact enter_explained size _ ts
  · exact goOn_explained _ (declare_explained _ t (bindings_explained (by decide) _ size ts))
  · exact goOn_explained _ (declare_explained _ t (bindings_explained (by decide) _ size ts))
  · exact enter_explained size _ ts
  · exact explained_error .unknown

theorem bindingsStep_explained (size : Nat) (t : Token) (ts : List Token) :
    Explained (bindingsStep size t ts).result := by
  unfold bindingsStep
  split
  · exact explained_ok _
  · exact goOn_explained _ (uniforms_explained size ts)
  · exact goOn_explained _ (bindings_explained (by decide) _ size ts)
  · exact explained_error (.unknownIn (by decide))

theorem shaderStep_explained (size : Nat) (t : Token) (ts : List Token) :
    Explained (shaderStep size t ts).result := by
  unfold shaderStep
  split
  · exact goOn_explained _ (declare_explained _ t (code_explained size _ ts))
  · split
    · exact explained_ok _
    · exact goOn_explained _ (entrypoints_explained size ts)
    · exact explained_error (.unknownIn (by decide))

theorem step_explained (size : Nat) (scope : Scope) (t : Token) (ts : List Token) :
    Explained (step size scope t ts).result := by
  unfold step
  split
  · exact explained_error .invalid
  · cases scope with
    | top => exact topStep_explained size t ts
    | bindings => exact bindingsStep_explained size t ts
    | shader => exact shaderStep_explained size t ts

theorem walk_explained (size : Nat) (scope : Scope) (ts : List Token) :
    Explained (walk size scope ts).result := by
  intro f stopped
  induction scope, ts using walk.induct size with
  | case1 scope =>
    -- The source ends, within a scope or outside all of them.
    rw [walk_nil] at stopped
    cases scope with
    | top => cases stopped
    | bindings => exact Except.error.inj stopped ▸ .unterminated
    | shader => exact Except.error.inj stopped ▸ .unexpected .rightBrace .endOfFile
  | case2 scope t ts ih =>
    rw [walk_cons, Reading.bind_eq_error] at stopped
    rcases stopped with here | ⟨next, goes, later⟩
    · exact step_explained size scope t ts f here
    · exact ih next goes later

theorem once_explained (opened : List Item) (events : List Event) :
    Explained (once opened events).result := by
  intro f stopped
  obtain ⟨_, item, _, _, _, _, _, rfl⟩ := once_eq_error.1 stopped
  exact .alreadySet item

end Outline

/-- A source is refused for one of the causes that arise. -/
theorem compile_explained (source : String) : Explained (compile source) := by
  intro f stopped
  refine Explained.andThen (Outline.once_explained _ _) (fun _ => ?_) f (compile_eq_error.1 stopped)
  exact Outline.walk_explained _ _ _

theorem Item.label_inline (item : Item) : Inline item.label.toList := by
  rcases item with _ | _ | _ | (_ | _ | _) | (_ | _) <;> decide

theorem Token.Kind.name_inline (kind : Kind) : Inline kind.name.toList := by
  have each : ∀ kind ∈ all, Inline kind.name.toList := by decide +kernel
  exact each kind kind.mem_all

/-- The message of a cause that arises is one line. -/
theorem Fault.Cause.Arises.message_inline {cause : Cause} (arises : cause.Arises) :
    Inline cause.message.toList := by
  cases arises with
  | unexpected expected found =>
    have start : Inline "Expected token ".toList := by decide
    have middle : Inline " got: ".toList := by decide
    exact ((start.toList_append expected.name_inline).toList_append middle).toList_append
      found.name_inline
  | unknownIn named =>
    have start : Inline "Unknown token inside scope '".toList := by decide
    have all : ∀ scope ∈ ["Bindings", "Shader", "Entrypoint"], Inline scope.toList := by decide
    exact (start.toList_append (all _ named)).toList_append (by decide)
  | alreadySet item =>
    have behind : Inline " already set".toList := by decide
    exact item.label_inline.toList_append behind
  | misaligned named =>
    have start : Inline "Invalid syntax for '".toList := by decide
    have all : ∀ list ∈ ["Uniforms", "Textures", "Input", "PixelInput"], Inline list.toList := by
      decide
    exact (start.toList_append (all _ named)).toList_append (by decide)
  | _ => decide

end ShaderDef
