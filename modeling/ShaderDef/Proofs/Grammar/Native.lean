import ShaderDef.Proofs.Grammar.Recognize
import ShaderDef.Proofs.Lexical.Foreign

/-! Foreign tokens have no place in the grammar: what it derives is free of them, and so is every
segment that a walk goes over. -/

namespace ShaderDef

open Token (Native native_append)

namespace Grammar

variable {α : Type} {P : List Token → α → Prop} {kind : Token.Kind} {ts : List Token}
  {t : Token} {source : String}

theorem native_comments (comments : ∀ c ∈ ts, c.kind.isComment = true) : Native ts := by
  intro c inside foreign
  have comment := comments c inside
  simp [foreign, Token.Kind.isComment] at comment

theorem Terminal.native (terminal : Terminal kind ts t) (known : kind ≠ .invalid) : Native ts := by
  obtain ⟨comments, same⟩ := terminal
  refine native_append (native_comments comments) ?_
  intro s only
  rw [List.mem_singleton.1 only, same]
  exact known

theorem Star.native {as : List α} (each : ∀ seg a, P seg a → Native seg) (star : Star P ts as) :
    Native ts := by
  induction star with
  | nil => exact List.forall_mem_nil _
  | cons head _ ih => exact native_append (each _ _ head) ih

theorem Braced.native {a : α} (each : ∀ seg, P seg a → Native seg) (braced : Braced P ts a) :
    Native ts := by
  obtain ⟨opened, inside, closed⟩ := braced
  exact native_append (opened.native (by decide))
    (native_append (each _ inside) (closed.native (by decide)))

theorem Bound.native {b : Binding} (bound : Bound ts b) : Native ts := by
  obtain ⟨typed, named, divided, placed, ended⟩ := bound
  refine native_append (typed.native (by decide)) ?_
  refine native_append (named.native (by decide)) ?_
  refine native_append (divided.native (by decide)) (native_append ?_ (ended.native (by decide)))
  rcases placed with symbol | number
  · exact symbol.native (by decide)
  · exact number.native (by decide)

theorem list_native {list : List Binding} (listed : Braced (Star Bound) ts list) : Native ts :=
  listed.native fun _ star => star.native fun _ _ => Bound.native

theorem Entered.native {d : Declaration} (entered : Entered ts d) : Native ts := by
  obtain ⟨entry, opened, named, ended⟩ := entered
  refine native_append (opened.native ?_)
    (native_append (named.native (by decide)) (ended.native (by decide)))
  cases entry <;> decide

theorem Bindings.native {ds : List Declaration} (part : Bindings ts ds) : Native ts := by
  cases part with
  | uniforms opened named listed =>
    exact native_append (opened.native (by decide))
      (native_append (named.native (by decide)) (list_native listed))
  | textures opened listed => exact native_append (opened.native (by decide)) (list_native listed)

theorem Shader.native {ds : List Declaration} (part : Shader source ts ds) : Native ts := by
  cases part with
  | code stage opened front raw closed =>
    refine native_append (opened.native (by cases stage <;> decide)) ?_
    refine native_append (front.native (by decide)) (native_append raw.native ?_)
    intro s only
    rw [List.mem_singleton.1 only, closed]
    decide
  | entrypoint opened listed =>
    refine native_append (opened.native (by decide)) (listed.native fun _ star => ?_)
    exact star.native fun _ _ => Entered.native

theorem Section.native {ds : List Declaration} (part : Section source ts ds) : Native ts := by
  cases part with
  | name opened named ended =>
    exact native_append (opened.native (by decide))
      (native_append (named.native (by decide)) (ended.native (by decide)))
  | bindings opened listed =>
    refine native_append (opened.native (by decide)) (listed.native fun _ star => ?_)
    exact star.native fun _ _ => Bindings.native
  | input opened listed => exact native_append (opened.native (by decide)) (list_native listed)
  | pixelInput opened listed => exact native_append (opened.native (by decide)) (list_native listed)
  | shader opened listed =>
    refine native_append (opened.native (by decide)) (listed.native fun _ star => ?_)
    exact star.native fun _ _ => Shader.native

theorem Program.native {ds : List Declaration} (program : Program source ts ds) : Native ts := by
  obtain ⟨sections, comments⟩ := program
  exact native_append (sections.native fun _ _ => Section.native) (native_comments comments)

end Grammar

theorem Outline.Moves.native {source : String} {scope scope' : Scope} {seg : List Token}
    (moves : Moves source scope seg scope') : Native seg := by
  cases moves with
  | whole part => exact part.native
  | enterBindings opened front =>
    exact native_append (opened.native (by decide)) (front.native (by decide))
  | enterShader opened front =>
    exact native_append (opened.native (by decide)) (front.native (by decide))
  | bindings part => exact part.native
  | shader part => exact part.native
  | leave inside closed => exact closed.native (by decide)

end ShaderDef
