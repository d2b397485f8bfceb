import ShaderDef.Compiler
import ShaderDef.Proofs.OnePass.Compile

/-! Sessions: any operations on a compiler, one after the other. Main statement: every answer is
what the source alone says, and the results are those of the last compilation, whole or not at all. -/

namespace ShaderDef

namespace Compiler

inductive Operation where
  | compile
  | source
  | interface
  | sources
  | name
  | uniformBuffers
  | textures
  | inputs
  | pixelInputs
  | vertexEntry
  | pixelEntry
  | tokens
  | locate (index : Nat)
  | explain (d : Diagnostic) (filename : String)
deriving DecidableEq

inductive Answer where
  | compiled (result : Except Fault Unit)
  | text (s : String)
  | name (name : Option String)
  | interface (i : Interface)
  | sources (s : Sources)
  | buffers (list : List ResourceBuffer)
  | resources (list : List Resource)
  | attributes (list : List Attribute)
  | tokens (ts : List Token)
  | place (l : Location)
  | report (r : Except Report.Overflow String)
deriving DecidableEq

def perform (c : Compiler) : Operation → Answer × Compiler
  | .compile => (.compiled c.compile.1, c.compile.2)
  | .source => (.text c.source, c)
  | .interface => (.interface c.output.interface, c)
  | .sources => (.sources c.output.sources, c)
  | .name => (.name c.name, c)
  | .uniformBuffers => (.buffers c.uniformBuffers, c)
  | .textures => (.resources c.textures, c)
  | .inputs => (.attributes c.inputs, c)
  | .pixelInputs => (.attributes c.pixelInputs, c)
  | .vertexEntry => (.name c.vertexEntry, c)
  | .pixelEntry => (.name c.pixelEntry, c)
  | .tokens => (.tokens c.tokens, c)
  | .locate index => (.place (c.locate index), c)
  | .explain d filename => (.report (c.explain d filename), c)

def session (c : Compiler) : List Operation → List Answer × Compiler
  | [] => ([], c)
  | op :: ops =>
    let (answer, next) := c.perform op
    let (answers, last) := next.session ops
    (answer :: answers, last)

/-- Compiling step by step: the results are cleared, the source is read in one pass that keeps what
it declares to itself, and only a pass that comes to its end hands that on. -/
def compileInPlace (c : Compiler) : Except Halt Unit × Compiler :=
  let cleared := { c with output := {} }
  match onePass cleared.source with
  | (.ok d, _) => (.ok (), { cleared with output := d })
  | (.error halt, _) => (.error halt, cleared)

theorem compileInPlace_eq (c : Compiler) :
    c.compileInPlace = (c.compile.1.mapError .fault, c.compile.2) := by
  unfold compileInPlace compile
  rcases onePass_ends c.source with ⟨d, p, ran, ok, _⟩ | ⟨fault, p, ran, stopped, _⟩
  · simp only [ran, ok, Except.mapError]
  · simp only [ran, stopped, Except.mapError]

variable {source : String} {ops done : List Operation} {op : Operation}

def shown (source : String) (done : List Operation) : Definition :=
  if .compile ∈ done then
    match ShaderDef.compile source with
    | .ok d => d
    | .error _ => {}
  else {}

def expected (source : String) (done : List Operation) : Operation → Answer
  | .compile => .compiled ((ShaderDef.compile source).map fun _ => ())
  | .source => .text source
  | .interface => .interface (shown source done).interface
  | .sources => .sources (shown source done).sources
  | .name => .name (shown source done).interface.name
  | .uniformBuffers =>
    .buffers ((shown source done).interface.uniformBuffers.map UniformBuffer.toResources)
  | .textures => .resources ((shown source done).interface.textures.map Binding.toResource)
  | .inputs => .attributes ((shown source done).interface.inputs.map Binding.toAttribute)
  | .pixelInputs => .attributes ((shown source done).interface.pixelInputs.map Binding.toAttribute)
  | .vertexEntry => .name (shown source done).interface.vertexEntry
  | .pixelEntry => .name (shown source done).interface.pixelEntry
  | .tokens => .tokens (Token.ofSource source)
  | .locate index => .place (.ofOffset source index)
  | .explain d filename => .report (d.report source filename).render

theorem shown_of_mem (compiled : .compile ∈ done) :
    shown source done = shown source [.compile] := by
  rw [shown, if_pos compiled, shown, if_pos List.mem_cons_self]

theorem shown_append_of_ne (other : op ≠ .compile) :
    shown source (done ++ [op]) = shown source done := by
  simp only [shown, List.mem_append, List.mem_singleton, Ne.symm other, or_false]

/-- The results of compiling do not depend on those there were. -/
theorem compile_eq (output : Definition) :
    (⟨source, output⟩ : Compiler).compile =
      ((ShaderDef.compile source).map fun _ => (), ⟨source, shown source [.compile]⟩) := by
  rw [shown, if_pos List.mem_cons_self]
  unfold compile
  cases ShaderDef.compile source <;> rfl

/-- One operation: the answer is right, and what is to be seen behind it is seen. -/
theorem perform_shown (source : String) (done : List Operation) (op : Operation) :
    (⟨source, shown source done⟩ : Compiler).perform op =
      (expected source done op, ⟨source, shown source (done ++ [op])⟩) := by
  cases op with
  | compile =>
    have compiled : .compile ∈ done ++ [Operation.compile] := by simp
    rw [perform, compile_eq, shown_of_mem compiled]
    rfl
  | _ =>
    rw [shown_append_of_ne (by simp)]
    rfl

theorem session_cons (c : Compiler) (op : Operation) (ops : List Operation) :
    c.session (op :: ops) = ((c.perform op).1 :: ((c.perform op).2.session ops).1,
      ((c.perform op).2.session ops).2) :=
  rfl

theorem session_length (c : Compiler) (ops : List Operation) :
    (c.session ops).1.length = ops.length := by
  induction ops generalizing c with
  | nil => rfl
  | cons op ops ih => rw [session_cons, List.length_cons, ih, List.length_cons]

theorem session_final (source : String) (done ops : List Operation) :
    ((⟨source, shown source done⟩ : Compiler).session ops).2 =
      ⟨source, shown source (done ++ ops)⟩ := by
  induction ops generalizing done with
  | nil => rw [List.append_nil, session]
  | cons op ops ih =>
    rw [session_cons, perform_shown]
    simpa using ih (done ++ [op])

/-- Every answer is right for the operations before it. -/
theorem session_answer (source : String) (done before : List Operation) (op : Operation)
    (after : List Operation) :
    ((⟨source, shown source done⟩ : Compiler).session (before ++ op :: after)).1[before.length]? =
      some (expected source (done ++ before) op) := by
  induction before generalizing done with
  | nil =>
    rw [List.nil_append, session_cons, perform_shown, List.append_nil]
    rfl
  | cons first before ih =>
    rw [List.cons_append, session_cons, perform_shown, List.length_cons, List.getElem?_cons_succ,
      ih, List.append_assoc, List.singleton_append]

/-- What a session on a source comes to. Each answer is the expected one, the source stays, and the
definition handed out at the end is the one to be seen: that of the free compilation if there has
been one that succeeded, otherwise the empty one, whatever a pass that failed had put together. -/
structure Truthful (source : String) (ops : List Operation) : Prop where
  answers : ∀ before op after, ops = before ++ op :: after →
    ((ofSource source).session ops).1[before.length]? = some (expected source before op)
  count : ((ofSource source).session ops).1.length = ops.length
  kept : ((ofSource source).session ops).2.source = source
  output : ((ofSource source).session ops).2.output = shown source ops
  fresh : .compile ∉ ops → shown source ops = {}
  whole : ∀ d, ShaderDef.compile source = .ok d → .compile ∈ ops → shown source ops = d
  nothing : ∀ f, ShaderDef.compile source = .error f → shown source ops = {}
  partway : ∀ halt p, onePass source = (.error halt, p) →
    ((ofSource source).session ops).2.compileInPlace =
      (.error halt, ((ofSource source).session ops).2)
  again : ((ofSource source).session ops).2.compile.2.compile =
    ((ofSource source).session ops).2.compile

theorem session_truthful (source : String) (ops : List Operation) : Truthful source ops := by
  have start : ofSource source = ⟨source, shown source []⟩ := rfl
  have final := session_final source [] ops
  rw [← start, List.nil_append] at final
  have nothing : ∀ f, ShaderDef.compile source = .error f → shown source ops = {} := by
    intro f stopped
    rw [shown, stopped]
    split <;> rfl
  refine ⟨?_, session_length _ ops, ?_, ?_, ?_, ?_, nothing, ?_, ?_⟩
  · rintro before op after rfl
    exact session_answer source [] before op after
  · rw [final]
  · rw [final]
  · exact fun never => if_neg never
  · intro d ok compiled
    rw [shown, if_pos compiled, ok]
  · intro halt p ran
    -- Only a source that does not compile has a pass that fails.
    rcases onePass_ends source with ⟨d, _, other, _⟩ | ⟨fault, _, _, stopped, _⟩
    · rw [ran] at other
      cases other
    · rw [final, nothing fault stopped, compileInPlace, ran]
  · rw [final, compile_eq, compile_eq]

/-- The pass has read a name before it fails; no operation shows it. -/
example :
    let source := "Name \"A\"; Name \"B\";"
    let fault : Fault := ⟨.alreadySet "Name", 10⟩
    (onePass source).2.definition.interface.name = some "A" ∧
      ((ofSource source).session [.name, .compile, .name]).1 =
        [.name none, .compiled (.error fault), .name none] := by
  decide +kernel

end Compiler

end ShaderDef
