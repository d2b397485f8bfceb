import ShaderDef.Log
import ShaderDef.Proofs.Composition.Opaque
import ShaderDef.Proofs.Grammar.Prelude
import ShaderDef.Proofs.Lexical.Tiling

/-! The log of a source is a transcript of it. Main statement: there is one record for each
declaration that is whole before the source ends or fails, in the order of the source, and a success
is summed up in one more record, whose counts are those of the result and those of the others. -/

namespace ShaderDef

open Grammar Outline

namespace Log

inductive Note where
  | name (text : String)
  | uniforms (buffer : String) (bindings : Nat)
  | textures (entries : Nat)
  | input (entries : Nat)
  | pixelInput (entries : Nat)
  | code (stage : Stage) (bytes : Nat)
  | entry (point : Entry) (text : String)
deriving DecidableEq, Repr

namespace Note

def message : Note → String
  | .name text => s!"program name {Text.quoteLogged text}"
  | .uniforms buffer bindings =>
    s!"uniform buffer {Text.quoteLogged buffer} with {bindings} bindings"
  | .textures entries => s!"{entries} textures"
  | .input entries => s!"Input section with {entries} entries"
  | .pixelInput entries => s!"PixelInput section with {entries} entries"
  | .code stage bytes => s!"{stage.label} with {bytes} bytes"
  | .entry point text => s!"{point.label} {Text.quoteLogged text}"

def record (n : Note) : Record :=
  ⟨.trace, n.message⟩

def isUniforms : Note → Bool
  | .uniforms .. => true
  | _ => false

def textureCount : Note → Nat
  | .textures entries => entries
  | _ => 0

def input? : Note → Option Nat
  | .input entries => some entries
  | _ => none

def pixelInput? : Note → Option Nat
  | .pixelInput entries => some entries
  | _ => none

end Note

structure Counts where
  uniformBuffers : Nat
  textures : Nat
  inputs : Nat
  pixelInputs : Nat
deriving DecidableEq, Repr

def Counts.ofNotes (notes : List Note) : Counts where
  uniformBuffers := notes.countP Note.isUniforms
  textures := (notes.map Note.textureCount).foldr (· + ·) 0
  inputs := (notes.findSome? Note.input?).getD 0
  pixelInputs := (notes.findSome? Note.pixelInput?).getD 0

def Counts.ofInterface (i : Interface) : Counts where
  uniformBuffers := i.uniformBuffers.length
  textures := i.textures.length
  inputs := i.inputs.length
  pixelInputs := i.pixelInputs.length

def summary (name : Option String) (c : Counts) : Record :=
  let shown := Text.quoteLogged (name.getD "<unnamed>")
  let counts := s!"{c.uniformBuffers} uniform buffers, {c.textures} textures"
    ++ s!", {c.inputs} inputs, {c.pixelInputs} pixel inputs"
  ⟨.debug, s!"compiled {shown}: {counts}"⟩

end Log

open Log

def Declaration.note : Declaration → Note
  | .name text => .name text
  | .uniforms buffer => .uniforms buffer.name buffer.bindings.length
  | .textures list => .textures list.length
  | .input list => .input list.length
  | .pixelInput list => .pixelInput list.length
  | .code stage text => .code stage (Text.size text.toList)
  | .entry point text => .entry point text

theorem Definition.record_eq (d : Definition) :
    d.record = summary d.interface.name (.ofInterface d.interface) :=
  rfl

section Records

variable {source : String} {e : Event} {events : List Event}

/-- The record of an event is that of the declaration which it completes. The code of a stage has as
many bytes as there are between its braces. -/
theorem Event.record?_eq (told : e ∈ (Outline.ofSource source).events) :
    e.record? = (e.declared? source).map (·.note.record) := by
  cases e with
  | code stage start stop =>
    obtain ⟨p, rfl, rfl, _⟩ := passage_of_ofTokens told
    obtain ⟨front, text, tail, placed⟩ := p.exists_placed
    have between : Text.slice (p.brace.index + 1) p.close.index source.toList = text := by
      rw [placed.opening, placed.closing, placed.whole, slice_braces]
    have bytes : p.close.index - (p.brace.index + 1) = Text.size text := by
      rw [placed.opening, placed.closing, Nat.add_sub_cancel_left]
    simp only [declared?, between, Option.map_some, Declaration.note, String.toList_ofList,
      record?, bytes]
    rfl
  | _ => rfl

/-- The records of declarations are those of what has been declared, in the same order. -/
theorem Log.declarations_eq (source : String) :
    declarations source = ((Outline.ofSource source).events.filterMap
      (Event.declared? source)).map (·.note.record) := by
  rw [declarations, List.map_filterMap]
  exact List.filterMap_congr fun e told => Event.record?_eq told

end Records

section Counts

variable {d : Definition} {ds : List Declaration}

/-- Of what may be declared once there is one count, or none. -/
theorem length_flatMap_of_item (item : Item) {list : Declaration → List Binding}
    {count? : Note → Option Nat} (single : (ds.filterMap Declaration.item?).Nodup)
    (counted : ∀ d, count? d.note = if d.item? = some item then some (list d).length else none)
    (absent : ∀ d, d.item? ≠ some item → list d = []) :
    (ds.flatMap list).length = ((ds.map Declaration.note).findSome? count?).getD 0 := by
  induction ds with
  | nil => rfl
  | cons d ds ih =>
    rw [List.flatMap_cons, List.length_append, List.map_cons, List.findSome?_cons, counted d]
    by_cases same : d.item? = some item
    · rw [List.filterMap_cons_some same, List.nodup_cons] at single
      have others : ds.flatMap list = [] := by
        refine List.flatMap_eq_nil_iff.2 fun e inside => absent e fun again => ?_
        exact single.1 (List.mem_filterMap.2 ⟨e, inside, again⟩)
      simp [same, others]
    · have fewer := single.sublist ((List.sublist_cons_self d ds).filterMap Declaration.item?)
      simp [same, absent d same, ih fewer]

theorem Definition.Declares.counts (declares : d.Declares ds)
    (single : (ds.filterMap Declaration.item?).Nodup) :
    Counts.ofInterface d.interface = .ofNotes (ds.map Declaration.note) := by
  have buffers : d.interface.uniformBuffers.length =
      (ds.map Declaration.note).countP Note.isUniforms := by
    rw [declares.uniformBuffers, List.length_filterMap_eq_countP, List.countP_map]
    refine List.countP_congr fun d _ => ?_
    cases d <;> simp [Declaration.uniforms?, Declaration.note, Note.isUniforms]
  have textures : d.interface.textures.length =
      ((ds.map Declaration.note).map Note.textureCount).foldr (· + ·) 0 := by
    rw [declares.textures, List.length_flatMap, List.sum_eq_foldr, List.map_map]
    refine congrArg (List.foldr (· + ·) 0) (List.map_congr_left fun d _ => ?_)
    cases d <;> rfl
  have inputs : d.interface.inputs.length =
      ((ds.map Declaration.note).findSome? Note.input?).getD 0 := by
    rw [declares.inputs]
    refine length_flatMap_of_item .input single (fun d => ?_) fun d other => ?_
    · cases d <;> rfl
    · by_contra some
      exact other (Declaration.item?_of_inputList some)
  have pixelInputs : d.interface.pixelInputs.length =
      ((ds.map Declaration.note).findSome? Note.pixelInput?).getD 0 := by
    rw [declares.pixelInputs]
    refine length_flatMap_of_item .pixelInput single (fun d => ?_) fun d other => ?_
    · cases d <;> rfl
    · by_contra some
      exact other (Declaration.item?_of_pixelInputList some)
  rw [Counts.ofInterface, Counts.ofNotes, buffers, textures, inputs, pixelInputs]

end Counts

section Preludes

variable {source : String} {front rest : List Token} {ds : List Declaration} {f : Fault}

/-- All that is declared in a source before it ends or fails: the longest prelude in which no item
is declared twice. -/
structure Furthest (source : String) (front rest : List Token) (ds : List Declaration) : Prop where
  whole : Token.ofSource source = front ++ rest
  prelude : Prelude source front rest ds
  single : (ds.filterMap Declaration.item?).Nodup
  longest : ∀ es, HasPrelude source (Token.ofSource source) es →
    (es.filterMap Declaration.item?).Nodup → es <+: ds

theorem Event.completed_eq (source : String) (events : List Event) :
    Event.completed events = (events.filterMap (Event.declared? source)).filterMap
      Declaration.item? := by
  rw [List.filterMap_filterMap]
  refine List.filterMap_congr fun e _ => ?_
  cases e <;> rfl

/-- What is told of a prelude is kept, as long as no item is declared twice in it. -/
theorem once_of_prelude {told more : List Event} {seg : List Token}
    (trace : Event.Trace source seg told ds) (single : (ds.filterMap Declaration.item?).Nodup) :
    once [] (told ++ more) = (⟨told, .ok ()⟩ : Reading Unit) >>= fun _ =>
      once (Event.items told).reverse more := by
  have kept : (once [] told).result = .ok () :=
    once_eq_ok_iff.2 ⟨by rw [Event.items, trace.opened]; exact single, by simp⟩
  rw [once_append kept, List.append_nil]

theorem prefix_of_prelude {es : List Declaration}
    (prelude : HasPrelude source (Token.ofSource source) es)
    (single : (es.filterMap Declaration.item?).Nodup) :
    es <+: (Outline.ofSource source).events.filterMap (Event.declared? source) := by
  obtain ⟨front, rest, whole, prelude⟩ := prelude
  obtain ⟨told, left, walked, trace, _⟩ := prelude_walk prelude (Text.size source.toList)
  have kept : (Outline.ofSource source).events = (once [] _).events :=
    events_bind_quiet fun _ => rfl
  rw [kept, whole, walked, Reading.bind_of_ok _ rfl, once_of_prelude trace single,
    Reading.bind_of_ok _ rfl, List.filterMap_append, trace.declared]
  exact List.prefix_append _ _

theorem exists_furthest (source : String) : ∃ front rest, Furthest source front rest
    ((Outline.ofSource source).events.filterMap (Event.declared? source)) := by
  have kept : (Outline.ofSource source).events = (once [] _).events :=
    events_bind_quiet fun _ => rfl
  obtain ⟨more, walked, _⟩ := once_front []
    (walk (Text.size source.toList) .top (significant (Token.ofSource source))).events
  rw [← kept] at walked
  have start : Begun source .top [] [] := .top .nil
  obtain ⟨front, rest, whole, prelude⟩ := hasPrelude_walk start ⟨more, walked.symm⟩
  refine ⟨front, rest, whole, prelude, ?_, fun es has single => prefix_of_prelude has single⟩
  rw [← Event.completed_eq]
  exact completed_nodup source

/-- A source that fails does so behind all that is declared before. -/
theorem Furthest.stops (furthest : Furthest source front rest ds)
    (stopped : compile source = .error f) :
    f.index = Text.size source.toList ∨ ∃ t ∈ rest, t.index = f.index := by
  obtain ⟨told, left, walked, trace, placed⟩ :=
    prelude_walk furthest.prelude (Text.size source.toList)
  rw [← furthest.whole] at walked
  rcases Reading.bind_eq_error.1 (compile_eq_error.1 stopped) with twice | ⟨_, _, other⟩
  · rw [walked, Reading.bind_of_ok _ rfl, once_of_prelude trace furthest.single,
      Reading.bind_of_ok _ rfl] at twice
    obtain ⟨front, item, index, rest, opens, _, _, rfl⟩ := once_eq_error.1 twice
    exact .inr (placed.opens item index (by simp [opens]))
  · rw [walked, Reading.bind_of_ok _ rfl] at other
    exact placed.stops f other

theorem Furthest.behind (furthest : Furthest source front rest ds)
    (stopped : compile source = .error f) : ∀ t ∈ front, t.stop ≤ f.index := by
  have tiles : Token.Tiles 0 (front ++ rest) source.toList := by
    rw [← furthest.whole, Token.ofSource_eq_scan]
    exact Token.scan_tiles 0 source.toList
  intro t member
  rcases furthest.stops stopped with ended | ⟨s, later, place⟩
  · have bounds := tiles.bounds t (List.mem_append_left rest member)
    omega
  · rw [← place]
    exact (List.pairwise_append.1 tiles.ordered).2.2 t member s later

end Preludes

/-- The log of a source: a record for each declaration that is whole before the source ends or
fails, and one that sums up a success. -/
structure Log.Transcript (source : String) (log : List Record) (front rest : List Token)
    (ds : List Declaration) : Prop where
  furthest : Furthest source front rest ds
  success : ∀ d, compile source = .ok d →
    Program source (Token.ofSource source) ds ∧
    log = ds.map (·.note.record) ++
      [summary d.interface.name (.ofNotes (ds.map Declaration.note))] ∧
    Counts.ofInterface d.interface = .ofNotes (ds.map Declaration.note)
  failure : ∀ f, compile source = .error f →
    log = ds.map (·.note.record) ∧
    (∀ t ∈ front, t.stop ≤ f.index) ∧
    (f.index = Text.size source.toList ∨ ∃ t ∈ rest, t.index = f.index)

/-- Where tokens are not asked for, the log is a transcript of the source. -/
theorem Log.ofSource_transcript (source : String) :
    ∃ front rest ds, Transcript source (ofSource source false) front rest ds := by
  obtain ⟨front, rest, furthest⟩ := exists_furthest source
  refine ⟨front, rest, _, furthest, fun d ok => ?_, fun f stopped => ?_⟩
  · obtain ⟨ds, program, single, declares⟩ := program_of_compile ok
    obtain ⟨events, outline, _, trace⟩ := ofSource_of_program program single
    have counts := declares.counts single
    have declared : (Outline.ofSource source).events.filterMap (Event.declared? source) = ds := by
      rw [outline, trace.declared]
    rw [declared]
    refine ⟨program, ?_, counts⟩
    simp only [ofSource, success, ok, declarations_eq, declared, Definition.record_eq, counts]
    rfl
  · refine ⟨?_, furthest.behind stopped, furthest.stops stopped⟩
    simp only [ofSource, success, stopped, declarations_eq]
    simp

/-- The scope of the entry points is closed, so the one before the fault is whole. -/
example :
    let source := "Input \x7b\x7d Shader \x7b Entrypoint \x7b Vertex \x22v\x22; Fragment \x7d \x7d"
    Log.ofSource source false =
      [⟨.trace, "Input section with 0 entries"⟩, ⟨.trace, "Vertex entrypoint \x22v\x22"⟩] := by
  decide +kernel

end ShaderDef
