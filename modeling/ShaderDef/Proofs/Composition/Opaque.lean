import ShaderDef.Proofs.Composition.Concat
import ShaderDef.Proofs.Roundtrip.Canonical

/-! Stage code is opaque. Main statement: where the code of a stage has been read, other
self-contained code can be put in its place; the definition changes in the text of that stage only,
and a fault only in its place. -/

namespace ShaderDef

open Text Grammar Outline
open List (Forall₂)

def splice (source : String) (opening closing : Nat) (code : String) : String :=
  String.ofList (takeBytes (opening + 1) source.toList ++
    (code.toList ++ dropBytes closing source.toList))

def Outline.Completes (source : String) (stage : Stage) (opening closing : Nat) : Prop :=
  .code stage (opening + 1) closing ∈ (ofSource source).events

def Sources.withCode (s : Sources) (stage : Stage) (text : String) : Sources :=
  match stage with
  | .shared => { s with shared := some text }
  | .vertex => { s with vertex := some text }
  | .fragment => { s with fragment := some text }

theorem Sources.code_withCode (s : Sources) (stage which : Stage) (text : String) :
    (s.withCode stage text).code which = if which = stage then some text else s.code which := by
  cases stage <;> cases which <;> rfl

namespace Definition

def withCode (d : Definition) (stage : Stage) (text : String) : Definition :=
  { d with sources := d.sources.withCode stage text }

theorem items_exchange (front behind : List Declaration) (stage : Stage) (text other : String) :
    (front ++ .code stage other :: behind).filterMap Declaration.item? =
      (front ++ .code stage text :: behind).filterMap Declaration.item? := by
  rw [List.filterMap_append, List.filterMap_append]
  rfl

theorem Declares.withCode {d : Definition} {stage : Stage} {text : String}
    {front behind : List Declaration} (declares : d.Declares (front ++ .code stage text :: behind))
    (single : ((front ++ .code stage text :: behind).filterMap Declaration.item?).Nodup)
    (other : String) :
    (d.withCode stage other).Declares (front ++ .code stage other :: behind) where
  name := fun shown => by simpa [Definition.withCode] using declares.name shown
  uniformBuffers := by
    rw [List.filterMap_append]
    exact declares.uniformBuffers.trans List.filterMap_append
  textures := by
    rw [List.flatMap_append]
    exact declares.textures.trans List.flatMap_append
  inputs := by
    rw [List.flatMap_append]
    exact declares.inputs.trans List.flatMap_append
  pixelInputs := by
    rw [List.flatMap_append]
    exact declares.pixelInputs.trans List.flatMap_append
  entry := fun which shown => by simpa [Definition.withCode] using declares.entry which shown
  code := fun which shown => by
    rw [Definition.withCode, Sources.code_withCode]
    by_cases same : which = stage
    · subst same
      rw [if_pos rfl, Option.some.injEq]
      have present : .code which other ∈ front ++ .code which other :: behind := by simp
      refine ⟨fun equal => equal ▸ present, fun member => ?_⟩
      rw [← items_exchange front behind which text other] at single
      have equal := Declaration.eq_of_item single present member rfl rfl
      injection equal
    · rw [if_neg same]
      simpa [same] using declares.code which shown

end Definition

def Aligned (m n i j : Nat) : Prop :=
  ∃ k, i = k + m ∧ j = k + n

theorem Token.scan_alike (m n : Nat) (cs : List Char) :
    Forall₂ (Token.Alike (Aligned m n)) (significant (scan m cs)) (significant (scan n cs)) := by
  rw [← Nat.zero_add m, ← Nat.zero_add n, scan_shift, scan_shift, significant_shift,
    significant_shift, List.forall₂_map_left_iff, List.forall₂_map_right_iff, Nat.zero_add,
    Nat.zero_add]
  exact List.forall₂_same.2 fun t _ => ⟨rfl, fun _ => rfl, t.index, rfl, rfl⟩

/-- Where texts go on alike, what is told of the rest declares the same. -/
theorem Event.declared?_aligned {source source' : String} {as bs cs : List Char} {e e' : Event}
    (whole : source.toList = as ++ cs) (whole' : source'.toList = bs ++ cs)
    (alike : e.Alike (Aligned (size as) (size bs)) e') :
    e.declared? source = e'.declared? source' := by
  cases alike with
  | opens => rfl
  | code stage opened closed =>
    obtain ⟨i, rfl, rfl⟩ := opened
    obtain ⟨k, rfl, rfl⟩ := closed
    simp only [declared?, whole, whole', Nat.add_right_comm i _ 1, slice_append_right]
  | same free => exact declared?_of_free free _ _

section Exchange

variable {source : String} {stage : Stage} {front text tail : List Char} {code : String}

/-- The characters around the code of a passage: the braces stand where its tokens say, and what
stands between them can be exchanged. -/
structure Outline.Passage.Placed (p : Passage .top stage (Token.ofSource source))
    (front text tail : List Char) : Prop where
  whole : source.toList = front ++ '\x7b' :: (text ++ '\x7d' :: tail)
  opening : p.brace.index = size front
  closing : p.close.index = size front + 1 + size text
  rest : p.rest = Token.scan (p.close.index + 1) tail
  exchange : ∀ other, Token.scan 0 (front ++ '\x7b' :: other) =
    p.front ++ (p.head ++ (p.gap ++ Token.scan (size front + 1) other))

theorem toList_splice_braces {opening closing : Nat}
    (whole : source.toList = front ++ '\x7b' :: (text ++ '\x7d' :: tail))
    (opened : opening = size front) (closed : closing = size front + 1 + size text) :
    (splice source opening closing code).toList =
      front ++ '\x7b' :: (code.toList ++ '\x7d' :: tail) := by
  have width : '\x7b'.utf8Size = 1 := rfl
  have kept : takeBytes (opening + 1) source.toList = front ++ ['\x7b'] := by
    have cut := takeBytes_size_append (front ++ ['\x7b']) (text ++ '\x7d' :: tail)
    rw [whole, opened]
    simpa [width] using cut
  have left : dropBytes closing source.toList = '\x7d' :: tail := by
    have cut := dropBytes_size_append (front ++ '\x7b' :: text) ('\x7d' :: tail)
    rw [whole, closed]
    simpa [width, Nat.add_assoc] using cut
  rw [splice, String.toList_ofList, kept, left]
  simp

theorem Outline.split_of_terminal {kind : Token.Kind} {seg : List Token} {t : Token}
    (terminal : Terminal kind seg t) : ∃ gap, seg = gap ++ [t] ∧ t.kind = kind := by
  obtain ⟨_, same⟩ := terminal
  exact ⟨_, rfl, same⟩

theorem Outline.Passage.exists_placed (p : Passage .top stage (Token.ofSource source)) :
    ∃ front text tail, p.Placed front text tail := by
  have split := p.split
  rw [← List.append_assoc] at split
  obtain ⟨front, text, tail, chars, opening, closing, _, rest⟩ :=
    exists_braces split p.entered p.closed
  obtain ⟨gap, spelled, _⟩ : ∃ gap, p.gap = gap ++ [p.brace] ∧ p.brace.kind = .leftBrace :=
    split_of_terminal p.entered
  have scanned := (Token.ofSource_eq_scan source).symm.trans split
  rw [chars, spelled, List.append_assoc gap, ← List.append_assoc _ gap] at scanned
  obtain ⟨_, exchanged⟩ :=
    Token.scan_exchange Token.alone_leftBrace scanned (by rw [opening, Nat.zero_add])
  refine ⟨front, text, tail, chars, opening, closing, rest, fun other => ?_⟩
  rw [exchanged, spelled, Nat.zero_add]
  simp only [List.append_assoc, List.singleton_append]
  rfl

variable {p : Passage .top stage (Token.ofSource source)}

theorem Outline.Passage.Placed.toList_splice (placed : p.Placed front text tail) :
    (splice source p.brace.index p.close.index code).toList =
      front ++ '\x7b' :: (code.toList ++ '\x7d' :: tail) :=
  toList_splice_braces placed.whole placed.opening placed.closing

/-- The tokens of the other source: the same up to the opening brace, the other code with a closing
brace, and the tokens of what stands behind. -/
theorem Outline.Passage.Placed.tokens_splice (placed : p.Placed front text tail)
    (self : SelfContained code) :
    ∃ body close, Raw body ∧ close.kind = .rightBrace ∧
      close.index = size front + 1 + size code.toList ∧
      Token.ofSource (splice source p.brace.index p.close.index code) =
        p.front ++ (p.head ++ (p.gap ++ (body ++ close :: Token.scan (close.index + 1) tail))) := by
  obtain ⟨body, raw, tokens⟩ := self.scan (size front + 1) tail
  refine ⟨body, ⟨.rightBrace, size front + 1 + size code.toList, "\x7d"⟩, raw, rfl, rfl, ?_⟩
  rw [Token.ofSource_eq_scan, placed.toList_splice, placed.exchange, tokens]

/-- The outlines of both sources: the same up to the code but for its end, and alike behind it. -/
theorem Outline.Passage.Placed.outlines (placed : p.Placed front text tail)
    (kept : ∀ closing, (once [] (p.trail closing)).result = .ok ()) (self : SelfContained code) :
    ∃ (closing : Nat) (later later' : Reading Unit),
      closing = size front + 1 + size code.toList ∧
      ofSource source = (⟨p.trail p.close.index, .ok ()⟩ : Reading Unit) >>= (fun _ => later) ∧
      ofSource (splice source p.brace.index p.close.index code) =
        (⟨p.trail closing, .ok ()⟩ : Reading Unit) >>= (fun _ => later') ∧
      Reading.Alike (Aligned (p.close.index + 1) (closing + 1)) (fun _ _ => True) later later' := by
  obtain ⟨body, close, raw, closed, place, tokens⟩ := placed.tokens_splice self
  have width : '\x7b'.utf8Size = 1 ∧ '\x7d'.utf8Size = 1 := ⟨rfl, rfl⟩
  have ends : size source.toList = size tail + (p.close.index + 1) := by
    rw [placed.whole, placed.closing]
    simp only [size_append, size_cons, width]
    omega
  have ends' : size (splice source p.brace.index p.close.index code).toList =
      size tail + (close.index + 1) := by
    rw [placed.toList_splice, place]
    simp only [size_append, size_cons, width]
    omega
  refine ⟨close.index, p.later (size source.toList) p.rest,
    p.later (size (splice source p.brace.index p.close.index code).toList)
      (Token.scan (close.index + 1) tail), place, ?_, ?_, ?_⟩
  · rw [ofSource, ← p.outline p.raw p.closed (kept _), ← p.split]
  · rw [ofSource, tokens, p.outline raw closed (kept _)]
  · rw [placed.rest]
    obtain ⟨result, events⟩ := walk_alike .shader ⟨size tail, ends, ends'⟩
      (Token.scan_alike (p.close.index + 1) (close.index + 1) tail)
    exact (once_alike _ events).bind fun _ _ _ => Reading.alike_lift result

theorem Outline.Passage.Placed.told_within (placed : p.Placed front text tail) :
    Forall₂ (Event.Alike fun i j => i = j ∧ j ≤ size front) p.told p.told := by
  refine p.walks.within fun t inside => ?_
  have ordered := Token.scan_ordered 0 (front ++ ['\x7b'])
  rw [placed.exchange [], List.pairwise_append] at ordered
  have behind : p.brace ∈ p.head ++ (p.gap ++ Token.scan (size front + 1) []) := by
    simp [mem_of_terminal p.entered]
  have before := ordered.2.2 t inside _ behind
  rw [placed.opening] at before
  exact before.le

/-- What is declared up to the end of the code does not depend on what stands behind the opening
brace, apart from the code. -/
theorem Outline.Passage.Placed.declared_trail (placed : p.Placed front text tail) {other : String}
    {behind inner : List Char}
    (whole : other.toList = front ++ '\x7b' :: (inner ++ '\x7d' :: behind)) :
    (p.trail (size front + 1 + size inner)).filterMap (Event.declared? other) =
      p.told.filterMap (Event.declared? (String.ofList front)) ++
        [.code stage (String.ofList inner)] := by
  have start : (String.ofList front).toList = front := String.toList_ofList
  have within := placed.told_within
  rw [← start] at whole within
  have told : p.told.filterMap (Event.declared? (String.ofList front)) =
      p.told.filterMap (Event.declared? other) :=
    Event.filterMap_alike (fun _ _ alike => (Event.declared?_append whole alike).symm) within
  have cut := slice_braces front inner behind
  rw [start] at whole
  rw [← whole] at cut
  have last : [Event.opens (.code stage) p.keyword.index, .code stage (p.brace.index + 1)
      (size front + 1 + size inner)].filterMap (Event.declared? other) =
      [.code stage (String.ofList (slice (p.brace.index + 1) (size front + 1 + size inner)
        other.toList))] := rfl
  rw [Passage.trail, List.filterMap_append, told, last, placed.opening, cut]

/-- What is declared behind the code is the same in both sources. -/
theorem Outline.Passage.Placed.declared_later (placed : p.Placed front text tail)
    {es fs : List Event} (alike : Forall₂ (Event.Alike
      (Aligned (p.close.index + 1) (size front + 1 + size code.toList + 1))) es fs) :
    es.filterMap (Event.declared? source) =
      fs.filterMap (Event.declared? (splice source p.brace.index p.close.index code)) := by
  have width : '\x7b'.utf8Size = 1 ∧ '\x7d'.utf8Size = 1 := ⟨rfl, rfl⟩
  have extent : ∀ inner, size (front ++ '\x7b' :: (inner ++ ['\x7d'])) =
      size front + 1 + size inner + 1 := by
    intro inner
    simp only [size_append, size_cons, size_nil, width]
    omega
  have whole : source.toList = (front ++ '\x7b' :: (text ++ ['\x7d'])) ++ tail := by
    simp [placed.whole]
  have whole' : (splice source p.brace.index p.close.index code).toList =
      (front ++ '\x7b' :: (code.toList ++ ['\x7d'])) ++ tail := by
    simp [placed.toList_splice]
  rw [placed.closing, ← extent, ← extent] at alike
  exact Event.filterMap_alike (fun _ _ => Event.declared?_aligned whole whole') alike

variable {d : Definition} {f : Fault} {opening closing : Nat}

theorem compile_splice_of_ok (completes : Completes source stage opening closing)
    (self : SelfContained code) (ok : compile source = .ok d) :
    compile (splice source opening closing code) = .ok (d.withCode stage code) := by
  obtain ⟨p, start, rfl, kept⟩ := passage_of_ofTokens completes
  obtain rfl : opening = p.brace.index := by omega
  obtain ⟨front, text, tail, placed⟩ := p.exists_placed
  obtain ⟨closing, later, later', rfl, outline, outline', result, events⟩ :=
    placed.outlines kept self
  rw [Reading.bind_of_ok _ rfl] at outline outline'
  obtain ⟨_, ds, outlined⟩ := Outlined.of_compile ok
  obtain ⟨rfl, done⟩ := Reading.mk.inj (outlined.outline.symm.trans outline)
  have declared := outlined.trace.declared
  rw [List.filterMap_append, placed.closing, placed.declared_trail placed.whole, List.append_assoc,
    List.singleton_append] at declared
  subst declared
  have declared : (p.trail (size front + 1 + size code.toList) ++ later'.events).filterMap
      (Event.declared? (splice source p.brace.index p.close.index code)) =
      p.told.filterMap (Event.declared? (String.ofList front)) ++
        .code stage code :: later.events.filterMap (Event.declared? source) := by
    rw [List.filterMap_append, placed.declared_trail placed.toList_splice,
      placed.declared_later events, String.ofList_toList, List.append_assoc, List.singleton_append]
  have single := outlined.single
  rw [← Definition.items_exchange _ _ _ _ code] at single
  rw [← done] at result
  rw [compile_eq_ok, outline']
  constructor
  · generalize later'.result = r at result
    cases result
    rfl
  · exact (Definition.declares_ofEvents declared single).unique
      (outlined.declares.withCode outlined.single code)

theorem compile_splice_of_error (completes : Completes source stage opening closing)
    (self : SelfContained code) (stopped : compile source = .error f) :
    closing < f.index ∧ compile (splice source opening closing code) =
      .error ⟨f.cause, f.index - size (slice (opening + 1) closing source.toList) +
        size code.toList⟩ := by
  obtain ⟨p, start, rfl, kept⟩ := passage_of_ofTokens completes
  obtain rfl : opening = p.brace.index := by omega
  obtain ⟨front, text, tail, placed⟩ := p.exists_placed
  obtain ⟨closing, later, later', rfl, outline, outline', result, _⟩ :=
    placed.outlines kept self
  have piece : slice (p.brace.index + 1) p.close.index source.toList = text := by
    rw [placed.opening, placed.closing, placed.whole, slice_braces]
  rw [Reading.bind_of_ok _ rfl] at outline outline'
  rw [compile_eq_error, outline] at stopped
  change later.result = .error f at stopped
  rw [stopped] at result
  rw [piece, compile_eq_error, outline']
  generalize later'.result = r at result ⊢
  obtain _ | ⟨cause, k, behind, behind'⟩ := result
  rename_i g
  obtain ⟨_, index⟩ := g
  have moved : index = f.index - size text + size code.toList := by
    have closing := placed.closing
    simp only at behind'
    omega
  rw [cause, moved]
  exact ⟨by omega, rfl⟩

/-- Where the code of a stage has been read, other self-contained code is read in its place. The
definition has it for the text of that stage and is the same otherwise; a fault comes behind the
code, and is the same at its moved place. -/
theorem compile_splice (completes : Completes source stage opening closing)
    (self : SelfContained code) :
    (∀ d, compile source = .ok d →
      compile (splice source opening closing code) = .ok (d.withCode stage code)) ∧
    (∀ f, compile source = .error f → closing < f.index ∧
      compile (splice source opening closing code) =
        .error ⟨f.cause, f.index - size (slice (opening + 1) closing source.toList) +
          size code.toList⟩) :=
  ⟨fun _ ok => compile_splice_of_ok completes self ok,
    fun _ stopped => compile_splice_of_error completes self stopped⟩

/-- Braces in a character literal and in a comment, and a malformed number. -/
theorem compile_splice_braces :
    let code := "\x7b 1f '\x7d \x7d // \x7d\n"
    let source := "Shader \x7b Vertex \x7b v \x7d \x7d Name \"n\";"
    let d : Definition := { interface := { name := some "n" }, sources := { vertex := some " v " } }
    let broken := "Shader \x7b Vertex \x7b v \x7d \x7d Name 1;"
    let f : Fault := ⟨.unexpected .stringLiteral .numberLiteral, 29⟩
    SelfContained code ∧
    Completes source .vertex 16 20 ∧ compile source = .ok d ∧
    compile (splice source 16 20 code) = .ok (d.withCode .vertex code) ∧
    Completes broken .vertex 16 20 ∧ compile broken = .error f ∧
    compile (splice broken 16 20 code) =
      .error ⟨f.cause, f.index - size (slice 17 20 broken.toList) + size code.toList⟩ := by
  intro code source d broken f
  have accepted : compile "Shader \x7b Shared \x7b\x7b 1f '\x7d \x7d // \x7d\n\x7d \x7d" =
      .ok { sources := { shared := some code } } := by decide +kernel
  have self : SelfContained code := (wellFormed_of_compile accepted).code .shared code rfl
  have completes : Completes source .vertex 16 20 := by
    unfold Completes
    decide +kernel
  have completes' : Completes broken .vertex 16 20 := by
    unfold Completes
    decide +kernel
  have compiled : compile source = .ok d := by decide +kernel
  have stopped : compile broken = .error f := by decide +kernel
  exact ⟨self, completes, compiled, (compile_splice completes self).1 d compiled, completes',
    stopped, ((compile_splice completes' self).2 f stopped).2⟩

end Exchange

end ShaderDef
