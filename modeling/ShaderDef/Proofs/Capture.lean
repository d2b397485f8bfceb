import ShaderDef.Proofs.Composition.Opaque

/-! Verbatim capture. Main statement: the code of a stage is what stands in the source between two
braces, the one behind the keyword of the stage and the first behind it that is not matched; and on
its own the code has the tokens that it has there. -/

namespace ShaderDef

open Text Grammar

theorem Grammar.Star.split_of_mem {α : Type} {P : List Token → α → Prop} {seg : List Token}
    {as : List α} {a : α} (star : Star P seg as) (member : a ∈ as) :
    ∃ front part behind before, seg = front ++ (part ++ behind) ∧ Star P front before ∧
      P part a := by
  induction star with
  | nil => simp at member
  | @cons head _ _ _ first _ ih =>
    rcases List.mem_cons.1 member with rfl | later
    · exact ⟨[], _, _, [], rfl, .nil, first⟩
    · obtain ⟨front, part, behind, before, rfl, star, here⟩ := ih later
      exact ⟨head ++ front, part, behind, _, by simp, .cons first star, here⟩

/-- What stands in front of a part of a shader section: whole sections, the keyword and the brace
that open this one, and whole parts of it. -/
inductive Grammar.InShader (source : String) : List Token → Prop
  | intro {ts s₁ s₂ inner : List Token} {keyword brace : Token}
      {sections parts : List (List Declaration)} (before : Star (Section source) ts sections)
      (opened : Terminal .shaderKeyword s₁ keyword) (entered : Terminal .leftBrace s₂ brace)
      (within : Star (Shader source) inner parts) :
      InShader source (ts ++ (s₁ ++ (s₂ ++ inner)))

/-- The code of a stage among some tokens of a source: in a shader section the keyword of the stage,
behind it a brace, with at most comments between them, and the code up to the closing brace. -/
structure Capture (source : String) (stage : Stage) (ts : List Token) where
  front : List Token
  inside : InShader source front
  head : List Token
  keyword : Token
  opened : Terminal stage.keyword head keyword
  gap : List Token
  brace : Token
  entered : Terminal .leftBrace gap brace
  body : List Token
  balanced : Balanced body
  close : Token
  closed : close.kind = .rightBrace
  rest : List Token
  split : ts = front ++ (head ++ (gap ++ (body ++ close :: rest)))

section Derivation

variable {source code : String} {stage : Stage} {seg before ts : List Token}
  {ds : List Declaration} {sections : List (List Declaration)}

def Capture.text (c : Capture source stage ts) : String :=
  String.ofList (slice (c.brace.index + 1) c.close.index source.toList)

theorem Grammar.code_not_mem_of_bindings (part : Bindings seg ds) : .code stage code ∉ ds := by
  cases part <;> simp

theorem Grammar.code_not_mem_of_entries (star : Star Entered seg ds) : .code stage code ∉ ds := by
  intro member
  obtain ⟨_, _, _, _, _, _, entered⟩ := star.split_of_mem member
  cases entered

/-- A section that declares code is a shader section, and has it between braces. -/
theorem Grammar.Section.exists_capture (part : Section source seg ds)
    (member : .code stage code ∈ ds) (star : Star (Section source) before sections)
    (behind : List Token) :
    ∃ c : Capture source stage (before ++ (seg ++ behind)), c.text = code := by
  cases part with
  | name _ _ _ => simp at member
  | bindings _ listed =>
    obtain ⟨_, inside, _⟩ := listed
    obtain ⟨ds, there, member⟩ := List.mem_flatten.1 member
    obtain ⟨_, _, _, _, _, _, here⟩ := inside.split_of_mem there
    exact absurd member (code_not_mem_of_bindings here)
  | input _ _ => simp at member
  | pixelInput _ _ => simp at member
  | shader opened listed =>
    obtain @⟨_, _, last, _, _, _, entered, inside, _⟩ := listed
    obtain ⟨ds, there, member⟩ := List.mem_flatten.1 member
    obtain ⟨_, _, others, _, rfl, within, here⟩ := inside.split_of_mem there
    cases here with
    | code stage' opened' entered' raw closed =>
      obtain ⟨rfl, rfl⟩ : stage = stage' ∧ code = _ := by simpa using member
      refine ⟨{
        inside := .intro star opened entered within
        opened := opened'
        entered := entered'
        balanced := raw.balanced
        closed := closed
        rest := others ++ (last ++ behind)
        split := ?_, .. }, rfl⟩
      simp
    | entrypoint _ listed =>
      obtain ⟨_, entries, _⟩ := listed
      exact absurd member (code_not_mem_of_entries entries)

theorem Grammar.Program.exists_capture (program : Program source ts ds)
    (member : .code stage code ∈ ds) : ∃ c : Capture source stage ts, c.text = code := by
  obtain ⟨sections, _⟩ := program
  obtain ⟨ds, there, member⟩ := List.mem_flatten.1 member
  obtain ⟨_, _, _, _, rfl, star, part⟩ := sections.split_of_mem there
  rw [List.append_assoc, List.append_assoc]
  exact part.exists_capture member star _

structure Capture.Verbatim (c : Capture source stage ts) : Prop where
  ordered : c.brace.index < c.close.index
  opening : slice c.brace.index (c.brace.index + 1) source.toList = ['\x7b']
  closing : slice c.close.index (c.close.index + 1) source.toList = ['\x7d']
  spliced : splice source c.brace.index c.close.index c.text = source
  first : FirstUnmatched c.body c.close
  tokens : c.body = (Token.ofSource c.text).map (Token.shift (c.brace.index + 1))
  balanced : Balanced (Token.ofSource c.text)

theorem Capture.verbatim (c : Capture source stage (Token.ofSource source)) : c.Verbatim := by
  have split := c.split
  rw [← List.append_assoc] at split
  obtain ⟨front, text, tail, chars, opened, closed, found, _⟩ :=
    exists_braces split c.entered c.closed
  have width : '\x7b'.utf8Size = 1 ∧ '\x7d'.utf8Size = 1 := ⟨rfl, rfl⟩
  have between : c.text = String.ofList text := by
    rw [Capture.text, closed, opened, chars, slice_braces]
  -- The closing brace is no letter, so no token before it needs it to end there.
  have alone : c.body = (Token.ofSource c.text).map (Token.shift (c.brace.index + 1)) := by
    rw [Token.ofSource_eq_scan c.text, between, String.toList_ofList, ← Token.scan_shift, opened,
      Nat.zero_add]
    exact (Token.scan_alone Token.alone_rightBrace found closed (by decide)).symm
  refine
    { ordered := by omega
      opening := ?_
      closing := ?_
      spliced := String.toList_injective ?_
      first := c.balanced.firstUnmatched c.closed
      tokens := alone
      balanced := ?_ }
  · rw [opened, chars]
    simpa [width] using slice_append front ['\x7b'] (text ++ '\x7d' :: tail)
  · rw [closed, chars]
    simpa [width, Nat.add_assoc] using slice_append (front ++ '\x7b' :: text) ['\x7d'] tail
  · rw [toList_splice_braces chars opened closed, between, String.toList_ofList, chars]
  · have body := balanced_iff.1 c.balanced
    rw [alone] at body
    exact balanced_iff.2 ((Token.nested_map_shift _ 0).1 body)

/-- The text of a stage is captured verbatim from between two braces, the one behind the keyword of
the stage in a shader section and the first behind it that is not matched; on its own it has the
tokens that stand between them, with balanced braces. -/
theorem compile_capture {d : Definition} (ok : compile source = .ok d)
    (captured : d.sources.code stage = some code) :
    ∃ c : Capture source stage (Token.ofSource source), c.text = code ∧ c.Verbatim := by
  obtain ⟨ds, program, _, declares⟩ := program_of_compile ok
  obtain ⟨c, text⟩ := program.exists_capture ((declares.code stage code).1 captured)
  exact ⟨c, text, c.verbatim⟩

/-- Braces in a character literal, a string and comments. -/
theorem compile_capture_quoted :
    let code := " '\x7d' \x22\x7d\x22 /* \x7b */ \x7b a \x7d // \x7d\n"
    let source := "Shader \x7b Vertex // \x7b\n\x7b" ++ code ++ "\x7d \x7d"
    let d : Definition := { sources := { vertex := some code } }
    compile source = .ok d ∧ d.sources.code .vertex = some code ∧
      ∃ c : Capture source .vertex (Token.ofSource source), c.text = code ∧ c.Verbatim := by
  intro code source d
  have compiled : compile source = .ok d := by decide +kernel
  exact ⟨compiled, rfl, compile_capture compiled rfl⟩

end Derivation

end ShaderDef
