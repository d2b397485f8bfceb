import ShaderDef.Proofs.Roundtrip.WellFormed

/-! What is compiled is well formed. The tokens of a derivation are lexemes of the source, and the
code of a stage is what stands between two of them. -/

namespace ShaderDef

open Text Grammar

variable {source : String} {seg : List Token} {t : Token}

theorem exists_form (within : seg <:+: Token.ofSource source) (member : t ∈ seg) :
    ∃ l, Lexeme.Form l ∧ t.kind = l.kind ∧ t.text = String.ofList l.text := by
  have listed := within.subset member
  rw [Token.ofSource_eq_scan] at listed
  exact Token.exists_form_of_mem_scan listed

theorem mem_of_terminal {kind : Token.Kind} (terminal : Terminal kind seg t) : t ∈ seg := by
  obtain ⟨_, _⟩ := terminal
  simp

theorem plainText_of_terminal (within : seg <:+: Token.ofSource source)
    (terminal : Terminal .stringLiteral seg t) : PlainText t.text := by
  obtain ⟨l, form, kind, text⟩ := exists_form within (mem_of_terminal terminal)
  have parts := form.string_text (kind.symm.trans (Outline.kind_of_terminal terminal))
  intro c member
  rw [text, String.toList_ofList] at member
  exact isStringPart_iff.1 (parts c member)

theorem symbolText_of_terminal (within : seg <:+: Token.ofSource source)
    (terminal : Terminal .symbol seg t) : SymbolText t.text := by
  obtain ⟨l, form, kind, text⟩ := exists_form within (mem_of_terminal terminal)
  obtain ⟨c, cs, shown, letter, parts, free⟩ :=
    form.symbol_text (kind.symm.trans (Outline.kind_of_terminal terminal))
  rw [text, shown]
  refine ⟨⟨c, cs, String.toList_ofList, letter, fun d member => ?_⟩,
    Lexeme.ofWord_eq_symbol_iff.1 free⟩
  exact isWordPart_iff.1 (parts d member)

theorem numberText_of_terminal (within : seg <:+: Token.ofSource source)
    (terminal : Terminal .numberLiteral seg t) : NumberText t.text := by
  obtain ⟨l, form, kind, text⟩ := exists_form within (mem_of_terminal terminal)
  obtain ⟨some, digits⟩ := form.number_text (kind.symm.trans (Outline.kind_of_terminal terminal))
  rw [text]
  refine ⟨fun none => some ?_, fun d member => digits d (by simpa using member)⟩
  simpa using congrArg String.toList none

section Within

variable {α : Type} {P : List Token → α → Prop} {front rest : List Token}

theorem infix_left (within : front ++ rest <:+: Token.ofSource source) :
    front <:+: Token.ofSource source :=
  (List.prefix_append front rest).isInfix.trans within

theorem infix_right (within : front ++ rest <:+: Token.ofSource source) :
    rest <:+: Token.ofSource source :=
  (List.suffix_append front rest).isInfix.trans within

theorem forall_of_star {Q : α → Prop} {as : List α}
    (each : ∀ seg a, seg <:+: Token.ofSource source → P seg a → Q a)
    (within : seg <:+: Token.ofSource source) (star : Star P seg as) : ∀ a ∈ as, Q a := by
  induction star with
  | nil => simp
  | cons head _ ih =>
    intro b member
    rcases List.mem_cons.1 member with rfl | later
    · exact each _ _ (infix_left within) head
    · exact ih (infix_right within) b later

theorem of_braced {Q : α → Prop} {a : α}
    (each : ∀ seg, seg <:+: Token.ofSource source → P seg a → Q a)
    (within : seg <:+: Token.ofSource source) (braced : Braced P seg a) : Q a := by
  obtain ⟨_, inside, _⟩ := braced
  exact each _ (infix_left (infix_right within)) inside

end Within

theorem bound_wellFormed {b : Binding} (within : seg <:+: Token.ofSource source)
    (bound : Bound seg b) : b.WellFormed := by
  obtain ⟨typed, named, divided, placed, ended⟩ := bound
  have behind := infix_right (infix_right within)
  refine ⟨symbolText_of_terminal (infix_left within) typed,
    symbolText_of_terminal (infix_left (infix_right within)) named, ?_⟩
  rcases placed with symbol | number
  · exact .inl (symbolText_of_terminal (infix_left (infix_right behind)) symbol)
  · exact .inr (numberText_of_terminal (infix_left (infix_right behind)) number)

theorem list_wellFormed {list : List Binding} (within : seg <:+: Token.ofSource source)
    (listed : Braced (Star Bound) seg list) : ∀ b ∈ list, b.WellFormed :=
  of_braced (Q := fun list : List Binding => ∀ b ∈ list, b.WellFormed)
    (fun _ inside star => forall_of_star (fun _ _ => bound_wellFormed) inside star) within listed

theorem entered_wellFormed {d : Declaration} (within : seg <:+: Token.ofSource source)
    (entered : Entered seg d) : d.WellFormed := by
  obtain ⟨_, _, named, _⟩ := entered
  exact plainText_of_terminal (infix_left (infix_right within)) named

/-- What stands before a brace is self-contained if its tokens are code that this brace closes. -/
theorem selfContained_of_scan {text rest : List Char} {offset : Nat} {body behind : List Token}
    {close : Token}
    (found : Token.scan offset (text ++ '\x7d' :: rest) = body ++ close :: behind)
    (place : close.index = offset + size text) (raw : Raw body) :
    SelfContained (String.ofList text) := by
  obtain ⟨mark, exchanged⟩ := Token.scan_exchange Token.alone_rightBrace found place
  have last := exchanged []
  rw [Token.scan_nil, ← Nat.zero_add offset, Token.scan_shift, List.map_eq_append_iff] at last
  obtain ⟨inner, tail, whole, rfl, same⟩ := last
  obtain ⟨brace, rfl, moved⟩ := List.map_eq_singleton_iff.1 same
  have kind : brace.kind = .rightBrace := by rw [← Token.kind_shift offset, moved, mark]
  have index : brace.index + offset = offset + size text :=
    (congrArg Token.index moved).trans place
  refine ⟨fun t listed => ?_, inner, brace, [], ?_, ?_, kind, ?_⟩
  · rw [ofSource_close, String.toList_ofList, whole, List.mem_append, List.mem_singleton] at listed
    rcases listed with inside | rfl
    · exact raw.native (t.shift offset) (List.mem_map.2 ⟨t, inside, rfl⟩)
    · rw [kind]
      decide
  · rw [ofSource_close, String.toList_ofList, whole]
  · exact balanced_iff.2 ((Token.nested_map_shift offset 0).1 (balanced_iff.1 raw.balanced))
  · rw [String.toList_ofList]
    omega

theorem slice_braces (front text tail : List Char) :
    slice (size front + 1) (size front + 1 + size text)
      (front ++ '\x7b' :: (text ++ '\x7d' :: tail)) = text := by
  have width : '\x7b'.utf8Size = 1 := rfl
  simpa [width] using slice_append (front ++ ['\x7b']) text ('\x7d' :: tail)

/-- Two braces among the tokens of a source stand where those characters do. -/
theorem exists_braces {before body behind : List Token} {brace close : Token}
    (split : Token.ofSource source = before ++ (seg ++ (body ++ close :: behind)))
    (opened : Terminal .leftBrace seg brace) (closed : close.kind = .rightBrace) :
    ∃ front text tail, source.toList = front ++ '\x7b' :: (text ++ '\x7d' :: tail) ∧
      brace.index = size front ∧ close.index = size front + 1 + size text ∧
      Token.scan (size front + 1) (text ++ '\x7d' :: tail) = body ++ close :: behind ∧
      behind = Token.scan (close.index + 1) tail := by
  obtain ⟨_, same⟩ := opened
  rename_i gap _
  rw [Token.ofSource_eq_scan, List.append_assoc gap, ← List.append_assoc before,
    List.singleton_append] at split
  obtain ⟨front, inner, chars, opening, rest⟩ :=
    Token.exists_mark_of_scan (fun _ => Lexeme.Form.raw_of_leftBrace) split same
  obtain ⟨text, tail, inside, closing, later⟩ :=
    Token.exists_mark_of_scan (fun _ => Lexeme.Form.raw_of_rightBrace) rest.symm closed
  have width : '\x7b'.utf8Size = 1 := rfl
  rw [Nat.zero_add] at opening
  rw [inside] at chars rest
  rw [opening, width] at rest closing
  exact ⟨front, text, tail, chars, opening, closing, rest.symm, later⟩

theorem selfContained_of_raw {body : List Token} {brace close : Token}
    (within : seg ++ (body ++ [close]) <:+: Token.ofSource source)
    (opened : Terminal .leftBrace seg brace) (raw : Raw body) (closed : close.kind = .rightBrace) :
    SelfContained (String.ofList (slice (brace.index + 1) close.index source.toList)) := by
  obtain ⟨before, behind, whole⟩ := within
  have split : Token.ofSource source = before ++ (seg ++ (body ++ close :: behind)) := by
    rw [← whole]
    simp
  obtain ⟨front, text, tail, chars, opening, closing, rest, _⟩ := exists_braces split opened closed
  rw [closing, opening, chars, slice_braces]
  exact selfContained_of_scan rest closing raw

theorem bindings_wellFormed {ds : List Declaration} (within : seg <:+: Token.ofSource source)
    (part : Bindings seg ds) : ∀ d ∈ ds, d.WellFormed := by
  obtain ⟨_, named, listed⟩ | ⟨_, listed⟩ := part
  · have name := plainText_of_terminal (infix_left (infix_right within)) named
    have list := list_wellFormed (infix_right (infix_right within)) listed
    exact List.forall_mem_singleton.2 ⟨name, list⟩
  · exact List.forall_mem_singleton.2 (list_wellFormed (infix_right within) listed)

theorem shader_wellFormed {ds : List Declaration} (within : seg <:+: Token.ofSource source)
    (part : Shader source seg ds) : ∀ d ∈ ds, d.WellFormed := by
  obtain ⟨stage, _, front, raw, closed⟩ | ⟨_, listed⟩ := part
  · exact List.forall_mem_singleton.2 (selfContained_of_raw (infix_right within) front raw closed)
  · exact of_braced (Q := fun ds : List Declaration => ∀ d ∈ ds, d.WellFormed)
      (fun _ inside star => forall_of_star (fun _ _ => entered_wellFormed) inside star)
      (infix_right within) listed

theorem parts_wellFormed {P : List Token → List Declaration → Prop}
    {parts : List (List Declaration)} (within : seg <:+: Token.ofSource source)
    (each : ∀ seg ds, seg <:+: Token.ofSource source → P seg ds → ∀ d ∈ ds, d.WellFormed)
    (star : Star P seg parts) : ∀ d ∈ parts.flatten, d.WellFormed := by
  intro d member
  obtain ⟨ds, there, inside⟩ := List.mem_flatten.1 member
  exact forall_of_star (Q := fun ds : List Declaration => ∀ d ∈ ds, d.WellFormed) each within star
    ds there d inside

theorem section_wellFormed {ds : List Declaration} (within : seg <:+: Token.ofSource source)
    (part : Section source seg ds) : ∀ d ∈ ds, d.WellFormed := by
  cases part with
  | name _ named _ =>
    exact List.forall_mem_singleton.2
      (plainText_of_terminal (infix_left (infix_right within)) named)
  | bindings _ listed =>
    obtain ⟨_, inside, _⟩ := listed
    exact parts_wellFormed (infix_left (infix_right (infix_right within)))
      (fun _ _ => bindings_wellFormed) inside
  | input _ listed =>
    exact List.forall_mem_singleton.2 (list_wellFormed (infix_right within) listed)
  | pixelInput _ listed =>
    exact List.forall_mem_singleton.2 (list_wellFormed (infix_right within) listed)
  | shader _ listed =>
    obtain ⟨_, inside, _⟩ := listed
    exact parts_wellFormed (infix_left (infix_right (infix_right within)))
      (fun _ _ => shader_wellFormed) inside

theorem program_wellFormed {ds : List Declaration} (within : seg <:+: Token.ofSource source)
    (program : Program source seg ds) : ∀ d ∈ ds, d.WellFormed := by
  obtain ⟨sections, _⟩ := program
  exact parts_wellFormed (infix_left within) (fun _ _ => section_wellFormed) sections

theorem wellFormed_of_compile {d : Definition} (ok : compile source = .ok d) : d.WellFormed := by
  obtain ⟨ds, program, _, declares⟩ := program_of_compile ok
  exact .of_declares declares (program_wellFormed (List.infix_refl _) program)

end ShaderDef
