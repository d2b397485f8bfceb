import ShaderDef.Lexeme
import ShaderDef.Proofs.Lexical.Class

/-! The forms of lexemes. `Lexeme.Form` says what a lexeme of each kind covers and what may stand
behind it, without saying how it is read. What stands behind matters only in its first character,
so the rest of a text can be exchanged; and the kind says what the characters are. -/

namespace ShaderDef.Lexeme

open Text Token.Kind

def Continues (spelling : List Char) (d : Char) : Prop :=
  spelling ++ [d] ∈ operators.map Prod.fst ∨ spelling = ['/'] ∧ (d = '/' ∨ d = '*')

inductive Form : Lexeme → Prop
  | foreign (c : Char) (rest : List Char) (foreign : isForeign c = true) :
      Form ⟨.invalid, [c], rest⟩
  | string (cs rest : List Char) (parts : ∀ c ∈ cs, isStringPart c = true) :
      Form ⟨.stringLiteral, '"' :: (cs ++ ['"']), rest⟩
  | openString (cs rest : List Char) (parts : ∀ c ∈ cs, isStringPart c = true)
      (stops : ∀ d ∈ rest.head?, isStringPart d = false ∧ d ≠ '"') :
      Form ⟨.invalidStringLiteral, '"' :: cs, rest⟩
  | number (c : Char) (cs rest : List Char) (digits : ∀ d ∈ c :: cs, d.isDigit = true)
      (stops : ∀ d ∈ rest.head?, d.isDigit = false ∧ d.isAlpha = false) :
      Form ⟨.numberLiteral, c :: cs, rest⟩
  | badNumber (c d : Char) (cs rest : List Char) (digits : ∀ d ∈ c :: cs, d.isDigit = true)
      (letter : d.isAlpha = true) : Form ⟨.invalidNumberLiteral, c :: cs, d :: rest⟩
  | word (c : Char) (cs rest : List Char) (letter : c.isAlpha = true)
      (parts : ∀ d ∈ cs, isWordPart d = true) (stops : ∀ d ∈ rest.head?, isWordPart d = false) :
      Form ⟨.ofWord (String.ofList (c :: cs)), c :: cs, rest⟩
  | remark (cs rest : List Char) (parts : ∀ c ∈ cs, isRemark c = true)
      (stops : ∀ d ∈ rest.head?, isRemark d = false) : Form ⟨.comment, '/' :: '/' :: cs, rest⟩
  | block (cs rest : List Char) (native : ∀ c ∈ cs, isForeign c = false)
      (first : ¬ ['*', '/'] <:+: cs ++ ['*']) :
      Form ⟨.blockComment, '/' :: '*' :: (cs ++ ['*', '/']), rest⟩
  | openBlock (cs rest : List Char) (native : ∀ c ∈ cs, isForeign c = false)
      (unclosed : ¬ ['*', '/'] <:+: cs) (stops : ∀ d ∈ rest.head?, isForeign d = true) :
      Form ⟨.invalidComment, '/' :: '*' :: cs, rest⟩
  | character (c : Char) (rest : List Char) (graphic : isGraphic c = true) :
      Form ⟨.characterLiteral, ['\'', c], rest⟩
  | apostrophe (rest : List Char) (stops : ∀ d ∈ rest.head?, isGraphic d = false) :
      Form ⟨.apostrophe, ['\''], rest⟩
  | operator (spelling : List Char) (kind : Token.Kind) (rest : List Char)
      (listed : (spelling, kind) ∈ operators) (other : kind ≠ .apostrophe)
      (stops : ∀ d ∈ rest.head?, ¬ Continues spelling d) : Form ⟨kind, spelling, rest⟩

theorem mem_keywords {word : String} (reserved : ofWord word ≠ .symbol) :
    (word, ofWord word) ∈ keywords := by
  unfold ofWord at reserved ⊢
  cases found : keywords.lookup word with
  | none => simp [found] at reserved
  | some kind =>
    obtain ⟨before, behind, split, _⟩ := List.lookup_eq_some_iff.1 found
    rw [split]
    simp

theorem ofWord_eq_symbol_iff {word : String} :
    ofWord word = .symbol ↔ word ∉ keywords.map Prod.fst := by
  have reserved : ∀ entry ∈ keywords, entry.2 ≠ .symbol := by decide
  unfold ofWord
  cases found : keywords.lookup word with
  | none =>
    have absent := List.lookup_eq_none_iff.1 found
    simp only [Option.getD_none, true_iff, List.mem_map, not_exists, not_and]
    intro entry listed same
    subst same
    simpa using absent entry listed
  | some kind =>
    obtain ⟨before, behind, split, _⟩ := List.lookup_eq_some_iff.1 found
    have listed : (word, kind) ∈ keywords := by simp [split]
    simp only [Option.getD_some]
    exact ⟨fun same => absurd same (reserved _ listed),
      fun absent => absurd (List.mem_map.2 ⟨_, listed, rfl⟩) absent⟩

theorem ofWord_ne {kind : Token.Kind} (other : kind ≠ .symbol)
    (free : ∀ entry ∈ keywords, entry.2 ≠ kind) (word : String) : ofWord word ≠ kind := by
  intro same
  have listed := mem_keywords (same ▸ other)
  exact free _ listed same

theorem operator_ne_string : ∀ entry ∈ operators, entry.2 ≠ .stringLiteral := by
  decide

theorem Form.kind_ne_end {l : Lexeme} (form : Form l) : l.kind ≠ .endOfFile := by
  have marks : ∀ entry ∈ operators, entry.2 ≠ .endOfFile := by decide
  cases form with
  | word c cs rest letter parts stops => exact ofWord_ne (by decide) (by decide) _
  | operator spelling kind rest listed other stops => exact marks _ listed
  | _ => simp

def Alone (c : Char) (kind : Token.Kind) : Prop :=
  ([c], kind) ∈ operators ∧ kind ≠ .apostrophe ∧ c ≠ '/' ∧
    ∀ entry ∈ operators, entry.1.head? = some c → entry.1 = [c]

instance (c : Char) (kind : Token.Kind) : Decidable (Alone c kind) :=
  inferInstanceAs (Decidable (_ ∧ _ ∧ _ ∧ _))

theorem Alone.form {c : Char} {kind : Token.Kind} (alone : Alone c kind) (rest : List Char) :
    Form ⟨kind, [c], rest⟩ := by
  obtain ⟨listed, kept, solid, single⟩ := alone
  apply Form.operator [c] kind rest listed kept
  intro d _ either
  rcases either with longer | ⟨slash, _⟩
  · obtain ⟨entry, known, spelled⟩ := List.mem_map.1 longer
    have short := single entry known (by rw [spelled]; rfl)
    rw [spelled] at short
    simp at short
  · exact solid (List.cons.inj slash).1

section Behind

variable {l : Lexeme}

/-- Of the rest only the first character counts. -/
theorem Form.exchange (form : Form l) {other : List Char} (same : other.head? = l.rest.head?) :
    Form { l with rest := other } := by
  cases form with
  | foreign c _ foreign => exact .foreign c other foreign
  | string cs _ parts => exact .string cs other parts
  | openString cs _ parts stops => exact .openString cs other parts (same ▸ stops)
  | number c cs _ digits stops => exact .number c cs other digits (same ▸ stops)
  | badNumber c d cs tail digits letter =>
    cases other with
    | nil => simp at same
    | cons e other =>
      obtain rfl : e = d := by simpa using same
      exact .badNumber c e cs other digits letter
  | word c cs _ letter parts stops => exact .word c cs other letter parts (same ▸ stops)
  | remark cs _ parts stops => exact .remark cs other parts (same ▸ stops)
  | block cs _ native first => exact .block cs other native first
  | openBlock cs _ native unclosed stops =>
    exact .openBlock cs other native unclosed (same ▸ stops)
  | character c _ graphic => exact .character c other graphic
  | apostrophe _ stops => exact .apostrophe other (same ▸ stops)
  | operator _ _ _ listed kept stops => exact .operator _ _ other listed kept (same ▸ stops)

/-- Where no letter follows a lexeme the text may as well end. -/
theorem Form.at_end (form : Form l) (plain : ∀ d ∈ l.rest.head?, d.isAlpha = false) :
    Form { l with rest := [] } := by
  cases form with
  | foreign c _ foreign => exact .foreign c [] foreign
  | string cs _ parts => exact .string cs [] parts
  | openString cs _ parts => exact .openString cs [] parts (by simp)
  | number c cs _ digits => exact .number c cs [] digits (by simp)
  | badNumber c d cs tail digits letter =>
    have other := plain d rfl
    rw [letter] at other
    contradiction
  | word c cs _ letter parts => exact .word c cs [] letter parts (by simp)
  | remark cs _ parts => exact .remark cs [] parts (by simp)
  | block cs _ native first => exact .block cs [] native first
  | openBlock cs _ native unclosed => exact .openBlock cs [] native unclosed (by simp)
  | character c _ graphic => exact .character c [] graphic
  | apostrophe => exact .apostrophe [] (by simp)
  | operator _ _ _ listed kept => exact .operator _ _ [] listed kept (by simp)

theorem class_of_isBreak {d : Char} (ends : isBreak d = true) :
    isStringPart d = false ∧ d ≠ '"' ∧ d.isDigit = false ∧ d.isAlpha = false ∧
      isWordPart d = false ∧ isRemark d = false ∧ isGraphic d = false := by
  have either : d = '\n' ∨ d = '\r' := by simpa [isBreak] using ends
  rcases either with rfl | rfl
  · decide
  · decide

theorem operator_inline : ∀ entry ∈ operators, '\n' ∉ entry.1 ∧ '\r' ∉ entry.1 := by
  decide

theorem not_continues_of_isBreak {d : Char} (ends : isBreak d = true) (spelling : List Char) :
    ¬ Continues spelling d := by
  have either : d = '\n' ∨ d = '\r' := by simpa [isBreak] using ends
  intro either
  rcases either with longer | ⟨_, remark⟩
  · obtain ⟨entry, listed, longer⟩ := List.mem_map.1 longer
    have absent := operator_inline entry listed
    rw [longer] at absent
    rcases either with rfl | rfl
    · exact absent.1 (by simp)
    · exact absent.2 (by simp)
  · rcases either with rfl | rfl
    · exact absurd remark (by decide)
    · exact absurd remark (by decide)

/-- At the end of a text a line break may follow any lexeme but an open block comment. -/
theorem Form.before_break (form : Form l) (last : l.rest = []) (closed : l.kind ≠ .invalidComment)
    {d : Char} (ends : isBreak d = true) (more : List Char) :
    Form { l with rest := d :: more } := by
  obtain ⟨part, quote, digit, letter, word, remark, graphic⟩ := class_of_isBreak ends
  cases form with
  | foreign c _ foreign => exact .foreign c _ foreign
  | string cs _ parts => exact .string cs _ parts
  | openString cs _ parts _ => exact .openString cs _ parts (by simp [part, quote])
  | number c cs _ digits _ => exact .number c cs _ digits (by simp [digit, letter])
  | badNumber => simp at last
  | word c cs _ first parts _ => exact .word c cs _ first parts (by simp [word])
  | remark cs _ parts _ => exact .remark cs _ parts (by simp [remark])
  | block cs _ native first => exact .block cs _ native first
  | openBlock => exact absurd rfl closed
  | character c _ shown => exact .character c _ shown
  | apostrophe _ _ => exact .apostrophe _ (by simp [graphic])
  | operator spelling _ _ listed kept _ =>
    exact .operator _ _ _ listed kept (by simpa using not_continues_of_isBreak ends spelling)

/-- An open block comment ends at a foreign character or with the text. -/
theorem Form.stops_of_open (form : Form l) (malformed : l.kind = .invalidComment) :
    ∀ d ∈ l.rest.head?, isForeign d = true := by
  cases form with
  | openBlock cs rest native unclosed stops => exact stops
  | word c cs rest letter parts stops =>
    exact absurd malformed (ofWord_ne (by decide) (by decide) _)
  | operator spelling kind rest listed other stops =>
    have marks : ∀ entry ∈ operators, entry.2 ≠ .invalidComment := by decide
    exact absurd malformed (marks _ listed)
  | _ => simp at malformed

/-- A line break may be added behind a text. -/
theorem Form.append_break (form : Form l) (closed : l.rest = [] → l.kind ≠ .invalidComment)
    {d : Char} (ends : isBreak d = true) (more : List Char) :
    Form { l with rest := l.rest ++ d :: more } := by
  cases behind : l.rest with
  | nil => exact form.before_break behind (closed behind) ends more
  | cons e rest => exact form.exchange (by simp [behind])

end Behind

section Spelling

variable {l : Lexeme}

theorem Form.string_text (form : Form l) (kind : l.kind = .stringLiteral) :
    ∀ c ∈ l.text, isStringPart c = true := by
  cases form with
  | string cs rest parts => simpa [text] using parts
  | word => exact absurd kind (ofWord_ne (by decide) (by decide) _)
  | operator _ _ _ listed => exact absurd kind (operator_ne_string _ listed)
  | _ => simp at kind

theorem Form.symbol_text (form : Form l) (kind : l.kind = .symbol) :
    ∃ c cs, l.text = c :: cs ∧ c.isAlpha = true ∧ (∀ d ∈ cs, isWordPart d = true) ∧
      ofWord (String.ofList (c :: cs)) = .symbol := by
  have marks : ∀ entry ∈ operators, entry.2 ≠ .symbol := by decide
  cases form with
  | word c cs rest letter parts =>
    have plain : ofWord (String.ofList (c :: cs)) ≠ .stringLiteral :=
      ofWord_ne (by decide) (by decide) _
    exact ⟨c, cs, by simp only [text, if_neg plain], letter, parts, kind⟩
  | operator _ _ _ listed => exact absurd kind (marks _ listed)
  | _ => simp at kind

theorem Form.number_text (form : Form l) (kind : l.kind = .numberLiteral) :
    l.text ≠ [] ∧ ∀ d ∈ l.text, d.isDigit = true := by
  have marks : ∀ entry ∈ operators, entry.2 ≠ .numberLiteral := by decide
  cases form with
  | number c cs rest digits => exact ⟨by simp [text], by simpa [text] using digits⟩
  | word => exact absurd kind (ofWord_ne (by decide) (by decide) _)
  | operator _ _ _ listed => exact absurd kind (marks _ listed)
  | _ => simp at kind

theorem Form.mem_operators_of_brace (form : Form l)
    (brace : l.kind = .leftBrace ∨ l.kind = .rightBrace) : (l.raw, l.kind) ∈ operators := by
  cases form with
  | word =>
    rcases brace with kind | kind
    · exact absurd kind (ofWord_ne (by decide) (by decide) _)
    · exact absurd kind (ofWord_ne (by decide) (by decide) _)
  | operator _ _ _ listed => exact listed
  | _ => simp at brace

theorem Form.raw_of_leftBrace (form : Form l) (kind : l.kind = .leftBrace) : l.raw = ['\x7b'] := by
  have only : ∀ entry ∈ operators, entry.2 = .leftBrace → entry.1 = ['\x7b'] := by decide
  exact only _ (form.mem_operators_of_brace (.inl kind)) kind

theorem Form.raw_of_rightBrace (form : Form l) (kind : l.kind = .rightBrace) :
    l.raw = ['\x7d'] := by
  have only : ∀ entry ∈ operators, entry.2 = .rightBrace → entry.1 = ['\x7d'] := by decide
  exact only _ (form.mem_operators_of_brace (.inr kind)) kind

end Spelling

end ShaderDef.Lexeme
