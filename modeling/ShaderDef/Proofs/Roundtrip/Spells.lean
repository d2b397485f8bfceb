import ShaderDef.Proofs.Roundtrip.Render
import ShaderDef.Proofs.Roundtrip.WellFormed

/-! Texts that spell out tokens. A piece of a source spells what its tokens derive, wherever the
piece stands. Each token is followed by what cannot continue it, so pieces may be put together. -/

namespace ShaderDef

open Text Grammar Lexeme

/-- Wherever the piece stands in the source, its tokens have the property. -/
def Spells (source : String) (P : List Token → Prop) (piece : String) : Prop :=
  ∀ front behind, source.toList = front ++ (piece.toList ++ behind) →
    ∃ ts, Token.scan (size front) (piece.toList ++ behind) =
      ts ++ Token.scan (size front + size piece.toList) behind ∧ P ts

def Named (kind : Token.Kind) (text : String) (ts : List Token) : Prop :=
  ∃ t, Terminal kind ts t ∧ t.text = text

def Both (P Q : List Token → Prop) (ts : List Token) : Prop :=
  ∃ us vs, ts = us ++ vs ∧ P us ∧ Q vs

section Pieces

variable {source s t : String} {P Q : List Token → Prop}

theorem Spells.imp (spells : Spells source P s) (weaker : ∀ ts, P ts → Q ts) :
    Spells source Q s := by
  intro front behind whole
  obtain ⟨ts, read, holds⟩ := spells front behind whole
  exact ⟨ts, read, weaker ts holds⟩

theorem spells_empty (holds : P []) : Spells source P "" := by
  intro front behind _
  exact ⟨[], by simp, holds⟩

theorem Spells.both (first : Spells source P s) (second : Spells source Q t) :
    Spells source (Both P Q) (s ++ t) := by
  intro front behind whole
  rw [String.toList_append, List.append_assoc] at whole ⊢
  obtain ⟨ts, read, left⟩ := first front (t.toList ++ behind) whole
  obtain ⟨us, rest, right⟩ := second (front ++ s.toList) behind (by rw [whole, List.append_assoc])
  refine ⟨ts ++ us, ?_, ts, us, rfl, left, right⟩
  rw [size_append] at rest
  rw [read, rest, size_append, List.append_assoc, Nat.add_assoc]

theorem spells_space : Spells source (· = []) " " := by
  intro front behind _
  exact ⟨[], Token.scan_space rfl _ _, rfl⟩

theorem Spells.space (spells : Spells source P s) : Spells source P (s ++ " ") := by
  apply (spells.both spells_space).imp
  intro _ spelled
  obtain ⟨ts, _, rfl, holds, rfl⟩ := spelled
  rwa [List.append_nil]

/-- A lexeme spells its token in front of any piece with which it does not run together. -/
theorem spells_lexeme {l : Lexeme} (spelled : s.toList = l.raw)
    (form : ∀ behind, Form { l with rest := t.toList ++ behind }) (tail : Spells source Q t) :
    Spells source (Both (Named l.kind (String.ofList l.text)) Q) (s ++ t) := by
  intro front behind whole
  rw [String.toList_append, List.append_assoc] at whole ⊢
  obtain ⟨us, rest, right⟩ := tail (front ++ s.toList) behind (by rw [whole, List.append_assoc])
  have first := Token.scan_form (form behind) (size front)
  rw [size_append, spelled] at rest
  have single : Named l.kind (String.ofList l.text) [⟨l.kind, size front, String.ofList l.text⟩] :=
    ⟨_, @Terminal.intro _ [] _ (by simp) rfl, rfl⟩
  refine ⟨_ :: us, ?_, [_], us, rfl, single, right⟩
  rw [spelled, size_append, ← Nat.add_assoc]
  exact first.trans (congrArg _ rest)

/-- A lexeme that nothing continues spells its token by itself. -/
theorem spells_alone {l : Lexeme} (spelled : s.toList = l.raw)
    (form : ∀ behind, Form { l with rest := behind }) :
    Spells source (Named l.kind (String.ofList l.text)) s := by
  have both : Spells source (Both _ (· = [])) (s ++ "") :=
    spells_lexeme spelled (fun behind => form _) (spells_empty rfl)
  rw [String.append_empty] at both
  apply both.imp
  intro _ spelled
  obtain ⟨ts, _, rfl, named, rfl⟩ := spelled
  rwa [List.append_nil]

theorem spells_mark {c : Char} {kind : Token.Kind} (alone : Alone c kind) :
    Spells source (Named kind (String.ofList [c])) (String.ofList [c]) := by
  have marks : ∀ entry ∈ Token.Kind.operators, entry.2 ≠ .stringLiteral := by decide
  have spells : Spells source (Named kind (String.ofList _)) (String.ofList [c]) :=
    spells_alone (l := ⟨kind, [c], []⟩) String.toList_ofList alone.form
  simpa only [Lexeme.text, if_neg (marks _ alone.1)] using spells

def WordText (word : String) : Prop :=
  ∃ c cs, word.toList = c :: cs ∧ c.isAlpha = true ∧ ∀ d ∈ cs, isWordPart d = true

theorem spells_word {word : String} (shape : WordText word) {d : Char}
    (stops : isWordPart d = false) {after : List Char} (follows : t.toList = d :: after)
    (tail : Spells source Q t) :
    Spells source (Both (Named (.ofWord word) word) Q) (word ++ t) := by
  obtain ⟨c, cs, spelled, letter, parts⟩ := shape
  have whole : String.ofList (c :: cs) = word := by rw [← spelled, String.ofList_toList]
  have plain : Token.Kind.ofWord word ≠ .stringLiteral := ofWord_ne (by decide) (by decide) _
  have form : ∀ behind, Form ⟨.ofWord word, c :: cs, t.toList ++ behind⟩ := by
    intro behind
    rw [← whole, follows]
    exact .word c cs _ letter parts (by simpa using stops)
  have spells := spells_lexeme (l := ⟨.ofWord word, c :: cs, []⟩) spelled form tail
  simpa only [Lexeme.text, if_neg plain, whole] using spells

theorem spells_spaced {word : String} {kind : Token.Kind} (shape : WordText word)
    (known : Token.Kind.ofWord word = kind) : Spells source (Named kind word) (word ++ " ") := by
  apply (spells_word shape (d := ' ') rfl rfl spells_space).imp
  intro _ spelled
  obtain ⟨ts, _, rfl, named, rfl⟩ := spelled
  rwa [List.append_nil, ← known]

theorem SymbolText.word {word : String} (symbol : SymbolText word) :
    WordText word ∧ Token.Kind.ofWord word = .symbol := by
  obtain ⟨⟨c, cs, spelled, letter, parts⟩, free⟩ := symbol
  exact ⟨⟨c, cs, spelled, letter, fun d member => isWordPart_iff.2 (parts d member)⟩,
    ofWord_eq_symbol_iff.2 free⟩

theorem spells_symbol {word : String} (symbol : SymbolText word) :
    Spells source (Named .symbol word) (word ++ " ") :=
  spells_spaced symbol.word.1 symbol.word.2

theorem spells_keyword {word : String} {kind : Token.Kind}
    (listed : (word, kind) ∈ Token.Kind.keywords) :
    Spells source (Named kind word) (word ++ " ") := by
  have shapes : ∀ entry ∈ Token.Kind.keywords, Token.Kind.ofWord entry.1 = entry.2 ∧
      entry.1.toList.head?.any Char.isAlpha = true ∧ entry.1.toList.tail.all isWordPart = true := by
    decide
  obtain ⟨known, letter, parts⟩ := shapes _ listed
  refine spells_spaced ?_ known
  simp only at letter parts
  cases spelled : word.toList with
  | nil => simp [spelled] at letter
  | cons c cs =>
    rw [spelled] at letter parts
    exact ⟨c, cs, spelled, by simpa using letter, by simpa using parts⟩

theorem spells_string {text : String} (plain : PlainText text) :
    Spells source (Named .stringLiteral text) (Render.quoted text) := by
  have parts : ∀ c ∈ text.toList, isStringPart c = true :=
    fun c member => isStringPart_iff.2 (plain c member)
  have spelled : (Render.quoted text).toList = '"' :: (text.toList ++ ['"']) := by
    rw [Render.quoted, String.toList_append, String.toList_append]
    rfl
  have spells : Spells source _ (Render.quoted text) :=
    spells_alone (l := ⟨.stringLiteral, '"' :: (text.toList ++ ['"']), []⟩) spelled
      fun behind => .string text.toList behind parts
  simpa [Lexeme.text] using spells

theorem spells_semicolon : Spells source (Named .semicolon ";") ";" :=
  spells_mark (c := ';') (by decide)

/-- A space keeps the colon from going on as two. -/
theorem spells_colon : Spells source (Named .colon ":") ": " := by
  have single : ¬ Continues [':'] ' ' := by
    intro either
    rcases either with longer | ⟨slash, _⟩
    · exact absurd longer (by decide)
    · exact absurd slash (by decide)
  have spells : Spells source _ (":" ++ " ") := spells_lexeme (l := ⟨.colon, [':'], []⟩) rfl
    (fun behind => .operator _ _ _ (by decide) (by decide) (by simpa using single)) spells_space
  apply spells.imp
  intro _ spelled
  obtain ⟨ts, _, rfl, named, rfl⟩ := spelled
  rwa [List.append_nil]

theorem spells_slot {slot : String} (shape : SymbolText slot ∨ NumberText slot) :
    Spells source (Both (fun ts => Named .symbol slot ts ∨ Named .numberLiteral slot ts)
      (Named .semicolon ";")) (slot ++ ";") := by
  rcases shape with symbol | ⟨some, digits⟩
  · apply (spells_word symbol.word.1 (d := ';') rfl rfl spells_semicolon).imp
    intro _ spelled
    obtain ⟨ts, us, rfl, named, ended⟩ := spelled
    exact ⟨ts, us, rfl, .inl (symbol.word.2 ▸ named), ended⟩
  · obtain ⟨c, cs, spelled⟩ : ∃ c cs, slot.toList = c :: cs := by
      cases spelled : slot.toList with
      | nil => exact absurd (String.toList_eq_nil_iff.1 spelled) some
      | cons c cs => exact ⟨c, cs, rfl⟩
    rw [spelled] at digits
    have whole : String.ofList (c :: cs) = slot := by rw [← spelled, String.ofList_toList]
    have spells : Spells source _ (slot ++ ";") :=
      spells_lexeme (l := ⟨.numberLiteral, c :: cs, []⟩) spelled
        (fun behind => .number c cs _ digits (by simp)) spells_semicolon
    apply spells.imp
    intro _ spelled
    obtain ⟨ts, us, rfl, named, ended⟩ := spelled
    refine ⟨ts, us, rfl, .inr ?_, ended⟩
    simpa [Lexeme.text, whole] using named

theorem spells_binding {b : Binding} (shape : b.WellFormed) :
    Spells source (fun ts => Bound ts b) (Render.binding b) := by
  obtain ⟨type, name, slot⟩ := b
  refine ((spells_symbol shape.type).both ((spells_symbol shape.name).both
    (spells_colon.both (spells_slot shape.slot)))).imp ?_
  intro _ spelled
  obtain ⟨s₁, _, rfl, ⟨t₁, typed, rfl⟩, s₂, _, rfl, ⟨t₂, named, rfl⟩, s₃, _, rfl, ⟨t₃, divided, _⟩,
    s₄, s₅, rfl, placed, ⟨t₅, ended, _⟩⟩ := spelled
  rcases placed with ⟨t₄, symbol, rfl⟩ | ⟨t₄, number, rfl⟩
  · exact .intro typed named divided (.inl symbol) ended
  · exact .intro typed named divided (.inr number) ended

theorem spells_star {α β : Type} {P : List Token → β → Prop} {value : α → β} {render : α → String}
    {as : List α} (each : ∀ a ∈ as, Spells source (fun ts => P ts (value a)) (render a)) :
    Spells source (fun ts => Star P ts (as.map value)) (.join (as.map render)) := by
  induction as with
  | nil => exact spells_empty .nil
  | cons a as ih =>
    rw [List.map_cons, List.map_cons, String.join_cons]
    refine ((each a List.mem_cons_self).both
      (ih fun b member => each b (List.mem_cons_of_mem a member))).imp ?_
    intro _ spelled
    obtain ⟨ts, us, rfl, head, tail⟩ := spelled
    exact .cons head tail

theorem spells_list {bs : List Binding} (shapes : ∀ b ∈ bs, b.WellFormed) :
    Spells source (fun ts => Star Bound ts bs) (Render.list bs) := by
  have star : Spells source (fun ts => Star Bound ts (bs.map id)) (Render.list bs) :=
    spells_star fun b member => spells_binding (shapes b member)
  rwa [List.map_id] at star

theorem spells_scope {α : Type} {Q : List Token → α → Prop} {head body : String} {a : α}
    (keyword : Spells source P (head ++ " ")) (inside : Spells source (fun ts => Q ts a) body) :
    Spells source (Both P fun ts => Braced Q ts a) (Render.scope head body) := by
  have opened : Spells source (Named .leftBrace "\x7b") "\x7b" :=
    spells_mark (c := '\x7b') (by decide)
  have closed : Spells source (Named .rightBrace "\x7d") "\x7d" :=
    spells_mark (c := '\x7d') (by decide)
  apply (keyword.both (opened.both (inside.both closed))).imp
  intro _ spelled
  obtain ⟨ts, _, rfl, holds, s₁, _, rfl, ⟨_, brace, _⟩, s₂, s₃, rfl, within, ⟨_, close, _⟩⟩ :=
    spelled
  exact ⟨ts, _, rfl, holds, .intro brace within close⟩

end Pieces

end ShaderDef
