import ShaderDef.Proofs.Lexical.Join
import ShaderDef.Proofs.Lexical.Span

/-! Words. A keyword or a symbol is read as it is whatever follows it, if only no part of a word
does; and a closing brace may be put in front of one, for what stands before a word ends there. -/

namespace ShaderDef

open Text

def Token.Kind.isWord (k : Kind) : Bool :=
  k == .symbol || k.isKeyword

theorem Token.Kind.solid_of_isWord {k : Kind} (worded : k.isWord = true) : k.isComment = false := by
  have each : ∀ k ∈ all, k.isWord = true → k.isComment = false := by decide
  exact each k k.mem_all worded

namespace Lexeme

variable {l : Lexeme}

theorem Form.raw_of_word (form : Form l) (worded : l.kind.isWord = true) :
    ∃ c cs, l.raw = c :: cs ∧ l.text = c :: cs ∧ c.isAlpha = true ∧
      (∀ d ∈ cs, isWordPart d = true) ∧ (∀ d ∈ l.rest.head?, isWordPart d = false) ∧
      l.kind = .ofWord (String.ofList (c :: cs)) := by
  have marks : ∀ entry ∈ Token.Kind.operators, entry.2.isWord = false := by decide
  cases form with
  | word c cs rest letter parts stops =>
    have plain : Token.Kind.ofWord (String.ofList (c :: cs)) ≠ .stringLiteral :=
      ofWord_ne (by decide) (by decide) _
    exact ⟨c, cs, rfl, by simp only [text, if_neg plain], letter, parts, stops, rfl⟩
  | operator _ _ _ listed => simp [marks _ listed] at worded
  | _ => exact absurd worded Bool.false_ne_true

theorem parts_of_isAlpha {c : Char} (letter : c.isAlpha = true) :
    isStringPart c = true ∧ isWordPart c = true ∧ isRemark c = true ∧ isGraphic c = true ∧
      isForeign c = false := by
  have all : ∀ c : Char, c.toNat < 128 → c.isAlpha = true →
      isStringPart c = true ∧ isWordPart c = true ∧ isRemark c = true ∧ isGraphic c = true ∧
        isForeign c = false :=
    of_ascii (by decide)
  exact all c (toNat_lt_of_isAlpha letter) letter

theorem not_continues_rightBrace : ∀ entry ∈ Token.Kind.operators, ¬ Continues entry.1 '\x7d' := by
  have none : ∀ entry ∈ Token.Kind.operators,
      entry.1 ++ ['\x7d'] ∉ Token.Kind.operators.map Prod.fst := by decide
  intro entry listed either
  rcases either with longer | ⟨_, remark⟩
  · exact none entry listed longer
  · exact absurd remark (by decide)

/-- Where a letter ends a lexeme a closing brace ends it too, unless the letter spoils a number. -/
theorem Form.before_brace (form : Form l) {c : Char} (front : c ∈ l.rest.head?)
    (letter : c.isAlpha = true) (whole : l.kind ≠ .invalidNumberLiteral) (other : List Char) :
    Form { l with rest := '\x7d' :: other } := by
  obtain ⟨part, word, remark, graphic, native⟩ := parts_of_isAlpha letter
  cases form with
  | foreign c _ foreign => exact .foreign c _ foreign
  | string cs _ parts => exact .string cs _ parts
  | openString cs _ parts stops =>
    have stop := stops c front
    simp [part] at stop
  | number c cs _ digits stops => exact .number c cs _ digits (by simp)
  | badNumber => exact absurd rfl whole
  | word c cs _ letter parts stops => exact .word c cs _ letter parts (by simp [isWordPart])
  | remark cs _ parts stops =>
    have stop := stops c front
    simp [remark] at stop
  | block cs _ closed first => exact .block cs _ closed first
  | openBlock cs _ closed unclosed stops =>
    have stop := stops c front
    simp [native] at stop
  | character c _ shown => exact .character c _ shown
  | apostrophe _ stops =>
    have stop := stops c front
    simp [graphic] at stop
  | operator _ _ _ listed kept stops =>
    exact .operator _ _ _ listed kept (by simpa using not_continues_rightBrace _ listed)

end Lexeme

namespace Token

/-- A reserved word in front of a space is a token. -/
theorem scan_keyword {word : String} {kind : Kind} (listed : (word, kind) ∈ Kind.keywords)
    (offset : Nat) (rest : List Char) :
    scan offset (word.toList ++ ' ' :: rest) =
      ⟨kind, offset, word⟩ :: scan (offset + size word.toList) (' ' :: rest) := by
  have shapes : ∀ entry ∈ Kind.keywords, Kind.ofWord entry.1 = entry.2 ∧
      entry.1.toList.head?.any Char.isAlpha = true ∧ entry.1.toList.tail.all isWordPart = true := by
    decide
  obtain ⟨known, letter, parts⟩ := shapes _ listed
  simp only at known letter parts
  subst known
  have plain : Kind.ofWord word ≠ .stringLiteral := Lexeme.ofWord_ne (by decide) (by decide) _
  cases spelled : word.toList with
  | nil => simp [spelled] at letter
  | cons c cs =>
    have whole : String.ofList (c :: cs) = word := by rw [← spelled, String.ofList_toList]
    rw [spelled] at letter parts
    have read := scan_form (.word c cs (' ' :: rest) (by simpa using letter)
      (by simpa using parts) (by simp [isWordPart])) offset
    simpa only [Lexeme.text, whole, if_neg plain] using read

/-- Behind a word the text can be exchanged: the tokens up to the word stay. -/
theorem scan_behind_word {offset : Nat} {cs : List Char} {before behind : List Token} {t : Token}
    (split : scan offset cs = before ++ t :: behind) (worded : t.kind.isWord = true) :
    ∃ front rest, cs = front ++ (t.text.toList ++ rest) ∧ t.index = offset + size front ∧
      t.stop = t.index + size t.text.toList ∧
      ∀ other, (∀ d ∈ other.head?, isWordPart d = false) →
        scan offset (front ++ (t.text.toList ++ other)) = before ++ t :: scan t.stop other := by
  obtain ⟨front, l, rfl, form, same, rfl⟩ := exists_lexeme_of_scan split
  have kind : t.kind = l.kind := by rw [same]
  have place : t.index = offset + size front := by rw [same]
  rw [kind] at worded
  obtain ⟨c, cs, raw, spelled, letter, parts, ends, word⟩ := form.raw_of_word worded
  have plain : Kind.ofWord (String.ofList (c :: cs)) ≠ .stringLiteral :=
    Lexeme.ofWord_ne (by decide) (by decide) _
  have text : t.text.toList = c :: cs := by
    rw [same, ← spelled]
    exact String.toList_ofList
  have stop : t.stop = t.index + size t.text.toList := by
    rw [Token.stop, extent, kind, word, if_neg plain, Nat.add_zero]
  have read : ∀ other, (∀ d ∈ other.head?, isWordPart d = false) →
      scan (offset + size front) (c :: (cs ++ other)) = t :: scan t.stop other := by
    intro other stops
    have first := scan_form (.word c cs other letter parts stops) (offset + size front)
    simp only [Lexeme.text, if_neg plain] at first
    rw [List.cons_append] at first
    rw [first, stop, place, text, same, word, spelled]
  rw [raw, List.cons_append] at split
  have member : t ∈ scan offset (front ++ c :: (cs ++ l.rest)) := by simp [split]
  obtain ⟨body, cut⟩ := scan_cut member place
  have ordered := scan_ordered offset (front ++ c :: (cs ++ l.rest))
  have here := cut (c :: (cs ++ l.rest)) (.inl rfl)
  rw [split] at ordered here
  rw [read _ ends] at here
  obtain ⟨rfl, _, _⟩ := front_unique ordered here rfl
  refine ⟨front, l.rest, by rw [text, raw], place, stop, fun other stops => ?_⟩
  rw [text, List.cons_append, cut _ (.inl rfl), read _ stops]

theorem before_eq_nil {offset : Nat} {cs : List Char} {before behind : List Token} {t : Token}
    (split : scan offset cs = before ++ t :: behind) (place : t.index = offset) : before = [] := by
  cases before with
  | nil => rfl
  | cons s before =>
    have ordered := scan_ordered offset cs
    have member : s ∈ scan offset cs := by simp [split]
    have bounds := index_of_mem_scan member
    rw [split, List.cons_append, List.pairwise_cons] at ordered
    have later := ordered.1 t (by simp)
    omega

/-- A closing brace may be put in front of a word: the tokens before the word stay. -/
theorem scan_before_word {offset : Nat} {cs ds : List Char} {c : Char} {before behind : List Token}
    {t : Token} (split : scan offset (cs ++ c :: ds) = before ++ t :: behind)
    (place : t.index = offset + size cs) (letter : c.isAlpha = true)
    (last : ∀ s ∈ before.getLast?, s.kind ≠ .invalidNumberLiteral) (other : List Char) :
    scan offset (cs ++ '\x7d' :: other) =
      before ++ scan (offset + size cs) ('\x7d' :: other) := by
  induction length : cs.length using Nat.strong_induction_on generalizing cs offset before with
  | _ n ih =>
    cases cs with
    | nil =>
      rw [before_eq_nil split place]
      rfl
    | cons b cs =>
      by_cases space : isSpace b = true
      · rw [List.cons_append, scan_space space] at split ⊢
        rw [size_cons, ← Nat.add_assoc] at place ⊢
        exact ih cs.length (by simp [← length]) split place last rfl
      · have solid : isSpace b = false := by simpa using space
        have form := Lexeme.front_form (cs ++ c :: ds) solid
        have divides := Lexeme.front_divides (c := b) (cs ++ c :: ds)
        rw [List.cons_append, scan_front solid] at split
        generalize Lexeme.front b (cs ++ c :: ds) = l at split form divides
        cases before with
        | nil =>
          have positive := size_pos (List.cons_ne_nil b cs)
          obtain ⟨rfl, _⟩ := List.cons.inj split
          simp only at place
          omega
        | cons s before =>
          obtain ⟨rfl, onward⟩ := List.cons.inj split
          change scan _ l.rest = before ++ t :: behind at onward
          have later : t ∈ scan (offset + size l.raw) l.rest := by simp [onward]
          rw [← List.cons_append] at divides
          obtain ⟨left, inside, rest, shorter⟩ := within_of_later divides later place
          have extent : size (b :: cs) = size l.raw + size left := by rw [inside, size_append]
          have exchanged : Lexeme.Form { l with rest := left ++ '\x7d' :: other } := by
            cases left with
            | cons d left => exact form.exchange (by rw [rest]; rfl)
            | nil =>
              have none := before_eq_nil onward (by rw [place, extent]; simp)
              refine form.before_brace (by rw [rest]; rfl) letter ?_ other
              exact last ⟨l.kind, offset, String.ofList l.text⟩ (by simp [none])
          rw [rest] at onward
          have later := ih left.length (length ▸ shorter) onward (by omega)
            (fun s final => last s ?_) rfl
          · have read := scan_form exchanged offset
            simp only at read
            rw [← List.append_assoc, ← inside] at read
            rw [read, later, extent, Nat.add_assoc, List.cons_append]
            rfl
          · rw [List.getLast?_cons, Option.mem_def.1 final]
            rfl

end Token

end ShaderDef
