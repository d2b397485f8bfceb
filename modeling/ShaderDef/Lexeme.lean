import ShaderDef.Text.Class
import ShaderDef.Token

/-! Lexemes: the division of a text into its first token and the rest. `Lexeme.read` decides by the
first character; every reader takes a non-empty piece off the front and nothing else. -/

namespace ShaderDef

open Text

structure Lexeme where
  kind : Token.Kind
  raw : List Char
  rest : List Char
deriving DecidableEq, Repr

namespace Lexeme

def cons (c : Char) (l : Lexeme) : Lexeme :=
  { l with raw := c :: l.raw }

def text (l : Lexeme) : List Char :=
  if l.kind = .stringLiteral then l.raw.tail.dropLast else l.raw

def isStringPart (c : Char) : Bool :=
  c != '"' && !isBreak c && !isForeign c

def isRemark (c : Char) : Bool :=
  !isBreak c && !isForeign c

def string (cs : List Char) : Lexeme :=
  match cs.dropWhile isStringPart with
  | '"' :: rest => ⟨.stringLiteral, '"' :: (cs.takeWhile isStringPart ++ ['"']), rest⟩
  | rest => ⟨.invalidStringLiteral, '"' :: cs.takeWhile isStringPart, rest⟩

def number (cs : List Char) : Lexeme :=
  let rest := cs.dropWhile Char.isDigit
  let kind := if rest.head?.any Char.isAlpha then .invalidNumberLiteral else .numberLiteral
  ⟨kind, cs.takeWhile Char.isDigit, rest⟩

def word (cs : List Char) : Lexeme :=
  let run := cs.takeWhile isWordPart
  ⟨.ofWord (String.ofList run), run, cs.dropWhile isWordPart⟩

def lineComment (cs : List Char) : Lexeme :=
  ⟨.comment, '/' :: '/' :: cs.takeWhile isRemark, cs.dropWhile isRemark⟩

/-- Reads up to the end of a block comment. A foreign character or the end of the text before it
makes the comment malformed. -/
def blockTail : List Char → Lexeme
  | '*' :: '/' :: rest => ⟨.blockComment, ['*', '/'], rest⟩
  | c :: cs => if isForeign c then ⟨.invalidComment, [], c :: cs⟩ else (blockTail cs).cons c
  | [] => ⟨.invalidComment, [], []⟩

def blockComment (cs : List Char) : Lexeme :=
  ((blockTail cs).cons '*').cons '/'

/-- Reads what an apostrophe opens: with a graphic character it is a character literal, which has
no closing quote. -/
def apostrophe : List Char → Lexeme
  | c :: cs =>
    if isGraphic c then ⟨.characterLiteral, ['\'', c], cs⟩ else ⟨.apostrophe, ['\''], c :: cs⟩
  | [] => ⟨.apostrophe, ['\''], []⟩

def operator (c : Char) (cs : List Char) : Lexeme :=
  match Token.Kind.operators.find? fun entry => entry.1.isPrefixOf (c :: cs) with
  | some (spelling, kind) => ⟨kind, spelling, (c :: cs).drop spelling.length⟩
  | none => ⟨.invalid, [c], cs⟩

def read (c : Char) (cs : List Char) : Lexeme :=
  if c = '"' then string cs
  else if c.isDigit then number (c :: cs)
  else if c.isAlpha then word (c :: cs)
  else if c = '/' ∧ cs.head? = some '/' then lineComment cs.tail
  else if c = '/' ∧ cs.head? = some '*' then blockComment cs.tail
  else if c = '\'' then apostrophe cs
  else operator c cs

structure Divides (l : Lexeme) (cs : List Char) : Prop where
  split : l.raw ++ l.rest = cs
  nonempty : l.raw ≠ []

theorem string_divides (cs : List Char) : (string cs).Divides ('"' :: cs) := by
  have split := List.takeWhile_append_dropWhile (p := isStringPart) (l := cs)
  unfold string
  split
  · rename_i rest closed
    rw [closed] at split
    exact ⟨by simp [split], by simp⟩
  · exact ⟨by simp [split], by simp⟩

theorem number_divides {c : Char} (cs : List Char) (digit : c.isDigit = true) :
    (number (c :: cs)).Divides (c :: cs) :=
  ⟨List.takeWhile_append_dropWhile, by simp [number, digit]⟩

theorem word_divides {c : Char} (cs : List Char) (letter : c.isAlpha = true) :
    (word (c :: cs)).Divides (c :: cs) :=
  ⟨List.takeWhile_append_dropWhile, by simp [word, isWordPart, Char.isAlphanum, letter]⟩

theorem lineComment_divides (cs : List Char) : (lineComment cs).Divides ('/' :: '/' :: cs) :=
  ⟨by simp [lineComment], by simp [lineComment]⟩

theorem blockTail_split (cs : List Char) : (blockTail cs).raw ++ (blockTail cs).rest = cs := by
  fun_induction blockTail cs with
  | case1 rest => rfl
  | case2 c cs _ foreign => rfl
  | case3 c cs _ native ih => simpa [cons] using ih
  | case4 => rfl

theorem blockComment_divides (cs : List Char) : (blockComment cs).Divides ('/' :: '*' :: cs) :=
  ⟨by simp [blockComment, cons, blockTail_split], by simp [blockComment, cons]⟩

theorem apostrophe_divides (cs : List Char) : (apostrophe cs).Divides ('\'' :: cs) := by
  cases cs with
  | nil => exact ⟨rfl, by simp [apostrophe]⟩
  | cons c cs =>
    simp only [apostrophe]
    split
    · exact ⟨rfl, by simp⟩
    · exact ⟨rfl, by simp⟩

theorem spelling_nonempty {entry : List Char × Token.Kind}
    (listed : entry ∈ Token.Kind.operators) : entry.1 ≠ [] := by
  revert entry
  decide

theorem operator_divides (c : Char) (cs : List Char) : (operator c cs).Divides (c :: cs) := by
  unfold operator
  split
  · rename_i spelling kind found
    have matched := List.find?_some found
    obtain ⟨rest, whole⟩ := List.isPrefixOf_iff_prefix.1 matched
    refine ⟨?_, spelling_nonempty (List.mem_of_find?_eq_some found)⟩
    simp only at whole
    simp [← whole]
  · exact ⟨rfl, by simp⟩

theorem read_divides (c : Char) (cs : List Char) : (read c cs).Divides (c :: cs) := by
  unfold read
  split
  · rename_i quote
    exact quote ▸ string_divides cs
  · split
    · rename_i digit
      exact number_divides cs digit
    · split
      · rename_i letter
        exact word_divides cs letter
      · split
        · rename_i slashes
          obtain ⟨rfl, next⟩ := slashes
          cases cs with
          | nil => simp at next
          | cons d cs =>
            simp only [List.head?_cons, Option.some.injEq] at next
            exact next ▸ lineComment_divides cs
        · split
          · rename_i opening
            obtain ⟨rfl, next⟩ := opening
            cases cs with
            | nil => simp at next
            | cons d cs =>
              simp only [List.head?_cons, Option.some.injEq] at next
              exact next ▸ blockComment_divides cs
          · split
            · rename_i mark
              exact mark ▸ apostrophe_divides cs
            · exact operator_divides c cs

theorem Divides.length_rest_lt {l : Lexeme} {cs : List Char} (h : l.Divides cs) :
    l.rest.length < cs.length := by
  have covered := List.length_pos_iff.2 h.nonempty
  rw [← h.split, List.length_append]
  omega

end Lexeme

end ShaderDef
