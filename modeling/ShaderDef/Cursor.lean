import ShaderDef.Text.Bytes
import ShaderDef.Token
import ShaderDef.Lexeme

/-! Cursors: reading the tokens of a source one after the other. White space between tokens is
skipped, a foreign character is a token of its own wherever it stands, and the end is a token that
comes again and again. `Cursor.tokens` lists what is left before the end. -/

namespace ShaderDef

open Text

/-- What is already known of the place where a cursor stands: nothing, that a foreign character is
next, or that the end has been reached. -/
inductive Cursor.Pending where
  | clear | foreign | ended
deriving DecidableEq, Repr

structure Cursor where
  rest : List Char
  offset : Nat := 0
  pending : Cursor.Pending := .clear
deriving DecidableEq, Repr

namespace Cursor

def start (source : String) : Cursor where
  rest := source.toList

def skipSpaces (c : Cursor) : Cursor :=
  { c with
    rest := c.rest.dropWhile isSpace
    offset := c.offset + size (c.rest.takeWhile isSpace) }

/-- A look behind the lexeme reveals a foreign character only if reading it needed that look. -/
def Pending.after (l : Lexeme) : Pending :=
  if l.kind.looksAhead && l.rest.head?.any isForeign then .foreign else .clear

def finish (c : Cursor) : Token × Cursor :=
  (.finish c.offset, { c with pending := .ended })

def takeForeign (c : Cursor) (ch : Char) (cs : List Char) : Token × Cursor :=
  (⟨.invalid, c.offset, String.ofList [ch]⟩, ⟨cs, c.offset + ch.utf8Size, .clear⟩)

def take (c : Cursor) (l : Lexeme) : Token × Cursor :=
  (⟨l.kind, c.offset, String.ofList l.text⟩, ⟨l.rest, c.offset + size l.raw, Pending.after l⟩)

def read (c : Cursor) : Token × Cursor :=
  match c.rest with
  | [] => c.finish
  | ch :: cs => if isForeign ch then c.takeForeign ch cs else c.take (.read ch cs)

def next (c : Cursor) : Token × Cursor :=
  match c.pending with
  | .ended => c.finish
  | .foreign => c.read
  | .clear => c.skipSpaces.read

theorem length_dropWhile_le (p : Char → Bool) (cs : List Char) :
    (cs.dropWhile p).length ≤ cs.length :=
  (List.dropWhile_suffix p).length_le

theorem read_shorter {c : Cursor} (more : c.read.1.isEnd = false) :
    c.read.2.rest.length < c.rest.length := by
  unfold read at more ⊢
  split at more
  · simp [finish] at more
  · rename_i ch cs front
    rw [front]
    by_cases foreign : isForeign ch = true
    · simp [foreign, takeForeign]
    · simpa [foreign, take] using (Lexeme.read_divides ch cs).length_rest_lt

/-- A token other than the end takes something away. -/
theorem next_shorter {c : Cursor} (more : c.next.1.isEnd = false) :
    c.next.2.rest.length < c.rest.length := by
  unfold next at more ⊢
  cases known : c.pending with
  | ended => simp [known, finish] at more
  | foreign =>
    simp only [known] at more ⊢
    exact read_shorter more
  | clear =>
    simp only [known] at more ⊢
    exact Nat.lt_of_lt_of_le (read_shorter more) (length_dropWhile_le isSpace c.rest)

def tokens (c : Cursor) : List Token :=
  if _ : c.next.1.isEnd = false then c.next.1 :: tokens c.next.2 else []
termination_by c.rest.length
decreasing_by exact next_shorter ‹_›

end Cursor

def Token.ofSource (source : String) : List Token :=
  (Cursor.start source).tokens

end ShaderDef
