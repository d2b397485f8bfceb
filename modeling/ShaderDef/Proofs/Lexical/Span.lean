import ShaderDef.Proofs.Lexical.Scan

/-! Spans: what a token covers of its source, and how a cursor moves over it. A cursor that gives a
token stands behind the token's span, and one that gives the end stands behind the whole text. -/

namespace ShaderDef

open Text

namespace Token

/-- The number of bytes from the start of a token to its end. A string literal has its quotes
besides its text. -/
def extent (t : Token) : Nat :=
  size t.text.toList + if t.kind = .stringLiteral then 2 else 0

def stop (t : Token) : Nat :=
  t.index + t.extent

def cover (t : Token) : List Char :=
  if t.kind = .stringLiteral then '"' :: (t.text.toList ++ ['"']) else t.text.toList

theorem size_cover (t : Token) : size t.cover = t.extent := by
  unfold cover extent
  split
  · have width : '"'.utf8Size = 1 := rfl
    simp only [size_cons, size_append, size_nil, width]
    omega
  · rfl

def stream (source : String) : List Token :=
  ofSource source ++ [.finish (size source.toList)]

end Token

/-- A lexeme covers what its token covers. -/
theorem Lexeme.Form.cover_eq {l : Lexeme} (form : Form l) (offset : Nat) :
    (⟨l.kind, offset, String.ofList l.text⟩ : Token).cover = l.raw := by
  unfold Token.cover
  rw [String.toList_ofList]
  cases form with
  | string cs rest parts => simp [text]
  | word c cs rest letter parts stops =>
    have plain : Token.Kind.ofWord (String.ofList (c :: cs)) ≠ .stringLiteral :=
      ofWord_ne (by decide) (by decide) _
    simp only [text, if_neg plain]
  | operator spelling kind rest listed other stops =>
    simp only [text, if_neg (operator_ne_string _ listed)]
  | _ => rfl

namespace Cursor

def ahead : Nat → Cursor → Cursor
  | 0, c => c
  | n + 1, c => ahead n c.next.2

variable {c : Cursor} {t : Token}

/-- Whatever a cursor knows of its place, its next token is read at the first character that is no
white space. -/
theorem next_eq_read (sound : c.Sound) : ∃ d : Cursor, c.next = d.read ∧
    (∀ ch ∈ d.rest.head?, isSpace ch = false) ∧
      d.offset + size d.rest = c.offset + size c.rest := by
  cases known : c.pending with
  | ended =>
    have none := sound.ended known
    refine ⟨c, ?_, by simp [none], rfl⟩
    rw [next, known, read, none]
  | foreign =>
    obtain ⟨ch, cs, front, foreign⟩ := sound.foreign known
    refine ⟨c, by rw [next, known], ?_, rfl⟩
    simpa [front] using isSpace_eq_false_of_isForeign foreign
  | clear =>
    refine ⟨c.skipSpaces, by rw [next, known], stops_dropWhile c.rest, ?_⟩
    have whole := congrArg size (List.takeWhile_append_dropWhile (p := isSpace) (l := c.rest))
    rw [size_append] at whole
    simp only [skipSpaces]
    omega

theorem next_sound (sound : c.Sound) : c.next.2.Sound := by
  obtain ⟨d, reads, _⟩ := next_eq_read sound
  rw [reads]
  exact read_sound d

/-- The end of the text stays where it is. -/
theorem next_reach (sound : c.Sound) :
    c.next.2.offset + size c.next.2.rest = c.offset + size c.rest := by
  obtain ⟨d, reads, _, reach⟩ := next_eq_read sound
  rw [reads, ← reach]
  cases front : d.rest with
  | nil => simp [read, front, finish]
  | cons ch cs =>
    obtain ⟨pending, taken⟩ := read_eq front
    have whole := congrArg size (Lexeme.front_divides (c := ch) cs).split
    rw [size_append] at whole
    rw [taken]
    simp only
    omega

/-- Behind a token a cursor stands where the token stops. -/
theorem next_offset (sound : c.Sound) (more : c.next.1.isEnd = false) :
    c.next.2.offset = c.next.1.stop := by
  obtain ⟨d, reads, solid, _⟩ := next_eq_read sound
  rw [reads] at more ⊢
  cases front : d.rest with
  | nil => simp [read, front, finish] at more
  | cons ch cs =>
    obtain ⟨pending, taken⟩ := read_eq front
    have form := Lexeme.front_form cs (solid ch (by simp [front]))
    rw [taken, Token.stop, ← Token.size_cover, form.cover_eq]

theorem next_eq_finish (sound : c.Sound) (last : c.next.1.isEnd = true) :
    c.next.1 = .finish (c.offset + size c.rest) := by
  obtain ⟨d, reads, solid, reach⟩ := next_eq_read sound
  rw [reads] at last ⊢
  cases front : d.rest with
  | nil => simp [read, front, finish, ← reach]
  | cons ch cs =>
    obtain ⟨pending, taken⟩ := read_eq front
    have form := Lexeme.front_form cs (solid ch (by simp [front]))
    rw [taken, Token.isEnd_iff] at last
    exact absurd last form.kind_ne_end

theorem tokens_eq_cons {ts : List Token} (listed : c.tokens = t :: ts) :
    c.next.1 = t ∧ c.next.1.isEnd = false ∧ c.next.2.tokens = ts := by
  rw [tokens] at listed
  split at listed
  · rename_i more
    obtain ⟨first, rest⟩ := List.cons.inj listed
    exact ⟨first, more, rest⟩
  · simp at listed

theorem isEnd_of_tokens_eq_nil (listed : c.tokens = []) : c.next.1.isEnd = true := by
  rw [tokens] at listed
  split at listed
  · simp at listed
  · rename_i last
    simpa using last

theorem isEnd_of_mem_tokens (sound : c.Sound) (member : t ∈ c.tokens) :
    t.isEnd = false := by
  rw [tokens_eq_scan c sound] at member
  obtain ⟨l, form, kind, _⟩ := Token.exists_form_of_mem_scan member
  simpa [Token.isEnd, kind] using form.kind_ne_end

/-- The tokens that a cursor lists are those that it gives one after the other, each with the
cursor right behind it. -/
theorem ahead_of_getElem? (sound : c.Sound) {i : Nat} (listed : c.tokens[i]? = some t) :
    (c.ahead i).next.1 = t ∧ (c.ahead (i + 1)).offset = t.stop := by
  induction i generalizing c with
  | zero =>
    cases all : c.tokens with
    | nil => simp [all] at listed
    | cons first ts =>
      obtain ⟨given, more, _⟩ := tokens_eq_cons all
      obtain rfl : first = t := by simpa [all] using listed
      exact ⟨given, given ▸ next_offset sound more⟩
  | succ i ih =>
    cases all : c.tokens with
    | nil => simp [all] at listed
    | cons first ts =>
      obtain ⟨_, _, rest⟩ := tokens_eq_cons all
      rw [all, List.getElem?_cons_succ, ← rest] at listed
      exact ih (next_sound sound) listed

/-- Behind them all a cursor gives the end. -/
theorem ahead_end (sound : c.Sound) :
    (c.ahead c.tokens.length).next.1 = .finish (c.offset + size c.rest) := by
  generalize all : c.tokens = ts
  induction ts generalizing c with
  | nil => exact next_eq_finish sound (isEnd_of_tokens_eq_nil all)
  | cons t ts ih =>
    obtain ⟨_, _, rest⟩ := tokens_eq_cons all
    rw [← next_reach sound]
    exact ih (next_sound sound) rest

end Cursor

end ShaderDef
