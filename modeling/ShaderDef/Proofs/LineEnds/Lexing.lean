import ShaderDef.Outline.Scope
import ShaderDef.Proofs.Lexical.Foreign
import ShaderDef.Proofs.Outline.Alike

/-! Line ends. A line feed is a space between tokens, ends every token that is open to its line, and
is any other character in a block comment; so is a carriage return. Main statement: with a carriage
return before each line feed, the tokens that count are the same at moved places. -/

namespace ShaderDef

open List (Forall₂)

namespace Text

def crlf (cs : List Char) : List Char :=
  cs.flatMap fun c => if c = '\n' then ['\r', '\n'] else [c]

section Crlf

variable {c d : Char} {cs ds : List Char} {P : Char → Prop}

@[simp] theorem crlf_nil : crlf [] = [] := rfl

@[simp] theorem crlf_feed (cs : List Char) : crlf ('\n' :: cs) = '\r' :: '\n' :: crlf cs := rfl

theorem crlf_cons (inline : c ≠ '\n') (cs : List Char) : crlf (c :: cs) = c :: crlf cs := by
  simp [crlf, inline]

@[simp] theorem crlf_append (cs ds : List Char) : crlf (cs ++ ds) = crlf cs ++ crlf ds :=
  List.flatMap_append

theorem crlf_eq_self (inline : ∀ c ∈ cs, c ≠ '\n') : crlf cs = cs := by
  induction cs with
  | nil => rfl
  | cons c cs ih =>
    rw [List.forall_mem_cons] at inline
    rw [crlf_cons inline.1, ih inline.2]

theorem forall_mem_crlf (carriage : P '\r') (all : ∀ c ∈ cs, P c) : ∀ c ∈ crlf cs, P c := by
  intro c inside
  obtain ⟨d, there, within⟩ := List.mem_flatMap.1 inside
  have known := all d there
  split at within
  · rename_i feed
    simp only [List.mem_cons, List.not_mem_nil, or_false] at within
    rcases within with rfl | rfl
    · exact carriage
    · exact feed ▸ known
  · rw [List.mem_singleton.1 within]
    exact known

theorem head?_crlf (head : d ∈ (crlf cs).head?) :
    d ∈ cs.head? ∨ d = '\r' ∧ '\n' ∈ cs.head? := by
  cases cs with
  | nil => exact .inl head
  | cons c cs =>
    by_cases feed : c = '\n'
    · subst feed
      exact .inr ⟨by simpa [eq_comm] using head, rfl⟩
    · rw [crlf_cons feed] at head
      exact .inl head

theorem forall_head?_crlf (carriage : P '\r') (stops : ∀ d ∈ cs.head?, P d) :
    ∀ d ∈ (crlf cs).head?, P d := by
  intro d head
  rcases head?_crlf head with same | ⟨rfl, _⟩
  · exact stops d same
  · exact carriage

theorem closing_infix_crlf : ['*', '/'] <:+: crlf cs ↔ ['*', '/'] <:+: cs := by
  induction cs with
  | nil => rfl
  | cons c cs ih =>
    by_cases feed : c = '\n'
    · subst feed
      rw [crlf_feed]
      simp only [Lexeme.closing_infix_cons, ih]
      simp
    · rw [crlf_cons feed, Lexeme.closing_infix_cons, Lexeme.closing_infix_cons, ih]
      have next : (crlf cs).head? = some '/' ↔ cs.head? = some '/' := by
        constructor
        · intro head
          rcases head?_crlf head with same | ⟨other, _⟩
          · exact same
          · exact absurd other (by decide)
        · intro head
          obtain ⟨ds, rfl⟩ := List.head?_eq_some_iff.1 head
          rw [crlf_cons (by decide)]
          rfl
      rw [next]

end Crlf

end Text

namespace Lexeme

open Text

variable {l : Lexeme}

theorem inline_of {p : Char → Bool} {cs : List Char} (feed : p '\n' = false)
    (all : ∀ c ∈ cs, p c = true) : ∀ c ∈ cs, c ≠ '\n' := by
  intro c inside same
  have known := all c inside
  rw [same, feed] at known
  exact absurd known (by decide)

/-- Only comments of the block form go over the end of a line. -/
theorem Form.inline (form : Form l) (other : l.kind ≠ .blockComment ∧ l.kind ≠ .invalidComment) :
    ∀ c ∈ l.raw, c ≠ '\n' := by
  cases form with
  | foreign c rest foreign =>
    exact inline_of (p := isForeign) rfl (by simpa using foreign)
  | string cs rest parts =>
    have body := inline_of rfl parts
    simpa [or_imp, forall_and] using body
  | openString cs rest parts stops =>
    have body := inline_of rfl parts
    simpa [or_imp, forall_and] using body
  | number c cs rest digits stops => exact inline_of rfl digits
  | badNumber c d cs rest digits letter => exact inline_of rfl digits
  | word c cs rest letter parts stops =>
    exact List.forall_mem_cons.2 ⟨fun same => by simp [same] at letter, inline_of rfl parts⟩
  | remark cs rest parts stops =>
    have body := inline_of rfl parts
    simpa [or_imp, forall_and] using body
  | block => exact absurd rfl other.1
  | openBlock => exact absurd rfl other.2
  | character c rest graphic =>
    have body := inline_of (p := isGraphic) rfl (List.forall_mem_singleton.2 graphic)
    simpa [or_imp, forall_and] using body
  | apostrophe rest stops => simp
  | operator spelling kind rest listed other stops =>
    intro c inside same
    exact (operator_inline _ listed).1 (same ▸ inside)

theorem Form.crlf_raw (form : Form l) (valid : l.kind.isInvalid = false)
    (solid : l.kind.isComment = false) : crlf l.raw = l.raw := by
  apply crlf_eq_self
  apply form.inline
  constructor
  · intro same
    rw [same] at solid
    exact absurd solid (by decide)
  · intro same
    rw [same] at valid
    exact absurd valid (by decide)

theorem operator_not_long : ∀ entry ∈ Token.Kind.operators,
    entry.2 ≠ .blockComment ∧ entry.2 ≠ .invalidComment := by
  decide

/-- With other line ends a lexeme keeps its kind: whatever a line feed stops a carriage return stops
as well. -/
theorem Form.crlf (form : Form l) : Form ⟨l.kind, Text.crlf l.raw, Text.crlf l.rest⟩ := by
  obtain ⟨part, quote, digit, alpha, word, remark, graphic⟩ := class_of_isBreak (d := '\r') rfl
  have kept := fun other => crlf_eq_self (form.inline other)
  cases form with
  | foreign c _ foreign =>
    rw [kept (by simp)]
    exact .foreign c _ foreign
  | string cs _ parts =>
    rw [kept (by simp)]
    exact .string cs _ parts
  | openString cs _ parts stops =>
    rw [kept (by simp)]
    exact .openString cs _ parts (forall_head?_crlf ⟨part, quote⟩ stops)
  | number c cs _ digits stops =>
    rw [kept (by simp)]
    exact .number c cs _ digits (forall_head?_crlf ⟨digit, alpha⟩ stops)
  | badNumber c d cs rest digits letter =>
    have other : d ≠ '\n' := fun same => by simp [same] at letter
    rw [kept (by simp), crlf_cons other]
    exact .badNumber c d cs _ digits letter
  | word c cs _ letter parts stops =>
    rw [kept ⟨ofWord_ne (by decide) (by decide) _, ofWord_ne (by decide) (by decide) _⟩]
    exact .word c cs _ letter parts (forall_head?_crlf word stops)
  | remark cs _ parts stops =>
    rw [kept (by simp)]
    exact .remark cs _ parts (forall_head?_crlf remark stops)
  | block cs rest native first =>
    have inside : Text.crlf ('/' :: '*' :: (cs ++ ['*', '/'])) =
        '/' :: '*' :: (Text.crlf cs ++ ['*', '/']) := by simp [crlf_cons]
    have closing : Text.crlf cs ++ ['*'] = Text.crlf (cs ++ ['*']) := by simp [crlf_cons]
    simp only [inside]
    apply Form.block
    · exact forall_mem_crlf rfl native
    · rwa [closing, closing_infix_crlf]
  | openBlock cs rest native unclosed stops =>
    have inside : Text.crlf ('/' :: '*' :: cs) = '/' :: '*' :: Text.crlf cs := by simp [crlf_cons]
    simp only [inside]
    apply Form.openBlock
    · exact forall_mem_crlf rfl native
    · rwa [closing_infix_crlf]
    · -- The comment ends at a foreign character, and a line feed is none.
      intro d head
      rcases head?_crlf head with same | ⟨_, feed⟩
      · exact stops d same
      · exact absurd (stops _ feed) (by decide)
  | character c _ shown =>
    rw [kept (by simp)]
    exact .character c _ shown
  | apostrophe _ stops =>
    rw [kept (by simp)]
    exact .apostrophe _ (forall_head?_crlf graphic stops)
  | operator spelling kind _ listed other stops =>
    rw [kept (operator_not_long _ listed)]
    exact .operator _ _ _ listed other
      (forall_head?_crlf (not_continues_of_isBreak rfl spelling) stops)

end Lexeme

/-- Places with the same text before them but for line ends, where a token starts or the text
ends. -/
def Text.Facing (cs : List Char) (i j : Nat) : Prop :=
  ∃ before rest, cs = before ++ rest ∧ size before = i ∧ size (crlf before) = j ∧
    ∀ d ∈ rest.head?, isSpace d = false

namespace Token

open Text Outline

theorem facing_end (cs : List Char) : Facing cs (size cs) (size (crlf cs)) :=
  ⟨cs, [], by simp, rfl, rfl, by simp⟩

theorem scan_crlf_space {c : Char} (space : isSpace c = true) (offset : Nat) (cs : List Char) :
    scan offset (crlf (c :: cs)) = scan (offset + size (crlf [c])) (crlf cs) := by
  by_cases feed : c = '\n'
  · subst feed
    rw [crlf_feed, scan_space rfl, scan_space rfl]
    rfl
  · rw [crlf_cons feed, crlf_cons feed, scan_space space]
    rfl

/-- The tokens behind `before`, and those behind it with other line ends. -/
theorem scan_crlf_alike (before cs : List Char) :
    Forall₂ (Token.Alike (Facing (before ++ cs))) (significant (scan (size before) cs))
      (significant (scan (size (crlf before)) (crlf cs))) := by
  generalize start : size before = offset
  fun_induction scan offset cs generalizing before with
  | case1 => simp [significant]
  | case2 offset c cs space ih =>
    have behind := ih (before ++ [c]) (by simp [start])
    rw [scan_crlf_space space, ← size_append, ← crlf_append]
    simpa using behind
  | case3 offset c cs solid ih =>
    have solid : isSpace c = false := by simpa using solid
    have form := Lexeme.front_form cs solid
    have divides := Lexeme.front_divides (c := c) cs
    generalize Lexeme.front c cs = l at form divides ih
    have behind := ih (before ++ l.raw) (by simp [start])
    have read := scan_form form.crlf (size (crlf before))
    simp only at read
    rw [← crlf_append, divides.split] at read
    rw [List.append_assoc, divides.split, crlf_append, size_append] at behind
    rw [read]
    -- Only a comment, which does not count, and a malformed token may differ in their texts.
    cases comment : l.kind.isComment with
    | true => simpa [significant, comment] using behind
    | false =>
      simp only [significant, List.filter_cons, comment, Bool.not_false, if_true]
      refine .cons ⟨rfl, fun valid => ?_, ?_⟩ behind
      · simp only [Lexeme.text, form.crlf_raw valid comment]
      · exact ⟨before, c :: cs, rfl, start, rfl, by simpa using solid⟩

end Token

end ShaderDef
