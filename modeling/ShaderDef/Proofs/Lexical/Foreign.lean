import ShaderDef.Proofs.Lexical.Byte
import ShaderDef.Proofs.Lexical.Span

/-! Foreign characters. Wherever one stands it is a token of its own, and there are no other tokens
of that kind, so where no token is foreign no character is. -/

namespace ShaderDef

open Text

def Text.foreigners (offset : Nat) : List Char → List (Nat × Char)
  | [] => []
  | c :: cs =>
    if isForeign c then (offset, c) :: foreigners (offset + c.utf8Size) cs
    else foreigners (offset + c.utf8Size) cs

namespace Text

variable {c : Char} {offset : Nat} {cs ds : List Char}

theorem foreigners_append :
    foreigners offset (cs ++ ds) = foreigners offset cs ++ foreigners (offset + size cs) ds := by
  induction cs generalizing offset with
  | nil => rfl
  | cons c cs ih =>
    rw [List.cons_append, foreigners, foreigners, ih, size_cons, Nat.add_assoc]
    split
    · rw [List.cons_append]
    · rfl

theorem foreigners_eq_nil_iff : foreigners offset cs = [] ↔ ∀ c ∈ cs, isForeign c = false := by
  induction cs generalizing offset with
  | nil => simp [foreigners]
  | cons c cs ih =>
    rw [foreigners, List.forall_mem_cons]
    cases foreign : isForeign c with
    | true => simp
    | false => simp [ih]

theorem foreigners_single (foreign : isForeign c = true) :
    foreigners offset [c] = [(offset, c)] := by
  simp [foreigners, foreign]

end Text

namespace Lexeme

theorem native_of_operator : ∀ entry ∈ Token.Kind.operators,
    entry.2 ≠ .invalid ∧ ∀ c ∈ entry.1, isForeign c = false := by
  have checked : ∀ entry ∈ Token.Kind.operators,
      entry.2 ≠ .invalid ∧ (entry.1.all fun c => !isForeign c) = true := by decide
  intro entry listed
  obtain ⟨kind, native⟩ := checked entry listed
  exact ⟨kind, fun c inside => by simpa using List.all_eq_true.1 native c inside⟩

theorem native_of_stringPart {c : Char} (part : isStringPart c = true) : isForeign c = false := by
  simp only [isStringPart, Bool.and_eq_true, Bool.not_eq_true'] at part
  exact part.2

theorem native_of_remark {c : Char} (part : isRemark c = true) : isForeign c = false := by
  simp only [isRemark, Bool.and_eq_true, Bool.not_eq_true'] at part
  exact part.2

theorem native_of_wordPart {c : Char} (part : isWordPart c = true) : isForeign c = false := by
  simp only [isWordPart, Char.isAlphanum, Bool.or_eq_true, beq_iff_eq] at part
  rcases part with (letter | digit) | rfl
  · exact (class_of_isAlpha letter).1
  · exact (class_of_isDigit digit).1
  · decide

theorem native_of_graphic {c : Char} (graphic : isGraphic c = true) : isForeign c = false := by
  simp only [isGraphic, Bool.and_eq_true] at graphic
  exact isForeign_eq_false_of_isPrintable graphic.1

/-- A lexeme is one foreign character or holds none. -/
theorem Form.foreign_or_native {l : Lexeme} (form : Form l) :
    (l.kind = .invalid ∧ ∃ c, l.raw = [c] ∧ isForeign c = true) ∨
      (l.kind ≠ .invalid ∧ ∀ c ∈ l.raw, isForeign c = false) := by
  have quote : isForeign '"' = false := by decide
  have slash : isForeign '/' = false := by decide
  have star : isForeign '*' = false := by decide
  have mark : isForeign '\'' = false := by decide
  cases form with
  | foreign c rest foreign => exact .inl ⟨rfl, c, rfl, foreign⟩
  | string cs rest parts =>
    refine .inr ⟨by simp, ?_⟩
    simpa [quote, or_imp, forall_and] using fun c inside => native_of_stringPart (parts c inside)
  | openString cs rest parts stops =>
    refine .inr ⟨by simp, List.forall_mem_cons.2 ⟨quote, fun c inside => ?_⟩⟩
    exact native_of_stringPart (parts c inside)
  | number c cs rest digits stops =>
    exact .inr ⟨by simp, fun d inside => (class_of_isDigit (digits d inside)).1⟩
  | badNumber c d cs rest digits letter =>
    exact .inr ⟨by simp, fun d inside => (class_of_isDigit (digits d inside)).1⟩
  | word c cs rest letter parts stops =>
    refine .inr ⟨ofWord_ne (by decide) (by decide) _, List.forall_mem_cons.2 ⟨?_, ?_⟩⟩
    · exact (class_of_isAlpha letter).1
    · exact fun d inside => native_of_wordPart (parts d inside)
  | remark cs rest parts stops =>
    refine .inr ⟨by simp, ?_⟩
    simpa [slash] using fun c inside => native_of_remark (parts c inside)
  | block cs rest native first =>
    refine .inr ⟨by simp, ?_⟩
    simpa [slash, star, or_imp, forall_and] using native
  | openBlock cs rest native unclosed stops =>
    refine .inr ⟨by simp, ?_⟩
    simpa [slash, star] using native
  | character c rest graphic =>
    refine .inr ⟨by simp, ?_⟩
    simpa [mark] using native_of_graphic graphic
  | apostrophe rest stops => exact .inr ⟨by simp, by simpa using mark⟩
  | operator spelling kind rest listed other stops => exact .inr (native_of_operator _ listed)

end Lexeme

namespace Token

def Native (ts : List Token) : Prop :=
  ∀ t ∈ ts, t.kind ≠ .invalid

/-- One of these tokens has a property, and no foreign one stands before it. -/
def Exposed (P : Token → Prop) (ts : List Token) : Prop :=
  ∃ before t behind, ts = before ++ t :: behind ∧ Native before ∧ P t

section Lists

variable {P : Token → Prop} {front ts : List Token} {t : Token}

theorem native_append (first : Native front) (second : Native ts) : Native (front ++ ts) :=
  List.forall_mem_append.2 ⟨first, second⟩

theorem exposed_of_mem (native : Native front) (inside : t ∈ front) (holds : P t)
    (ts : List Token) : Exposed P (front ++ ts) := by
  obtain ⟨before, behind, rfl⟩ := List.append_of_mem inside
  refine ⟨before, t, behind ++ ts, by simp, ?_, holds⟩
  exact fun s earlier => native s (List.mem_append_left _ earlier)

theorem exposed_head (holds : P t) (ts : List Token) : Exposed P (t :: ts) :=
  ⟨[], t, ts, rfl, List.forall_mem_nil _, holds⟩

theorem Exposed.prepend (native : Native front) (exposed : Exposed P ts) :
    Exposed P (front ++ ts) := by
  obtain ⟨before, t, behind, rfl, native', holds⟩ := exposed
  exact ⟨front ++ before, t, behind, (List.append_assoc ..).symm, native_append native native',
    holds⟩

theorem Exposed.cons (native : t.kind ≠ .invalid) (exposed : Exposed P ts) :
    Exposed P (t :: ts) := by
  have front : Native [t] := List.forall_mem_singleton.2 native
  exact exposed.prepend front

end Lists

theorem Kind.ne_invalid {kind : Kind} (valid : kind.isInvalid = false) : kind ≠ .invalid := by
  rintro rfl
  exact absurd valid (by decide)

def ofForeign (place : Nat × Char) : Token :=
  ⟨.invalid, place.1, String.ofList [place.2]⟩

theorem scan_foreigners (offset : Nat) (cs : List Char) :
    (scan offset cs).filter (fun t => t.kind = .invalid) =
      (foreigners offset cs).map ofForeign := by
  fun_induction scan offset cs with
  | case1 => rfl
  | case2 offset c cs space ih =>
    rw [ih, foreigners, if_neg (by simp [isForeign_eq_false_of_isSpace space])]
  | case3 offset c cs solid ih =>
    have form := Lexeme.front_form cs (by simpa using solid)
    have divides := Lexeme.front_divides (c := c) cs
    generalize Lexeme.front c cs = l at form divides ih
    rw [← divides.split, foreigners_append, List.map_append, ← ih]
    rcases form.foreign_or_native with ⟨kind, d, raw, foreign⟩ | ⟨kind, native⟩
    · have text : l.text = [d] := by simp [Lexeme.text, kind, raw]
      rw [List.filter_cons_of_pos (by simp [kind]), raw, foreigners_single foreign, text, kind]
      rfl
    · rw [List.filter_cons_of_neg (by simpa using kind), foreigners_eq_nil_iff.2 native]
      rfl

/-- The foreign characters of a source are its foreign tokens, in order. -/
theorem foreigners_ofSource (source : String) :
    (stream source).filter (fun t => t.kind = .invalid) =
      (foreigners 0 source.toList).map ofForeign := by
  rw [stream, ofSource_eq_scan, List.filter_append, scan_foreigners]
  simp

variable {source : String} {c : Char} {front rest : List Char}

theorem mem_of_foreign (whole : source.toList = front ++ c :: rest) (foreign : isForeign c = true) :
    ofForeign (size front, c) ∈ ofSource source := by
  have listed : (size front, c) ∈ foreigners 0 source.toList := by
    rw [whole, foreigners_append, foreigners, if_pos foreign, Nat.zero_add]
    simp
  have member := List.mem_map_of_mem (f := ofForeign) listed
  rw [← scan_foreigners, ← ofSource_eq_scan] at member
  exact (List.mem_filter.1 member).1

theorem native_of_tokens (native : Native (ofSource source)) :
    ∀ c ∈ source.toList, isForeign c = false := by
  intro c inside
  rw [Bool.eq_false_iff]
  intro foreign
  obtain ⟨front, rest, whole⟩ := List.append_of_mem inside
  exact native _ (mem_of_foreign whole foreign) rfl

/-- Where the tokens before one are not foreign, no character before it is. -/
theorem native_before {before behind : List Token} {t : Token}
    (split : ofSource source = before ++ t :: behind) (native : Native before)
    (whole : source.toList = front ++ rest) (place : size front = t.index) :
    ∀ c ∈ front, isForeign c = false := by
  intro c inside
  rw [Bool.eq_false_iff]
  intro foreign
  obtain ⟨a, b, rfl⟩ := List.append_of_mem inside
  rw [List.append_assoc, List.cons_append] at whole
  have member := mem_of_foreign whole foreign
  have ordered := scan_ordered 0 source.toList
  have earlier : size a < t.index := by
    rw [← place, size_append]
    exact Nat.lt_add_of_pos_right (size_pos (List.cons_ne_nil c b))
  rw [← ofSource_eq_scan, split, List.pairwise_append, List.pairwise_cons] at ordered
  rw [split] at member
  rcases List.mem_append.1 member with there | there
  · exact native _ there rfl
  · rcases List.mem_cons.1 there with same | later
    · exact absurd (congrArg Token.index same) earlier.ne
    · exact absurd (ordered.2.1.1 _ later) (Nat.lt_asymm earlier)

end Token

end ShaderDef
