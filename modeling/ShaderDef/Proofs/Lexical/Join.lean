import ShaderDef.Proofs.Lexical.Scan

/-! Joins and cuts: how the tokens of a text are those of its parts. A line break separates, unless
a block comment is open; and where a token starts, what stands before it has been read without a
look behind that token's first character, and without a look at that one if it is no letter. -/

namespace ShaderDef.Token

open Text

theorem scan_front_append {c : Char} {cs more : List Char} (offset : Nat)
    (form : Lexeme.Form { Lexeme.front c cs with rest := (Lexeme.front c cs).rest ++ more }) :
    scan offset (c :: cs ++ more) =
      ⟨(Lexeme.front c cs).kind, offset, String.ofList (Lexeme.front c cs).text⟩
        :: scan (offset + size (Lexeme.front c cs).raw) ((Lexeme.front c cs).rest ++ more) := by
  have whole := scan_form form offset
  rw [← List.append_assoc, (Lexeme.front_divides cs).split] at whole
  exact whole

/-- A line break separates what stands before it from what stands behind. -/
theorem scan_append_break {offset : Nat} {cs more : List Char} {d : Char}
    (closed : ∀ t ∈ (scan offset cs).getLast?, t.kind ≠ .invalidComment)
    (ends : isBreak d = true) :
    scan offset (cs ++ d :: more) =
      scan offset cs ++ scan (offset + size cs) (d :: more) := by
  fun_induction scan offset cs with
  | case1 => simp
  | case2 offset c cs space ih =>
    rw [List.cons_append, scan_space space, ih closed, size_cons, Nat.add_assoc]
  | case3 offset c cs solid ih =>
    have form := Lexeme.front_form cs (by simpa using solid)
    have whole := congrArg size (Lexeme.front_divides (c := c) cs).split
    rw [size_append] at whole
    have last : (Lexeme.front c cs).rest = [] → (Lexeme.front c cs).kind ≠ .invalidComment := by
      intro none
      exact closed ⟨_, offset, _⟩ (by rw [none, scan_nil]; rfl)
    have extended := form.append_break last ends more
    have later : ∀ t ∈ (scan (offset + size (Lexeme.front c cs).raw)
        (Lexeme.front c cs).rest).getLast?, t.kind ≠ .invalidComment := by
      intro t last
      apply closed t
      rw [List.getLast?_cons, Option.mem_def.1 last]
      rfl
    rw [scan_front_append offset extended, ih later, List.cons_append]
    congr 3
    omega

/-- A token of a text is its first lexeme behind some front, and the tokens behind it are those of
the text behind that lexeme. -/
theorem exists_lexeme_of_scan {offset : Nat} {cs : List Char} {before behind : List Token}
    {t : Token} (split : scan offset cs = before ++ t :: behind) :
    ∃ (front : List Char) (l : Lexeme), cs = front ++ (l.raw ++ l.rest) ∧ Lexeme.Form l ∧
      t = ⟨l.kind, offset + size front, String.ofList l.text⟩ ∧
      behind = scan (offset + size front + size l.raw) l.rest := by
  fun_induction scan offset cs generalizing before with
  | case1 => simp at split
  | case2 offset c cs space ih =>
    obtain ⟨front, l, whole, form, same, rest⟩ := ih split
    refine ⟨c :: front, l, by rw [whole, List.cons_append], form, ?_, ?_⟩
    · rw [same, size_cons, Nat.add_assoc]
    · rw [rest, size_cons, Nat.add_assoc offset]
  | case3 offset c cs solid ih =>
    cases before with
    | nil =>
      obtain ⟨rfl, rfl⟩ := List.cons.inj split
      refine ⟨[], Lexeme.front c cs, ?_, Lexeme.front_form cs (by simpa using solid), rfl, rfl⟩
      exact (Lexeme.front_divides cs).split.symm
    | cons s before =>
      obtain ⟨front, l, whole, form, same, rest⟩ := ih (List.cons.inj split).2
      refine ⟨(Lexeme.front c cs).raw ++ front, l, ?_, form, ?_, ?_⟩
      · rw [List.append_assoc, ← whole, (Lexeme.front_divides cs).split]
      · rw [same, size_append, Nat.add_assoc]
      · rw [rest, size_append, Nat.add_assoc offset]

/-- A token whose kind has one spelling, of one character, stands where that character does. -/
theorem exists_mark_of_scan {offset : Nat} {c : Char} {kind : Kind} {cs : List Char}
    {before behind : List Token} {t : Token}
    (spelled : ∀ l, Lexeme.Form l → l.kind = kind → l.raw = [c])
    (split : scan offset cs = before ++ t :: behind) (same : t.kind = kind) :
    ∃ front rest, cs = front ++ c :: rest ∧ t.index = offset + size front ∧
      behind = scan (t.index + c.utf8Size) rest := by
  obtain ⟨front, l, whole, form, rfl, later⟩ := exists_lexeme_of_scan split
  rw [spelled l form same] at whole later
  exact ⟨front, l.rest, whole, rfl, later⟩

/-- A piece of a text that ends within the front of the text is a piece of the front. -/
theorem within_front {raw rest front behind : List Char} (whole : raw ++ rest = front ++ behind)
    (short : size raw ≤ size front) : ∃ left, front = raw ++ left ∧ rest = left ++ behind := by
  rcases List.append_eq_append_iff.1 whole with ⟨left, inside, same⟩ | ⟨beyond, covers, same⟩
  · exact ⟨left, inside, same⟩
  · have extent := congrArg size covers
    rw [size_append] at extent
    have none : beyond = [] := by
      by_contra some
      have := size_pos some
      omega
    exact ⟨[], by simp [covers, none], by simp [same, none]⟩

/-- A lexeme with a token behind it lies within the text before the token. -/
theorem within_of_later {offset : Nat} {cs ds : List Char} {d : Char} {l : Lexeme} {t : Token}
    (divides : l.Divides (cs ++ d :: ds)) (later : t ∈ scan (offset + size l.raw) l.rest)
    (place : t.index = offset + size cs) :
    ∃ left, cs = l.raw ++ left ∧ l.rest = left ++ d :: ds ∧ left.length < cs.length := by
  have bounds := index_of_mem_scan later
  obtain ⟨left, inside, rest⟩ := within_front divides.split (by omega)
  have counted := congrArg List.length inside
  have covered := List.length_pos_iff.2 divides.nonempty
  rw [List.length_append] at counted
  exact ⟨left, inside, rest, by omega⟩

def Starts (d : Char) (cs : List Char) : Prop :=
  cs.head? = some d ∨ cs = [] ∧ d.isAlpha = false

/-- What stands before a token reads the same whatever starts with the token's first character. -/
theorem scan_cut {offset : Nat} {cs ds : List Char} {d : Char} {t : Token}
    (member : t ∈ scan offset (cs ++ d :: ds)) (place : t.index = offset + size cs) :
    ∃ body, ∀ other, Starts d other →
      scan offset (cs ++ other) = body ++ scan (offset + size cs) other := by
  induction length : cs.length using Nat.strong_induction_on generalizing cs offset with
  | _ n ih =>
    cases cs with
    | nil => exact ⟨[], by simp⟩
    | cons c cs =>
      by_cases space : isSpace c = true
      · rw [List.cons_append, scan_space space] at member
        obtain ⟨body, same⟩ := ih cs.length (by simp [← length]) member
          (by rw [place, size_cons, Nat.add_assoc]) rfl
        refine ⟨body, fun other starts => ?_⟩
        rw [List.cons_append, scan_space space, same other starts, size_cons, Nat.add_assoc]
      · have solid : isSpace c = false := by simpa using space
        rw [List.cons_append, scan_front solid] at member
        have form := Lexeme.front_form (cs ++ d :: ds) solid
        have divides := Lexeme.front_divides (c := c) (cs ++ d :: ds)
        generalize Lexeme.front c (cs ++ d :: ds) = l at member form divides
        rcases List.mem_cons.1 member with rfl | later
        · have positive := size_pos (List.cons_ne_nil c cs)
          simp only at place
          omega
        · rw [← List.cons_append] at divides
          obtain ⟨left, inside, rest, shorter⟩ := within_of_later divides later place
          have extent : size (c :: cs) = size l.raw + size left := by rw [inside, size_append]
          rw [rest] at later
          obtain ⟨body, same⟩ := ih left.length (length ▸ shorter) later (by omega) rfl
          refine ⟨⟨l.kind, offset, String.ofList l.text⟩ :: body, fun other starts => ?_⟩
          have exchanged : Lexeme.Form { l with rest := left ++ other } := by
            cases left with
            | cons e left => exact form.exchange (by rw [rest]; rfl)
            | nil =>
              rcases starts with first | ⟨rfl, plain⟩
              · exact form.exchange (by rw [rest]; exact first)
              · exact form.at_end (by rw [rest]; simpa using plain)
          have read := scan_form exchanged offset
          simp only at read
          rw [← List.append_assoc, ← inside] at read
          rw [read, same other starts, extent, Nat.add_assoc, List.cons_append]
          rfl

/-- Where tokens stand in order, the place of one of them tells what comes before it. -/
theorem front_unique {before before' behind behind' : List Token} {t t' : Token}
    (ordered : (before ++ t :: behind).Pairwise fun s t => s.index < t.index)
    (same : before ++ t :: behind = before' ++ t' :: behind') (place : t.index = t'.index) :
    before = before' ∧ t = t' ∧ behind = behind' := by
  induction before generalizing before' with
  | nil =>
    cases before' with
    | nil => exact ⟨rfl, List.cons.inj same⟩
    | cons s before' =>
      obtain ⟨rfl, rest⟩ := List.cons.inj same
      rw [List.nil_append, rest, List.pairwise_cons] at ordered
      have := ordered.1 t' (by simp)
      omega
  | cons s before ih =>
    rw [List.cons_append, List.pairwise_cons] at ordered
    cases before' with
    | nil =>
      obtain ⟨rfl, rest⟩ := List.cons.inj same
      have := ordered.1 t (by simp)
      omega
    | cons s' before' =>
      obtain ⟨rfl, rest⟩ := List.cons.inj same
      obtain ⟨rfl, others⟩ := ih ordered.2 rest
      exact ⟨rfl, others⟩

section Mark

variable {offset : Nat} {c : Char} {kind : Kind} {cs ds : List Char} {before behind : List Token}
  {t : Token} (alone : Lexeme.Alone c kind)
  (split : scan offset (cs ++ c :: ds) = before ++ t :: behind) (place : t.index = offset + size cs)

include alone split place

/-- The tokens before an operator that stands alone are those before any text that starts with
it. -/
theorem scan_before : t = ⟨kind, offset + size cs, String.ofList [c]⟩ ∧
    ∀ other, Starts c other → scan offset (cs ++ other) =
      before ++ scan (offset + size cs) other := by
  have member : t ∈ scan offset (cs ++ c :: ds) := by simp [split]
  obtain ⟨body, cut⟩ := scan_cut member place
  have ordered := scan_ordered offset (cs ++ c :: ds)
  have here := cut (c :: ds) (.inl rfl)
  rw [split] at ordered here
  rw [scan_mark alone] at here
  obtain ⟨rfl, rfl, _⟩ := front_unique ordered here place
  exact ⟨rfl, cut⟩

/-- Behind an operator that stands alone the text can be exchanged: the tokens up to the operator
stay, and those behind it are the tokens of the other text. -/
theorem scan_exchange : t = ⟨kind, offset + size cs, String.ofList [c]⟩ ∧
    ∀ other, scan offset (cs ++ c :: other) =
      before ++ t :: scan (offset + size cs + c.utf8Size) other := by
  obtain ⟨rfl, cut⟩ := scan_before alone split place
  exact ⟨rfl, fun other => by rw [cut (c :: other) (.inl rfl), scan_mark alone]⟩

/-- The text before an operator that stands alone and is no letter reads the same on its own. -/
theorem scan_alone (plain : c.isAlpha = false) : scan offset cs = before := by
  have cut := (scan_before alone split place).2 [] (.inr ⟨rfl, plain⟩)
  simpa using cut

end Mark

/-- Braces are operators that stand alone. -/
theorem alone_leftBrace : Lexeme.Alone '\x7b' .leftBrace := by
  decide

theorem alone_rightBrace : Lexeme.Alone '\x7d' .rightBrace := by
  decide

end ShaderDef.Token
