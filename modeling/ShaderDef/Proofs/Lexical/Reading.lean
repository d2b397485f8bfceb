import ShaderDef.Proofs.Lexical.Form

/-! Reading and forms: the first lexeme of a text has a form, and every lexeme of some form is the
first one of the text that it covers together with its rest. -/

namespace ShaderDef.Lexeme

open Text Token.Kind

def front (c : Char) (cs : List Char) : Lexeme :=
  if isForeign c then ⟨.invalid, [c], cs⟩ else read c cs

section Comments

theorem closing_infix_cons {c : Char} {cs : List Char} :
    ['*', '/'] <:+: c :: cs ↔ (c = '*' ∧ cs.head? = some '/') ∨ ['*', '/'] <:+: cs := by
  rw [List.infix_cons_iff]
  apply or_congr_left
  cases cs with
  | nil => simp
  | cons d cs => simp [List.cons_prefix_cons, eq_comm]

theorem blockTail_cons {c : Char} {cs : List Char} (inside : ¬ (c = '*' ∧ cs.head? = some '/')) :
    blockTail (c :: cs) =
      if isForeign c then ⟨.invalidComment, [], c :: cs⟩ else (blockTail cs).cons c := by
  rw [blockTail]
  rintro rest rfl rfl
  exact inside ⟨rfl, rfl⟩

theorem blockTail_form (cs : List Char) :
    (∃ body rest, blockTail cs = ⟨.blockComment, body ++ ['*', '/'], rest⟩ ∧
      (∀ c ∈ body, isForeign c = false) ∧ ¬ ['*', '/'] <:+: body ++ ['*']) ∨
    (∃ body rest, blockTail cs = ⟨.invalidComment, body, rest⟩ ∧
      (∀ c ∈ body, isForeign c = false) ∧ ¬ ['*', '/'] <:+: body ∧
      ∀ d ∈ rest.head?, isForeign d = true) := by
  fun_induction blockTail cs with
  | case1 rest => exact .inl ⟨[], rest, rfl, by simp, by decide⟩
  | case2 c cs _ foreign => exact .inr ⟨[], c :: cs, rfl, by simp, by simp, by simp [foreign]⟩
  | case3 c cs inside native ih =>
    have whole := blockTail_split cs
    rcases ih with ⟨body, rest, tail, natives, first⟩ | ⟨body, rest, tail, natives, open', stops⟩
    · refine .inl ⟨c :: body, rest, by simp [tail, cons], by simp_all, ?_⟩
      rw [List.cons_append, closing_infix_cons]
      intro either
      rcases either with ⟨rfl, next⟩ | within
      · rw [tail] at whole
        cases body with
        | nil => simp at next
        | cons d body =>
          simp only [List.cons_append, List.head?_cons, Option.some.injEq] at next
          exact inside (body ++ ['*', '/'] ++ rest) rfl (by rw [← whole, next]; rfl)
      · exact first within
    · refine .inr ⟨c :: body, rest, by simp [tail, cons], by simp_all, ?_, stops⟩
      rw [closing_infix_cons]
      intro either
      rcases either with ⟨rfl, next⟩ | within
      · rw [tail] at whole
        cases body with
        | nil => simp at next
        | cons d body =>
          simp only [List.head?_cons, Option.some.injEq] at next
          exact inside (body ++ rest) rfl (by rw [← whole, next]; rfl)
      · exact open' within
  | case4 => exact .inr ⟨[], [], rfl, by simp, by simp, by simp⟩

theorem blockTail_block {body : List Char} (rest : List Char)
    (native : ∀ c ∈ body, isForeign c = false) (first : ¬ ['*', '/'] <:+: body ++ ['*']) :
    blockTail (body ++ '*' :: '/' :: rest) = ⟨.blockComment, body ++ ['*', '/'], rest⟩ := by
  induction body with
  | nil => rfl
  | cons c body ih =>
    rw [List.cons_append, closing_infix_cons, not_or] at first
    have inside : ¬ (c = '*' ∧ (body ++ '*' :: '/' :: rest).head? = some '/') := by
      intro both
      obtain ⟨star, next⟩ := both
      exact first.1 ⟨star, by cases body <;> simp_all⟩
    rw [List.cons_append, blockTail_cons inside, native c List.mem_cons_self,
      ih (fun d member => native d (List.mem_cons_of_mem c member)) first.2]
    rfl

theorem blockTail_open {body rest : List Char} (native : ∀ c ∈ body, isForeign c = false)
    (unclosed : ¬ ['*', '/'] <:+: body) (stops : ∀ d ∈ rest.head?, isForeign d = true) :
    blockTail (body ++ rest) = ⟨.invalidComment, body, rest⟩ := by
  induction body with
  | nil =>
    cases rest with
    | nil => rfl
    | cons d rest =>
      have foreign := stops d rfl
      have inside : ¬ (d = '*' ∧ rest.head? = some '/') := by
        intro both
        obtain ⟨rfl, _⟩ := both
        exact absurd foreign (by decide)
      rw [List.nil_append, blockTail_cons inside, if_pos foreign]
  | cons c body ih =>
    rw [closing_infix_cons, not_or] at unclosed
    have inside : ¬ (c = '*' ∧ (body ++ rest).head? = some '/') := by
      intro both
      obtain ⟨star, next⟩ := both
      cases body with
      | nil => exact absurd (stops '/' next) (by decide)
      | cons d body => exact unclosed.1 ⟨star, next⟩
    rw [List.cons_append, blockTail_cons inside, native c List.mem_cons_self,
      ih (fun d member => native d (List.mem_cons_of_mem c member)) unclosed.2]
    rfl

end Comments

section Operators

theorem operators_ordered :
    operators.Pairwise fun earlier later => ¬ earlier.1 <+: later.1 := by
  decide

theorem take_mem_operators : ∀ entry ∈ operators, ∀ n < 3,
    entry.1.take (n + 1) ∈ operators.map Prod.fst := by
  decide

theorem length_le_of_mem_operators : ∀ entry ∈ operators, entry.1.length ≤ 3 := by
  decide

theorem spelling_of_apostrophe : ∀ entry ∈ operators, entry.2 = .apostrophe → entry.1 = ['\''] := by
  decide

theorem first_of_spelling : ∀ entry ∈ operators, let c := entry.1.headD '"'
    isForeign c = false ∧ isSpace c = false ∧ c ≠ '"' ∧ c.isDigit = false ∧ c.isAlpha = false ∧
      (c = '\'' → entry.2 = .apostrophe) ∧ (c = '/' → entry.1 = ['/']) := by
  decide

/-- The front of an operator is an operator. -/
theorem front_mem_operators {spelling more : List Char} {d : Char} {entry : List Char × Token.Kind}
    (listed : entry ∈ operators) (whole : spelling ++ d :: more = entry.1) :
    spelling ++ [d] ∈ operators.map Prod.fst := by
  have bound := length_le_of_mem_operators entry listed
  rw [← whole, List.length_append, List.length_cons] at bound
  have known := take_mem_operators entry listed spelling.length (by omega)
  rwa [← whole, List.take_length_add_append] at known

theorem find_operator {spelling rest : List Char} {kind : Token.Kind}
    (listed : (spelling, kind) ∈ operators) (stops : ∀ d ∈ rest.head?, ¬ Continues spelling d) :
    operators.find? (fun entry => entry.1.isPrefixOf (spelling ++ rest)) =
      some (spelling, kind) := by
  obtain ⟨before, behind, split⟩ := List.append_of_mem listed
  refine List.find?_eq_some_iff_append.2 ⟨by simp, before, behind, split, ?_⟩
  intro entry earlier
  have known : entry ∈ operators := split ▸ List.mem_append_left _ earlier
  have ordered := operators_ordered
  rw [split, List.pairwise_append] at ordered
  have apart : ¬ entry.1 <+: spelling := ordered.2.2 entry earlier _ List.mem_cons_self
  rw [Bool.not_eq_true', Bool.eq_false_iff, ne_eq, List.isPrefixOf_iff_prefix]
  intro fits
  rcases List.prefix_or_prefix_of_prefix fits (List.prefix_append spelling rest) with short | long
  · exact apart short
  · -- The entry goes on behind the spelling, so its next character heads the rest.
    obtain ⟨more, whole⟩ := long
    cases more with
    | nil => exact apart (by simp [← whole])
    | cons d more =>
      rw [← whole, List.prefix_append_right_inj] at fits
      obtain ⟨tail, fits⟩ := fits
      exact stops d (by simp [← fits]) (.inl (front_mem_operators known whole))

/-- The operator found first is the longest that fits. -/
theorem eq_of_found {text : List Char} {found entry : List Char × Token.Kind}
    (first : operators.find? (fun entry => entry.1.isPrefixOf text) = some found)
    (listed : entry ∈ operators) (fits : entry.1 <+: text) (longer : found.1 <+: entry.1) :
    found = entry := by
  obtain ⟨_, before, behind, split, missed⟩ := List.find?_eq_some_iff_append.1 first
  have ordered := operators_ordered
  rw [split, List.pairwise_append, List.pairwise_cons] at ordered
  rw [split, List.mem_append, List.mem_cons] at listed
  rcases listed with earlier | rfl | later
  · have absent := missed entry earlier
    rw [Bool.not_eq_true', Bool.eq_false_iff, ne_eq, List.isPrefixOf_iff_prefix] at absent
    exact absurd fits absent
  · rfl
  · exact absurd longer (ordered.2.1.1 entry later)

theorem operator_form {c : Char} {cs : List Char} (listed : [c] ∈ punctuation.map Prod.fst)
    (mark : c ≠ '\'') (line : ¬ (c = '/' ∧ cs.head? = some '/'))
    (block : ¬ (c = '/' ∧ cs.head? = some '*')) : Form (operator c cs) := by
  unfold operator
  split
  · rename_i spelling kind found
    have known : (spelling, kind) ∈ operators := List.mem_of_find?_eq_some found
    have fits := List.find?_some found
    obtain ⟨rest, whole⟩ := List.isPrefixOf_iff_prefix.1 fits
    simp only at whole
    have left : (c :: cs).drop spelling.length = rest := by simp [← whole]
    rw [left]
    refine .operator spelling kind rest known ?_ ?_
    · intro same
      subst same
      have spelled : spelling = ['\''] := spelling_of_apostrophe _ known rfl
      rw [spelled] at whole
      exact mark (List.cons.inj whole).1.symm
    · intro d head either
      rcases either with longer | ⟨rfl, remark⟩
      · obtain ⟨entry, member, longer⟩ := List.mem_map.1 longer
        have fits : entry.1 <+: c :: cs := by
          cases rest with
          | nil => simp at head
          | cons e rest =>
            obtain rfl : e = d := by simpa using head
            exact ⟨rest, by simp [longer, whole]⟩
        have same := eq_of_found found member fits ⟨[d], longer.symm⟩
        simp [← same] at longer
      · obtain ⟨rfl, rfl⟩ := List.cons.inj whole
        rcases remark with rfl | rfl
        · exact line ⟨rfl, head⟩
        · exact block ⟨rfl, head⟩
  · rename_i none
    obtain ⟨entry, member, spelled⟩ := List.mem_map.1 listed
    have absent := List.find?_eq_none.1 none entry (List.mem_append_right _ member)
    simp [spelled] at absent

end Operators

section Reading

theorem string_form (cs : List Char) : Form (string cs) := by
  have parts : ∀ c ∈ cs.takeWhile isStringPart, isStringPart c = true :=
    fun c member => List.mem_takeWhile_imp member
  unfold string
  split
  · exact .string _ _ parts
  · rename_i closed
    apply Form.openString _ _ parts
    intro d head
    refine ⟨stops_dropWhile cs d head, ?_⟩
    intro same
    subst same
    cases shape : cs.dropWhile isStringPart with
    | nil => simp [shape] at head
    | cons e rest =>
      obtain rfl : e = '"' := by simpa [shape] using head
      exact closed rest shape

theorem number_form {c : Char} (cs : List Char) (digit : c.isDigit = true) :
    Form (number (c :: cs)) := by
  have digits : ∀ d ∈ c :: cs.takeWhile Char.isDigit, d.isDigit = true := by
    simpa [digit] using fun d member => List.mem_takeWhile_imp member
  have stops := stops_dropWhile (p := Char.isDigit) cs
  simp only [number, List.dropWhile_cons_of_pos digit, List.takeWhile_cons_of_pos digit]
  cases shape : cs.dropWhile Char.isDigit with
  | nil => exact .number _ _ _ digits (by simp)
  | cons d rest =>
    rw [shape] at stops
    by_cases letter : d.isAlpha = true
    · simpa [letter] using Form.badNumber c d _ rest digits letter
    · have behind : ∀ e ∈ (d :: rest).head?, e.isDigit = false ∧ e.isAlpha = false := by
        simpa [letter] using stops d rfl
      simpa [letter] using Form.number c _ (d :: rest) digits behind

theorem word_form {c : Char} (cs : List Char) (letter : c.isAlpha = true) :
    Form (word (c :: cs)) := by
  have part : isWordPart c = true := by simp [isWordPart, Char.isAlphanum, letter]
  simp only [word, List.dropWhile_cons_of_pos part, List.takeWhile_cons_of_pos part]
  exact .word c _ _ letter (fun d member => List.mem_takeWhile_imp member) (stops_dropWhile cs)

theorem blockComment_form (cs : List Char) : Form (blockComment cs) := by
  unfold blockComment
  rcases blockTail_form cs with
    ⟨body, rest, tail, native, first⟩ | ⟨body, rest, tail, native, rest'⟩
  · rw [tail]
    exact .block body rest native first
  · rw [tail]
    exact .openBlock body rest native rest'.1 rest'.2

theorem apostrophe_form (cs : List Char) : Form (apostrophe cs) := by
  cases cs with
  | nil => exact .apostrophe [] (by simp)
  | cons c cs =>
    by_cases graphic : isGraphic c = true
    · simpa [apostrophe, graphic] using Form.character c cs graphic
    · simpa [apostrophe, graphic] using Form.apostrophe (c :: cs) (by simpa using graphic)

theorem front_form {c : Char} (cs : List Char) (solid : isSpace c = false) :
    Form (front c cs) := by
  unfold front
  split
  · rename_i foreign
    exact .foreign c cs foreign
  · rename_i native
    rw [Bool.not_eq_true] at native
    unfold read
    split_ifs with quote digit letter line block mark
    · exact string_form cs
    · exact number_form cs digit
    · exact word_form cs letter
    · exact .remark _ _ (fun d member => List.mem_takeWhile_imp member) (stops_dropWhile cs.tail)
    · exact blockComment_form cs.tail
    · exact apostrophe_form cs
    · rw [Bool.not_eq_true] at digit letter
      exact operator_form (mem_punctuation native solid ⟨quote, digit, letter⟩) mark line block

theorem front_quote (cs : List Char) : front '"' cs = string cs := rfl

theorem front_remark (cs : List Char) : front '/' ('/' :: cs) = lineComment cs := rfl

theorem front_block (cs : List Char) : front '/' ('*' :: cs) = blockComment cs := rfl

theorem front_apostrophe (cs : List Char) : front '\'' cs = apostrophe cs := rfl

theorem front_digit {c : Char} (cs : List Char) (digit : c.isDigit = true) :
    front c cs = number (c :: cs) := by
  obtain ⟨native, _, quote⟩ := class_of_isDigit digit
  simp [front, read, native, quote, digit]

theorem front_letter {c : Char} (cs : List Char) (letter : c.isAlpha = true) :
    front c cs = word (c :: cs) := by
  obtain ⟨native, _, quote, digit⟩ := class_of_isAlpha letter
  simp [front, read, native, quote, digit, letter]

theorem number_append {digits rest : List Char} (inside : ∀ d ∈ digits, d.isDigit = true)
    (stops : ∀ d ∈ rest.head?, d.isDigit = false) :
    number (digits ++ rest) =
      ⟨if rest.head?.any Char.isAlpha then .invalidNumberLiteral else .numberLiteral,
        digits, rest⟩ := by
  obtain ⟨run, left⟩ := span_append inside stops
  simp only [number, run, left]

theorem front_operator {spelling rest : List Char} {kind : Token.Kind}
    (listed : (spelling, kind) ∈ operators) (other : kind ≠ .apostrophe)
    (stops : ∀ d ∈ rest.head?, ¬ Continues spelling d) :
    ∃ c w, spelling = c :: w ∧ isSpace c = false ∧
      front c (w ++ rest) = ⟨kind, spelling, rest⟩ := by
  have first := first_of_spelling _ listed
  obtain ⟨c, w, rfl⟩ : ∃ c w, spelling = c :: w := by
    cases spelling with
    | nil => exact absurd rfl first.2.2.1
    | cons c w => exact ⟨c, w, rfl⟩
  obtain ⟨native, solid, quote, digit, letter, mark, slash⟩ := first
  simp only [List.headD_cons] at native solid quote digit letter mark slash
  have apart : c ≠ '\'' := fun same => other (mark same)
  have plain : ∀ d, d = '/' ∨ d = '*' → ¬ (c = '/' ∧ (w ++ rest).head? = some d) := by
    intro d remark both
    obtain ⟨same, next⟩ := both
    obtain rfl : w = [] := (List.cons.inj (slash same)).2
    exact stops d next (.inr ⟨by rw [same], remark⟩)
  have found := find_operator listed stops
  refine ⟨c, w, rfl, solid, ?_⟩
  simp only [front, native, read, quote, digit, letter, plain '/' (.inl rfl), plain '*' (.inr rfl),
    apart, operator]
  rw [List.cons_append] at found
  simp [found]

/-- A lexeme of some form is the first one of the text that it covers with its rest. -/
theorem Form.reads {l : Lexeme} (form : Form l) :
    ∃ c w, l.raw = c :: w ∧ isSpace c = false ∧ Lexeme.front c (w ++ l.rest) = l := by
  cases form with
  | foreign c rest foreign =>
    exact ⟨c, [], rfl, isSpace_eq_false_of_isForeign foreign, by simp [Lexeme.front, foreign]⟩
  | string cs rest parts =>
    have stops : ∀ d ∈ ('"' :: rest).head?, isStringPart d = false := by simp [isStringPart]
    obtain ⟨run, left⟩ := span_append parts stops
    refine ⟨'"', _, rfl, by decide, ?_⟩
    rw [List.append_assoc, front_quote, Lexeme.string]
    simp only [List.singleton_append, run, left]
  | openString cs rest parts stops =>
    obtain ⟨run, left⟩ := span_append parts fun d head => (stops d head).1
    refine ⟨'"', _, rfl, by decide, ?_⟩
    rw [front_quote, Lexeme.string]
    simp only [run, left]
    split
    · exact absurd rfl (stops '"' rfl).2
    · rfl
  | number c cs rest digits stops =>
    have first := digits c List.mem_cons_self
    refine ⟨c, cs, rfl, (class_of_isDigit first).2.1, ?_⟩
    rw [front_digit _ first, ← List.cons_append,
      number_append digits fun d head => (stops d head).1]
    cases rest with
    | nil => rfl
    | cons d rest => simp [(stops d rfl).2]
  | badNumber c d cs rest digits letter =>
    have first := digits c List.mem_cons_self
    have stops : ∀ e ∈ (d :: rest).head?, e.isDigit = false := by
      simpa using (class_of_isAlpha letter).2.2.2
    refine ⟨c, cs, rfl, (class_of_isDigit first).2.1, ?_⟩
    rw [front_digit _ first, ← List.cons_append, number_append digits stops]
    simp [letter]
  | word c cs rest letter parts stops =>
    have all : ∀ d ∈ c :: cs, isWordPart d = true := by
      simpa [isWordPart, Char.isAlphanum, letter] using parts
    obtain ⟨run, left⟩ := span_append all stops
    refine ⟨c, cs, rfl, (class_of_isAlpha letter).2.1, ?_⟩
    rw [front_letter _ letter, ← List.cons_append, Lexeme.word, run, left]
  | remark cs rest parts stops =>
    obtain ⟨run, left⟩ := span_append parts stops
    refine ⟨'/', _, rfl, by decide, ?_⟩
    rw [List.cons_append, front_remark, lineComment, run, left]
  | block cs rest native first =>
    refine ⟨'/', _, rfl, by decide, ?_⟩
    rw [List.cons_append, front_block, blockComment, List.append_assoc]
    simp only [List.cons_append, List.nil_append, blockTail_block rest native first, cons]
  | openBlock cs rest native unclosed stops =>
    refine ⟨'/', _, rfl, by decide, ?_⟩
    rw [List.cons_append, front_block, blockComment, blockTail_open native unclosed stops]
    rfl
  | character c rest graphic =>
    refine ⟨'\'', _, rfl, by decide, ?_⟩
    rw [front_apostrophe]
    simp [Lexeme.apostrophe, graphic]
  | apostrophe rest stops =>
    refine ⟨'\'', _, rfl, by decide, ?_⟩
    rw [front_apostrophe]
    cases rest with
    | nil => rfl
    | cons d rest => simp [Lexeme.apostrophe, stops d rfl]
  | operator spelling kind rest listed other stops => exact front_operator listed other stops

theorem front_divides {c : Char} (cs : List Char) : (front c cs).Divides (c :: cs) := by
  unfold front
  split
  · exact ⟨rfl, by simp⟩
  · exact read_divides c cs

end Reading

end ShaderDef.Lexeme
