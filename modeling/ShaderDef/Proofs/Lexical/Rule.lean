import ShaderDef.Proofs.Lexical.Tiling

/-! The rules of the kinds: what a token of each kind is spelled like, and what may stand behind
it. Words, numbers and operators are as long as they can be, and strings and comments go up to the
first character that ends them. Main statement: every token obeys the rule of its kind, and at its
place no other token would. -/

namespace ShaderDef

open Text

namespace Token.Kind

structure Longest (shape : List Char → Prop) (piece behind : List Char) : Prop where
  fits : shape piece
  most : ∀ other, other <+: piece ++ behind → shape other → other.length ≤ piece.length

def IsWord (text : List Char) : Prop :=
  ∃ c cs, text = c :: cs ∧ c.isAlpha = true ∧ ∀ d ∈ cs, isWordPart d = true

def IsNumber (text : List Char) : Prop :=
  text ≠ [] ∧ ∀ d ∈ text, d.isDigit = true

def IsOperator (text : List Char) : Prop :=
  text ∈ operators.map Prod.fst

def EndsLine (c : Char) : Prop :=
  c = '\n' ∨ c = '\r' ∨ isForeign c = true

structure WordRule (kind : Kind) (text behind : List Char) : Prop where
  longest : Longest IsWord text behind
  reserved : ∀ entry ∈ keywords, entry.2 = kind ↔ entry.1 = String.ofList text

/-- An operator is as long as it can be. A slash opens no comment, and an apostrophe no character
literal. -/
structure OperatorRule (kind : Kind) (text behind : List Char) : Prop where
  longest : Longest IsOperator text behind
  listed : (text, kind) ∈ operators
  slash : kind = .slash → ∀ d ∈ behind.head?, d ≠ '/' ∧ d ≠ '*'
  apostrophe : kind = .apostrophe → ∀ d ∈ behind.head?, isGraphic d = false

/-- The rules of all other kinds. Numbers of another base than ten are not read. -/
def SpecialRule (kind : Kind) (text behind : List Char) : Prop :=
  match kind with
  | .endOfFile => text = [] ∧ behind = []
  | .invalid => ∃ c, text = [c] ∧ isForeign c = true
  | .numberLiteral => Longest IsNumber text behind ∧ ∀ d ∈ behind.head?, d.isAlpha = false
  | .invalidNumberLiteral =>
    Longest IsNumber text behind ∧ ∃ d rest, behind = d :: rest ∧ d.isAlpha = true
  | .stringLiteral => ∀ c ∈ text, c ≠ '"' ∧ ¬ EndsLine c
  | .invalidStringLiteral => ∃ body, text = '"' :: body ∧ (∀ c ∈ body, c ≠ '"' ∧ ¬ EndsLine c) ∧
      ∀ d ∈ behind.head?, EndsLine d
  | .comment => ∃ body, text = '/' :: '/' :: body ∧ (∀ c ∈ body, ¬ EndsLine c) ∧
      ∀ d ∈ behind.head?, EndsLine d
  | .blockComment => ∃ body, text = '/' :: '*' :: (body ++ ['*', '/']) ∧
      (∀ c ∈ body, isForeign c = false) ∧ ¬ ['*', '/'] <:+: body ++ ['*']
  | .invalidComment => ∃ body, text = '/' :: '*' :: body ∧
      (∀ c ∈ body, isForeign c = false) ∧ ¬ ['*', '/'] <:+: body ∧
      ∀ d ∈ behind.head?, isForeign d = true
  | .characterLiteral => ∃ c, text = ['\'', c] ∧ isGraphic c = true
  | _ => False

def Rule (kind : Kind) (text behind : List Char) : Prop :=
  if kind = .symbol ∨ kind.isKeyword = true then WordRule kind text behind
  else if kind ∈ operators.map Prod.snd then OperatorRule kind text behind
  else SpecialRule kind text behind

section Longest

variable {shape : List Char → Prop} {text behind : List Char}

/-- Where a piece can be made longer by one character if it can be made longer at all, the next
character tells whether it is the longest. -/
theorem longest_iff
    (closed : shape text → ∀ d more, shape (text ++ d :: more) → shape (text ++ [d])) :
    Longest shape text behind ↔ shape text ∧ ∀ d ∈ behind.head?, ¬ shape (text ++ [d]) := by
  constructor
  · intro longest
    refine ⟨longest.fits, ?_⟩
    intro d head fits
    cases behind with
    | nil => simp at head
    | cons e rest =>
      obtain rfl : e = d := by simpa using head
      have bound := longest.most _ ⟨rest, by simp⟩ fits
      rw [List.length_append, List.length_singleton] at bound
      omega
  · rintro ⟨fits, stops⟩
    refine ⟨fits, ?_⟩
    intro other front shaped
    by_contra longer
    -- A longer piece goes on behind this one, so its next character heads what is left.
    obtain ⟨more, rfl⟩ := List.prefix_of_prefix_length_le (List.prefix_append text behind) front
      (by omega)
    cases more with
    | nil => simp at longer
    | cons d more =>
      rw [List.prefix_append_right_inj] at front
      obtain ⟨rest, rfl⟩ := front
      exact stops d rfl (closed fits d more shaped)

/-- A run is longest if the next character is none of its kind. -/
theorem longest_run_iff {p : Char → Bool}
    (run : shape text → ∀ more, shape (text ++ more) ↔ ∀ d ∈ more, p d = true) :
    Longest shape text behind ↔ shape text ∧ ∀ d ∈ behind.head?, p d = false := by
  have closed : shape text → ∀ d more, shape (text ++ d :: more) → shape (text ++ [d]) := by
    intro fits d more longer
    have all := (run fits _).1 longer
    exact (run fits [d]).2 (by simp [all d])
  rw [longest_iff closed]
  apply and_congr_right
  intro fits
  simp [run fits]

theorem longest_word_iff : Longest IsWord text behind ↔
    IsWord text ∧ ∀ d ∈ behind.head?, isWordPart d = false := by
  apply longest_run_iff
  rintro ⟨c, cs, rfl, letter, parts⟩ more
  constructor
  · rintro ⟨_, _, same, _, all⟩ d member
    obtain ⟨rfl, rfl⟩ := List.cons.inj same
    exact all d (List.mem_append_right cs member)
  · intro all
    exact ⟨c, cs ++ more, rfl, letter, List.forall_mem_append.2 ⟨parts, all⟩⟩

theorem longest_number_iff : Longest IsNumber text behind ↔
    IsNumber text ∧ ∀ d ∈ behind.head?, d.isDigit = false := by
  apply longest_run_iff
  intro number more
  constructor
  · intro whole d member
    exact whole.2 d (List.mem_append_right text member)
  · intro all
    exact ⟨by simp [number.1], List.forall_mem_append.2 ⟨number.2, all⟩⟩

theorem longest_operator_iff : Longest IsOperator text behind ↔
    IsOperator text ∧ ∀ d ∈ behind.head?, ¬ IsOperator (text ++ [d]) := by
  apply longest_iff
  intro fits d more longer
  obtain ⟨entry, listed, spelled⟩ := List.mem_map.1 longer
  exact Lexeme.front_mem_operators listed spelled.symm

end Longest

section Kinds

variable {kind : Kind} {text behind : List Char}

theorem not_word_of_operator : ∀ entry ∈ operators,
    ¬ (entry.2 = .symbol ∨ entry.2.isKeyword = true) := by
  decide

theorem spelling_iff_slash : ∀ entry ∈ operators, entry.2 = .slash ↔ entry.1 = ['/'] := by
  decide

theorem single_of_apostrophe : ∀ entry ∈ operators, entry.1.head? = some '\'' →
    entry.1 = ['\''] := by
  decide

theorem keywords_injective : ∀ left ∈ keywords, ∀ right ∈ keywords,
    left.2 = right.2 ↔ left.1 = right.1 := by
  decide

/-- A word is of the kind that its own spelling has among the keywords. -/
theorem ofWord_eq_iff {word : String} : ofWord word = kind ↔
    (kind = .symbol ∨ kind.isKeyword = true) ∧
      ∀ entry ∈ keywords, entry.2 = kind ↔ entry.1 = word := by
  have symbols : ∀ entry ∈ keywords, entry.2 ≠ .symbol := by decide
  have reserved : ∀ entry ∈ keywords, ofWord entry.1 = entry.2 := by decide
  constructor
  · rintro rfl
    by_cases plain : ofWord word = .symbol
    · refine ⟨.inl plain, fun entry listed => ?_⟩
      rw [plain]
      refine ⟨fun same => absurd same (symbols entry listed), ?_⟩
      rintro rfl
      exact (reserved entry listed).symm.trans plain
    · have known := Lexeme.mem_keywords plain
      refine ⟨.inr (List.any_eq_true.2 ⟨_, known, by simp⟩), fun entry listed => ?_⟩
      exact keywords_injective entry listed _ known
  · rintro ⟨rfl | keyword, spelled⟩
    · rw [Lexeme.ofWord_eq_symbol_iff, List.mem_map]
      rintro ⟨entry, listed, same⟩
      exact symbols entry listed ((spelled entry listed).2 same)
    · obtain ⟨entry, listed, same⟩ := List.any_eq_true.1 keyword
      obtain rfl : entry.2 = kind := by simpa using same
      rw [← (spelled entry listed).1 rfl]
      exact reserved entry listed

theorem WordRule.form (rule : WordRule kind text behind)
    (word : kind = .symbol ∨ kind.isKeyword = true) : Lexeme.Form ⟨kind, text, behind⟩ := by
  obtain ⟨⟨c, cs, rfl, letter, parts⟩, stops⟩ := longest_word_iff.1 rule.longest
  rw [← ofWord_eq_iff.2 ⟨word, rule.reserved⟩]
  exact .word c cs behind letter parts stops

theorem OperatorRule.form (rule : OperatorRule kind text behind) :
    Lexeme.Form ⟨kind, text, behind⟩ := by
  by_cases mark : kind = .apostrophe
  · obtain rfl : text = ['\''] := Lexeme.spelling_of_apostrophe _ rule.listed mark
    subst mark
    exact .apostrophe behind (rule.apostrophe rfl)
  · refine .operator text kind behind rule.listed mark ?_
    intro d head continues
    rcases continues with longer | ⟨slash, remark⟩
    · exact (longest_operator_iff.1 rule.longest).2 d head longer
    · have kept := rule.slash ((spelling_iff_slash _ rule.listed).2 slash) d head
      exact not_or.2 kept remark

theorem isRemark_iff {c : Char} : Lexeme.isRemark c = true ↔ ¬ EndsLine c := by
  simp [Lexeme.isRemark, isBreak, EndsLine, and_assoc]

theorem isStringPart_iff {c : Char} :
    Lexeme.isStringPart c = true ↔ c ≠ '"' ∧ ¬ EndsLine c := by
  simp [Lexeme.isStringPart, isBreak, EndsLine, and_assoc]

theorem endsLine_iff {d : Char} : EndsLine d ↔ Lexeme.isRemark d = false := by
  rw [Bool.eq_false_iff, ne_eq, isRemark_iff, not_not]

theorem endsLine_iff_of_string {d : Char} :
    EndsLine d ↔ Lexeme.isStringPart d = false ∧ d ≠ '"' := by
  rw [Bool.eq_false_iff, ne_eq, isStringPart_iff]
  constructor
  · intro stop
    refine ⟨fun part => part.2 stop, ?_⟩
    rintro rfl
    exact absurd stop (by simp [EndsLine]; decide)
  · rintro ⟨stop, other⟩
    exact not_not.1 fun goes => stop ⟨other, goes⟩

theorem SpecialRule.form (rule : SpecialRule kind text behind) (more : kind ≠ .endOfFile)
    (plain : kind ≠ .stringLiteral) : Lexeme.Form ⟨kind, text, behind⟩ := by
  cases kind with
  | endOfFile => exact absurd rfl more
  | stringLiteral => exact absurd rfl plain
  | invalid =>
    obtain ⟨c, rfl, foreign⟩ := rule
    exact .foreign c behind foreign
  | numberLiteral =>
    obtain ⟨longest, letter⟩ := rule
    obtain ⟨⟨some, digits⟩, stops⟩ := longest_number_iff.1 longest
    obtain ⟨c, cs, rfl⟩ := List.exists_cons_of_ne_nil some
    exact .number c cs behind digits fun d head => ⟨stops d head, letter d head⟩
  | invalidNumberLiteral =>
    obtain ⟨longest, d, rest, rfl, letter⟩ := rule
    obtain ⟨⟨some, digits⟩, _⟩ := longest_number_iff.1 longest
    obtain ⟨c, cs, rfl⟩ := List.exists_cons_of_ne_nil some
    exact .badNumber c d cs rest digits letter
  | invalidStringLiteral =>
    obtain ⟨body, rfl, parts, stops⟩ := rule
    exact .openString body behind (fun c inside => isStringPart_iff.2 (parts c inside))
      fun d head => endsLine_iff_of_string.1 (stops d head)
  | comment =>
    obtain ⟨body, rfl, parts, stops⟩ := rule
    exact .remark body behind (fun c inside => isRemark_iff.2 (parts c inside))
      fun d head => endsLine_iff.1 (stops d head)
  | blockComment =>
    obtain ⟨body, rfl, native, first⟩ := rule
    exact .block body behind native first
  | invalidComment =>
    obtain ⟨body, rfl, native, unclosed, stops⟩ := rule
    exact .openBlock body behind native unclosed stops
  | characterLiteral =>
    obtain ⟨c, rfl, graphic⟩ := rule
    exact .character c behind graphic
  | _ => exact False.elim rule

theorem rule_word (word : kind = .symbol ∨ kind.isKeyword = true) :
    kind.Rule text behind ↔ WordRule kind text behind := by
  rw [Rule, if_pos word]

theorem rule_operator (listed : (text, kind) ∈ operators) :
    kind.Rule text behind ↔ OperatorRule kind text behind := by
  rw [Rule, if_neg (not_word_of_operator _ listed), if_pos (List.mem_map.2 ⟨_, listed, rfl⟩)]

theorem SpecialRule.rule (rule : SpecialRule kind text behind) : kind.Rule text behind := by
  have special : ¬ (kind = .symbol ∨ kind.isKeyword = true) ∧ kind ∉ operators.map Prod.snd := by
    cases kind <;> first | exact False.elim rule | decide
  rwa [Rule, if_neg special.1, if_neg special.2]

/-- What obeys the rule of its kind is a lexeme of the text that starts there. -/
theorem Rule.form {t : Token} (rule : t.kind.Rule t.text.toList behind)
    (more : t.kind ≠ .endOfFile) : Lexeme.Form ⟨t.kind, t.cover, behind⟩ := by
  unfold cover
  split_ifs with quoted
  · rw [quoted] at rule ⊢
    exact .string _ behind fun c inside => isStringPart_iff.2 (rule c inside)
  · unfold Rule at rule
    split_ifs at rule with word mark
    · exact rule.form word
    · exact rule.form
    · exact rule.form more quoted

end Kinds

end Token.Kind

namespace Lexeme

open Token.Kind

theorem Form.rule {l : Lexeme} (form : Form l) : l.kind.Rule l.text l.rest := by
  cases form with
  | foreign c rest foreign => exact SpecialRule.rule ⟨c, rfl, foreign⟩
  | string cs rest parts =>
    refine SpecialRule.rule fun c inside => isStringPart_iff.1 (parts c ?_)
    simpa [text] using inside
  | openString cs rest parts stops =>
    exact SpecialRule.rule ⟨cs, rfl, fun c inside => isStringPart_iff.1 (parts c inside),
      fun d head => endsLine_iff_of_string.2 (stops d head)⟩
  | number c cs rest digits stops =>
    have longest : Longest IsNumber (c :: cs) rest :=
      longest_number_iff.2 ⟨⟨by simp, digits⟩, fun d head => (stops d head).1⟩
    exact SpecialRule.rule ⟨longest, fun d head => (stops d head).2⟩
  | badNumber c d cs rest digits letter =>
    have stops : ∀ e ∈ (d :: rest).head?, e.isDigit = false := by
      simpa using (class_of_isAlpha letter).2.2.2
    have longest : Longest IsNumber (c :: cs) (d :: rest) :=
      longest_number_iff.2 ⟨⟨by simp, digits⟩, stops⟩
    exact SpecialRule.rule ⟨longest, d, rest, rfl, letter⟩
  | word c cs rest letter parts stops =>
    obtain ⟨word, reserved⟩ := ofWord_eq_iff.1 (rfl : ofWord (String.ofList (c :: cs)) = _)
    have plain : ofWord (String.ofList (c :: cs)) ≠ .stringLiteral :=
      ofWord_ne (by decide) (by decide) _
    rw [rule_word word, text, if_neg plain]
    exact ⟨longest_word_iff.2 ⟨⟨c, cs, rfl, letter, parts⟩, stops⟩, reserved⟩
  | remark cs rest parts stops =>
    exact SpecialRule.rule ⟨cs, rfl, fun c inside => isRemark_iff.1 (parts c inside),
      fun d head => endsLine_iff.2 (stops d head)⟩
  | block cs rest native first => exact SpecialRule.rule ⟨cs, rfl, native, first⟩
  | openBlock cs rest native unclosed stops =>
    exact SpecialRule.rule ⟨cs, rfl, native, unclosed, stops⟩
  | character c rest graphic => exact SpecialRule.rule ⟨c, rfl, graphic⟩
  | apostrophe rest stops =>
    have listed : (['\''], Token.Kind.apostrophe) ∈ operators := by decide
    refine (rule_operator listed).2 ⟨longest_operator_iff.2 ⟨?_, ?_⟩, listed, by simp, ?_⟩
    · exact List.mem_map.2 ⟨_, listed, rfl⟩
    · intro d _ longer
      obtain ⟨entry, known, spelled⟩ := List.mem_map.1 longer
      have single := single_of_apostrophe entry known (by rw [spelled]; rfl)
      simp [spelled] at single
    · exact fun _ => stops
  | operator spelling kind rest listed other stops =>
    simp only [text, if_neg (operator_ne_string _ listed)]
    refine (rule_operator listed).2 ⟨longest_operator_iff.2 ⟨?_, ?_⟩, listed, ?_, ?_⟩
    · exact List.mem_map.2 ⟨_, listed, rfl⟩
    · exact fun d head longer => stops d head (.inl longer)
    · intro slash d head
      have spelled := (spelling_iff_slash _ listed).1 slash
      exact not_or.1 fun remark => stops d head (.inr ⟨spelled, remark⟩)
    · exact fun mark => absurd mark other

/-- What stands at a place has one form only. -/
theorem Form.unique {l m : Lexeme} (left : Form l) (right : Form m)
    (same : l.raw ++ l.rest = m.raw ++ m.rest) : l = m := by
  obtain ⟨c, cs, front, _, reads⟩ := left.reads
  obtain ⟨d, ds, front', _, reads'⟩ := right.reads
  rw [front, front', List.cons_append, List.cons_append] at same
  obtain ⟨rfl, rest⟩ := List.cons.inj same
  rw [← reads, ← reads', rest]

end Lexeme

namespace Token

def Ruled (source : String) (t : Token) : Prop :=
  ∃ before behind, source.toList = before ++ (t.cover ++ behind) ∧ size before = t.index ∧
    t.kind.Rule t.text.toList behind

theorem text_of_cover (t : Token) (behind : List Char) :
    (⟨t.kind, t.cover, behind⟩ : Lexeme).text = t.text.toList := by
  unfold Lexeme.text cover
  split
  · simp
  · rfl

theorem eq_of_kind_of_text {s t : Token} (kind : s.kind = t.kind) (index : s.index = t.index)
    (text : s.text.toList = t.text.toList) : s = t := by
  obtain ⟨_, _, _⟩ := s
  obtain ⟨_, _, _⟩ := t
  obtain rfl := kind
  obtain rfl := index
  obtain rfl := String.toList_inj.1 text
  rfl

/-- Behind the end nothing is left, so only the end obeys a rule there. -/
theorem eq_of_rule_of_end {s t : Token} {behind behind' : List Char}
    (last : s.kind = .endOfFile) (left : s.kind.Rule s.text.toList behind)
    (right : t.kind.Rule t.text.toList behind') (index : s.index = t.index)
    (same : s.cover ++ behind = t.cover ++ behind') : s = t := by
  rw [last] at left
  obtain ⟨blank, rfl⟩ : s.text.toList = [] ∧ behind = [] := left
  have none : s.cover = [] := by rw [cover, if_neg (by simp [last]), blank]
  rw [none] at same
  obtain ⟨none', _⟩ := List.append_eq_nil_iff.1 same.symm
  have last' : t.kind = .endOfFile := by
    by_contra more
    obtain ⟨c, w, front, _⟩ := (right.form more).reads
    exact List.cons_ne_nil c w (front.symm.trans none')
  rw [last'] at right
  obtain ⟨blank', _⟩ : t.text.toList = [] ∧ behind' = [] := right
  exact eq_of_kind_of_text (last.trans last'.symm) index (blank.trans blank'.symm)

theorem eq_of_ruled {source : String} {s t : Token} (left : Ruled source s)
    (right : Ruled source t) (index : s.index = t.index) : s = t := by
  obtain ⟨before, behind, whole, place, rule⟩ := left
  obtain ⟨before', behind', whole', place', rule'⟩ := right
  -- Both tokens start where the same number of bytes has been dropped.
  have same : s.cover ++ behind = t.cover ++ behind' := by
    rw [← dropBytes_size_append before (s.cover ++ behind), ← whole, place, index, ← place', whole',
      dropBytes_size_append]
  by_cases last : s.kind = .endOfFile
  · exact eq_of_rule_of_end last rule rule' index same
  by_cases last' : t.kind = .endOfFile
  · exact (eq_of_rule_of_end last' rule' rule index.symm same.symm).symm
  · have one := (rule.form last).unique (rule'.form last') same
    have text := congrArg Lexeme.text one
    rw [text_of_cover, text_of_cover] at text
    exact eq_of_kind_of_text (congrArg Lexeme.kind one) index text

theorem ruled_of_mem_ofSource {source : String} {t : Token} (member : t ∈ ofSource source) :
    Ruled source t := by
  obtain ⟨before, behind, whole, place, form⟩ := cover_of_mem member
  have rule := form.rule
  rw [text_of_cover] at rule
  exact ⟨before, behind, whole, place, rule⟩

theorem ruled_finish (source : String) : Ruled source (.finish (size source.toList)) :=
  ⟨source.toList, [], by simp [cover, finish], rfl, rfl, rfl⟩

/-- Every token of a source obeys the rule of its kind, and nothing else that starts there obeys
the rule of any. -/
theorem ruled_of_mem_stream {source : String} {t : Token} (member : t ∈ stream source) :
    Ruled source t ∧ ∀ s, Ruled source s → s.index = t.index → s = t := by
  have ruled : Ruled source t := by
    rcases List.mem_append.1 member with inside | last
    · exact ruled_of_mem_ofSource inside
    · rw [List.mem_singleton.1 last]
      exact ruled_finish source
  exact ⟨ruled, fun s other index => eq_of_ruled other ruled index⟩

/-- A foreign character ends an operator, and the slash of its opening does not close a comment. -/
theorem ruled_shift_comment :
    let source := "<<\x01 2/*/"
    let shift : Token := ⟨.lessThanLessThan, 0, "<<"⟩
    let comment : Token := ⟨.invalidComment, 5, "/*/"⟩
    (shift ∈ stream source ∧ comment ∈ stream source) ∧
      (Ruled source shift ∧ ∀ s, Ruled source s → s.index = 0 → s = shift) ∧
      Ruled source comment ∧ ∀ s, Ruled source s → s.index = 5 → s = comment := by
  intro source shift comment
  have first : shift ∈ stream source := by decide +kernel
  have last : comment ∈ stream source := by decide +kernel
  exact ⟨⟨first, last⟩, ruled_of_mem_stream first, ruled_of_mem_stream last⟩

end Token

end ShaderDef
