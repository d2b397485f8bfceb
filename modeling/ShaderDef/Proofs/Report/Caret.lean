import ShaderDef.Proofs.Anchor
import ShaderDef.Proofs.LineEnds.Invariance
import ShaderDef.Proofs.Outline.Cause

/-! The caret of a report. Main statement: where a source is refused for a visible character, the
caret stands under that very character, however the line is shown. -/

namespace ShaderDef

open Text Outline

namespace Report

/-- Two lines of a report, the lower one with its caret under a character of the upper one. The
upper one shows a number and then, of the line of the character, the character and what stands
around it: all but the blanks at the ends of the line, or less where an ellipsis says so. -/
inductive CaretUnder (number before : List Char) (ch : Char) (after : List Char) :
    List Char → List Char → Prop
  | intro {left seen next right pad note : List Char}
      (leftMark : left = [] ∨ left = ellipsis) (rightMark : right = [] ∨ right = ellipsis)
      (seen_end : seen <:+ expandTabs before) (next_front : next <+: expandTabs after)
      (seen_all : left = [] → seen = trimStart (expandTabs before))
      (next_all : right = [] → next = trimEnd (expandTabs after))
      (column : pad.length = (number ++ [' ', '|', ' '] ++ left ++ seen).length)
      (single : '^' ∉ pad) (only : '^' ∉ note) :
      CaretUnder number before ch after
        (number ++ [' ', '|', ' '] ++ left ++ seen ++ ch :: (next ++ right)) (pad ++ '^' :: note)

variable {r : Report} {before after : List Char} {ch : Char}

theorem leftMark_cases (r : Report) : r.leftMark = [] ∨ r.leftMark = ellipsis := by
  unfold leftMark
  split
  · exact .inr rfl
  · exact .inl rfl

theorem rightMark_cases (r : Report) : r.rightMark = [] ∨ r.rightMark = ellipsis := by
  unfold rightMark
  split
  · exact .inr rfl
  · exact .inl rfl

theorem start_of_unmarked (unmarked : r.leftMark = []) : r.window.start = 0 := by
  by_contra cut
  rw [leftMark, if_pos (Nat.pos_of_ne_zero cut)] at unmarked
  exact absurd unmarked (by decide)

/-- The padding of the caret line is as long as what the source line shows before the character. -/
theorem Sees.caretUnder (sees : r.Sees before ch after)
    (plain : '^' ∉ (r.annotation.getD "").toList) :
    CaretUnder r.number before ch after r.sourceLine r.caretLine := by
  obtain ⟨next, next_front, next_all, shown⟩ := sees.snippet
  have upper : r.sourceLine = r.number ++ [' ', '|', ' '] ++ r.leftMark ++
      (trimStart (expandTabs before)).drop r.window.start ++ ch :: (next ++ r.rightMark) := by
    simp [sourceLine, shownLine, shown]
  rw [upper, r.caretLine_eq]
  refine .intro r.leftMark_cases r.rightMark_cases ?_ (next_front.trans (trimEnd_isPrefix _)) ?_
    next_all ?_ ?_ ?_
  · exact (List.drop_suffix _ _).trans (List.dropWhile_suffix isBlank)
  · intro unmarked
    rw [start_of_unmarked unmarked, List.drop_zero]
  · simp only [List.length_append, margin, spaces, List.length_replicate, sees.caret]
    omega
  · simp [margin, spaces]
  · intro member
    have inside := (trimEnd_isPrefix _).subset member
    exact plain (by simpa using inside)

end Report

theorem Diagnostic.Kind.description_plain (kind : Kind) :
    '^' ∉ kind.description.toList ∧ Inline kind.description.toList := by
  cases kind <;> decide

theorem Diagnostic.Kind.suggestion_inline (kind : Kind) :
    ∀ text ∈ kind.suggestion, Inline text.toList := by
  cases kind <;> decide

variable {source filename : String} {f : Fault} {front rest : List Char} {ch : Char}

/-- Where a source is refused, a character stands that is no white space of the language, and none
before it is foreign; or the source ends there. -/
theorem front_of_error (stopped : compile source = .error f) :
    (∃ front ch rest, source.toList = front ++ ch :: rest ∧ size front = f.index ∧
      isSpace ch = false ∧ ∀ c ∈ front, isForeign c = false) ∨ f.index = size source.toList := by
  rcases blames_of_ofTokens (compile_eq_error.1 stopped) with
    ⟨before, t, behind, split, native, same, _⟩ | ⟨last, _⟩
  · left
    have counts : t ∈ significant (Token.ofSource source) := by simp [split]
    obtain ⟨front, cover, whole, place, form⟩ := Token.cover_of_mem (List.mem_filter.1 counts).1
    obtain ⟨ch, others, starts, solid, _⟩ := form.reads
    obtain ⟨left, right, split, native⟩ := split_of_significant split native
    have chars := Token.native_before split native whole place
    replace starts : t.cover = ch :: others := starts
    rw [starts] at whole
    exact ⟨front, ch, others ++ cover, whole, place.trans same.symm, solid, chars⟩
  · exact .inr last

theorem exists_front_of_error (stopped : compile source = .error f)
    (inside : f.index < size source.toList) :
    ∃ front ch rest, source.toList = front ++ ch :: rest ∧ size front = f.index ∧
      ∀ c ∈ front, isForeign c = false := by
  rcases front_of_error stopped with ⟨front, ch, rest, whole, place, _, native⟩ | last
  · exact ⟨front, ch, rest, whole, place, native⟩
  · exact absurd last (Nat.ne_of_lt inside)

theorem Diagnostic.report_sees {d : Diagnostic} (whole : source.toList = front ++ ch :: rest)
    (place : d.index = size front) (visible : isBlank ch = false)
    (native : ∀ c ∈ front, isForeign c = false) (filename : String) :
    (d.report source filename).Sees (Report.lastLine front) ch
      (rest.takeWhile fun c => !isBreak c) := by
  obtain ⟨left, right, overhang⟩ := report_front whole place filename
  have other : isBreak ch = false := by
    rw [Bool.eq_false_iff]
    intro ends
    rcases Bool.or_eq_true_iff.1 ends with same | same
    all_goals
      rw [beq_iff_eq.1 same] at visible
      exact absurd visible (by decide)
  have narrow : ∀ c ∈ Report.lastLine front, c.utf8Size = 1 := fun c inside =>
    utf8Size_of_native (native c ((Report.lastLine_isSuffix front).subset inside))
  refine ⟨left, ?_, overhang, visible, narrow⟩
  rw [right, List.takeWhile_cons_of_pos (by simp [other])]

/-- Every row but the first one starts behind a byte. -/
theorem Location.row_le (source : String) (offset : Nat) :
    (ofOffset source offset).row ≤ offset + 1 := by
  have steps : ∀ (bs : List UInt8) (l : Location),
      (bs.foldl advance l).row ≤ bs.length + l.row := by
    intro bs
    induction bs with
    | nil => simp
    | cons b bs ih =>
      intro l
      have others := ih (l.advance b)
      have one : (l.advance b).row ≤ l.row + 1 := by
        unfold advance
        split <;> simp
      simp only [List.foldl_cons, List.length_cons]
      omega
  have all := steps ((bytes source.toList).take offset) {}
  have cut := List.length_take_le offset (bytes source.toList)
  exact Nat.le_trans all (Nat.add_le_add_right cut 1)

/-- A report that is about a visible character and made of single lines is rendered line by line. -/
theorem Report.Sees.render {r : Report} {before after : List Char} (sees : r.Sees before ch after)
    (row : r.row ≤ rowLimit) (inline : ∀ l ∈ r.lines, Inline l) :
    ∃ text, r.render = .ok text ∧ text.toList.splitOn '\n' = r.lines ++ [[]] := by
  obtain ⟨text, rendered, lines⟩ := Report.exists_render row sees.caret_le
  exact ⟨text, rendered, lines ▸ splitOn_lines inline⟩

/-- Where a source is refused for a visible character, the report shows that character with the
caret under it. The number of its row is a machine word, so the source has no more bytes than one
counts. -/
theorem compile_caret (stopped : compile source = .error f)
    (inside : f.index < size source.toList) (inline : Inline filename.toList)
    (fits : size source.toList < UInt64.size) :
    ∃ front ch rest, source.toList = front ++ ch :: rest ∧ size front = f.index ∧
      (isBlank ch = false → ∃ text head spot gap upper lower more,
        (Compiler.ofSource source).explain f.diagnostic filename = .ok text ∧
        text.toList.splitOn '\n' = head :: spot :: gap :: upper :: lower :: more ∧
        Report.CaretUnder
          (toString ((Compiler.ofSource source).locate f.index).row).toList
          (Report.lastLine front) ch (rest.takeWhile fun c => !isBreak c) upper lower) := by
  obtain ⟨front, ch, rest, whole, place, native⟩ := exists_front_of_error stopped inside
  refine ⟨front, ch, rest, whole, place, fun visible => ?_⟩
  have sees :=
    Diagnostic.report_sees (d := f.diagnostic) whole place.symm visible native filename
  obtain ⟨plain, description⟩ := f.diagnostic.kind.description_plain
  have message := (compile_explained source f stopped).message_inline
  have row : (f.diagnostic.report source filename).row ≤ Report.rowLimit := by
    have low : (f.diagnostic.report source filename).row ≤ f.index + 1 :=
      Location.row_le source f.index
    simp only [Report.rowLimit]
    omega
  obtain ⟨text, rendered, lines⟩ := sees.render row
    (Report.lines_inline message inline description f.diagnostic.kind.suggestion_inline)
  exact ⟨text, _, _, _, _, _, _, rendered, lines, sees.caretUnder plain⟩

/-- A line with tabs that is cut on both sides, and a wide character that is blamed. -/
theorem compile_caret_window :
    let before := "\tName\t\"a name that is long enough for an ellipsis\"\t"
    let after := " is not a semicolon, and the line goes on: éé"
    let source := "\n" ++ before ++ "é" ++ after
    let f : Fault := ⟨.unexpected .semicolon .invalid, 52⟩
    compile source = .error f ∧ f.index < size source.toList ∧ Inline "a.nsl".toList ∧
      size source.toList < UInt64.size ∧
      ∃ text head spot gap upper lower more,
        (Compiler.ofSource source).explain f.diagnostic "a.nsl" = .ok text ∧
        text.toList.splitOn '\n' = head :: spot :: gap :: upper :: lower :: more ∧
        Report.CaretUnder ['2'] before.toList 'é' after.toList upper lower := by
  intro before after source f
  have stopped : compile source = .error f := by decide +kernel
  have inside : f.index < size source.toList := by decide +kernel
  have inline : Inline "a.nsl".toList := by decide
  have fits : size source.toList < UInt64.size := by decide +kernel
  refine ⟨stopped, inside, inline, fits, ?_⟩
  obtain ⟨front, ch, rest, whole, place, shown⟩ := compile_caret stopped inside inline fits
  have left : front = takeBytes f.index source.toList := by
    rw [← place, whole, takeBytes_size_append]
  have right : ch :: rest = dropBytes f.index source.toList := by
    rw [← place, whole, dropBytes_size_append]
  obtain ⟨rfl, rfl⟩ := List.cons.inj
    (right.trans (by decide +kernel : dropBytes f.index source.toList = 'é' :: after.toList))
  obtain ⟨text, head, spot, gap, upper, lower, more, rendered, lines, under⟩ := shown (by decide)
  refine ⟨text, head, spot, gap, upper, lower, more, rendered, lines, ?_⟩
  have row : (toString ((Compiler.ofSource source).locate f.index).row).toList = ['2'] := by
    decide +kernel
  have line : Report.lastLine (takeBytes f.index source.toList) = before.toList := by
    decide +kernel
  have tail : (after.toList.takeWhile fun c => !isBreak c) = after.toList := by decide +kernel
  rwa [row, left, line, tail] at under

end ShaderDef
