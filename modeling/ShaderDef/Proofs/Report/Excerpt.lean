import ShaderDef.Proofs.Report.Line

/-! What a report looks like. Main statement: a report within its limits is made of five lines, or
six with a help; the bars of the last three of the five stand in one column; and between them an
excerpt of the line of the position is shown, with an ellipsis where something is left out. -/

namespace ShaderDef

open Text

namespace Report

variable {r : Report}

/-- What may be shown of a line: all of it if it is short, else a piece of it, with an ellipsis on
each side on which something is left out. -/
inductive Excerpt (line : List Char) : List Char → Prop
  | whole (short : size line ≤ 80) : Excerpt line line
  | piece {before piece after : List Char} (long : 80 < size line)
      (divided : line = before ++ (piece ++ after)) (few : piece.length ≤ 60) :
      Excerpt line
        ((if before = [] then [] else ellipsis) ++ piece ++ (if after = [] then [] else ellipsis))

theorem leftMark_eq (r : Report) :
    r.leftMark = if r.trimmedLine.take r.window.start = [] then [] else ellipsis := by
  by_cases start : r.window.start = 0
  · simp [leftMark, start]
  · -- A window that starts behind the front has characters before it.
    have inside : r.window.start ≤ r.trimmedLine.length := r.window_within.1.trans r.window_within.2
    have some : r.trimmedLine.take r.window.start ≠ [] := by
      intro none
      have count := congrArg List.length none
      rw [List.length_take, List.length_nil] at count
      omega
    rw [leftMark, if_pos (Nat.pos_of_ne_zero start), if_neg some]

theorem rightMark_eq (r : Report) :
    r.rightMark = if r.trimmedLine.drop r.window.stop = [] then [] else ellipsis := by
  simp only [rightMark, List.drop_eq_nil_iff, ← Nat.not_lt, ite_not]

theorem divided_snippet (r : Report) : r.trimmedLine =
    r.trimmedLine.take r.window.start ++ (r.snippet ++ r.trimmedLine.drop r.window.stop) := by
  have order := r.window_within.1
  have behind : (r.trimmedLine.drop r.window.start).drop (r.window.stop - r.window.start) =
      r.trimmedLine.drop r.window.stop := by
    rw [List.drop_drop, Nat.add_sub_cancel' order]
  rw [snippet, ← behind, List.take_append_drop, List.take_append_drop]

theorem length_snippet (long : fullLimit < size r.trimmedLine) : r.snippet.length ≤ 60 := by
  have count : r.snippet.length ≤ r.window.stop - r.window.start := List.length_take_le _ _
  simp only [window_of_long long, context] at count
  omega

theorem excerpt_shownLine (r : Report) : Excerpt r.trimmedLine r.shownLine := by
  rcases Nat.lt_or_ge fullLimit (size r.trimmedLine) with long | short
  · rw [shownLine, leftMark_eq, rightMark_eq]
    exact .piece long r.divided_snippet (length_snippet long)
  · have shown : r.shownLine = r.trimmedLine := by
      simp [shownLine, leftMark, rightMark, snippet, window_of_short short]
    rw [shown]
    exact .whole short

theorem idxOf?_append_cons {before : List Char} {c : Char} (first : c ∉ before)
    (rest : List Char) : (before ++ c :: rest).idxOf? c = some before.length := by
  induction before with
  | nil => simp [List.idxOf?_cons]
  | cons d before ih =>
    obtain ⟨other, behind⟩ := List.ne_and_not_mem_of_not_mem_cons first
    simp [List.idxOf?_cons, Ne.symm other, ih behind]

/-- The first bar of a line stands behind the column of the numbers. -/
theorem idxOf?_bar {field : List Char} (single : '|' ∉ field) (rest : List Char) :
    (field ++ ' ' :: '|' :: rest).idxOf? '|' = some (field.length + 1) := by
  have first : '|' ∉ field ++ [' '] := by simp [single]
  have found := idxOf?_append_cons first rest
  rwa [List.append_assoc, List.length_append] at found

theorem bar_not_mem_number (r : Report) : '|' ∉ r.number := by
  rw [number, Nat.toString_eq_repr, Nat.repr, String.toList_ofList]
  intro member
  exact absurd (Nat.isDigit_of_mem_toDigits (by decide) (by decide) member) (by decide)

theorem bar_not_mem_margin (r : Report) : '|' ∉ r.margin := by
  simp [margin, spaces]

theorem bars_aligned (r : Report) :
    ∀ l ∈ [r.gapLine, r.sourceLine, r.caretLine], l.idxOf? '|' = some (r.number.length + 1) := by
  have margin : r.margin.length = r.number.length := List.length_replicate
  intro l member
  simp only [List.mem_cons, List.not_mem_nil, or_false] at member
  rcases member with gap | upper | lower
  · rw [gap, gapLine, ← margin]
    exact idxOf?_bar r.bar_not_mem_margin []
  · rw [upper, sourceLine, List.append_assoc]
    exact idxOf?_bar r.bar_not_mem_number _
  · rw [lower, caretLine_eq, ← margin]
    simp only [List.append_assoc, List.cons_append, List.nil_append]
    exact idxOf?_bar r.bar_not_mem_margin _

/-- Five lines, or six with a help, and nothing behind the last line feed. The bars of the last three
of the five stand in the column behind the number of the row, and the line with the number shows an
excerpt of the line of the position. -/
inductive Laid (r : Report) : List (List Char) → Prop
  | intro {gap shown lower above before after below : List Char}
      (bars : ∀ l ∈ [gap, (toString r.row).toList ++ [' ', '|', ' '] ++ shown, lower],
        l.idxOf? '|' = some ((toString r.row).length + 1))
      (inline : Inline shown)
      (lineAt : LineAt r.source.toList r.position above before after below)
      (excerpt : Excerpt (trim (expandTabs (before ++ after))) shown) :
      Laid r (["error: ".toList ++ r.message.toList, r.placeLine, gap,
          (toString r.row).toList ++ [' ', '|', ' '] ++ shown, lower]
        ++ (r.help.toList.map fun text => "help: ".toList ++ text.toList) ++ [[]])

theorem laid_lines (r : Report) : r.Laid (r.lines ++ [[]]) := by
  obtain ⟨above, below, lineAt⟩ := r.exists_lineAt
  have digits : (toString r.row).length = r.number.length := String.length_toList.symm
  refine .intro ?_ r.shownLine_inline lineAt r.excerpt_shownLine
  rw [digits]
  exact r.bars_aligned

/-- A report of single lines, with a row and a caret within the limits, is laid out like this. -/
theorem render_layout (row : r.row ≤ rowLimit) (caret : r.caret ≤ caretLimit)
    (message : Inline r.message.toList) (filename : Inline r.filename.toList)
    (noted : ∀ text ∈ r.annotation, Inline text.toList)
    (help : ∀ text ∈ r.help, Inline text.toList) :
    ∃ text, r.render = .ok text ∧ r.Laid (text.toList.splitOn '\n') := by
  have single : Inline (r.annotation.getD "").toList := by
    cases given : r.annotation with
    | none => exact inline_nil
    | some text => exact noted text given
  obtain ⟨text, rendered, lines⟩ := exists_render row caret
  refine ⟨text, rendered, ?_⟩
  rw [lines, splitOn_lines (lines_inline message filename single help)]
  exact r.laid_lines

/-- A position inside a wide character, on a line with tabs that is cut on both sides. -/
theorem render_layout_window :
    let r : Report := {
      message := "Invalid token"
      source := "Name \"a\";\n\tInput \x7b float3 Position : POSITION; float2 Texture\té" ++
        ": TEXCOORD0; float3 Normal : NORMAL; \x7d\r\n"
      position := 63
      filename := "a.nsl"
      lineOffset := 98
      annotation := some "invalid token"
      help := some "the source may only contain printable ASCII" }
    0 < r.overhang ∧ fullLimit < size r.trimmedLine ∧ r.row ≤ rowLimit ∧ r.caret ≤ caretLimit ∧
      Inline r.message.toList ∧ Inline r.filename.toList ∧
      (∀ text ∈ r.annotation, Inline text.toList) ∧ (∀ text ∈ r.help, Inline text.toList) ∧
      ∃ text, r.render = .ok text ∧ r.Laid (text.toList.splitOn '\n') := by
  intro r
  have row : r.row ≤ rowLimit := by decide +kernel
  have caret : r.caret ≤ caretLimit := by decide +kernel
  have message : Inline r.message.toList := by decide
  have filename : Inline r.filename.toList := by decide
  have noted : ∀ text ∈ r.annotation, Inline text.toList := by decide
  have help : ∀ text ∈ r.help, Inline text.toList := by decide
  exact ⟨by decide +kernel, by decide +kernel, row, caret, message, filename, noted, help,
    render_layout row caret message filename noted help⟩

end Report

end ShaderDef
