import ShaderDef.Proofs.Lexical.Word
import ShaderDef.Proofs.Report.Caret

/-! The padding of a caret. Main statement: where a source is refused, what a report shows lies
within the line, and the report is given unless the place lies too far behind what is shown. That
can only be at the end of the source or at a blank that is refused, behind more columns than a caret
can be moved. -/

namespace ShaderDef

namespace Text

theorem isForeign_of_isBlank {c : Char} (blank : isBlank c = true)
    (solid : isSpace c = false) : isForeign c = true := by
  -- A space is the only blank that is printable.
  have other : c.toNat ≠ 32 := by
    intro same
    obtain rfl : c = ' ' := Char.toNat_inj.1 same
    exact absurd solid (by decide)
  simp only [isBlank, blankRanges, List.any_cons, List.any_nil, Bool.or_eq_true, Bool.and_eq_true,
    decide_eq_true_eq, Bool.false_eq_true, or_false] at blank
  have hidden : ¬(32 ≤ c.toNat ∧ c.toNat ≤ 126) := by omega
  have printable : isPrintable c = false := by
    simpa [isPrintable, Char.le_def, UInt32.le_iff_toNat_le] using hidden
  simp [isForeign, printable, solid]

theorem size_le_four_mul (cs : List Char) : size cs ≤ 4 * cs.length := by
  induction cs with
  | nil => simp
  | cons c cs ih =>
    have width := c.utf8Size_le_four
    rw [size_cons, List.length_cons]
    omega

theorem size_replicate (n : Nat) (c : Char) : size (List.replicate n c) = n * c.utf8Size := by
  induction n with
  | zero => simp
  | succ n ih => rw [List.replicate_succ, size_cons, ih, Nat.succ_mul, Nat.add_comm]

theorem trimEnd_replicate_blank {c : Char} (blank : isBlank c = true) (n : Nat) :
    trimEnd (List.replicate n c) = [] := by
  rw [trimEnd, List.reverse_replicate, List.dropWhile_replicate, if_pos blank, List.reverse_nil]

end Text

open Text Outline

namespace Report

variable {r : Report}

/-- The place lies farther behind what is shown of its line than a caret can be moved. -/
inductive Strays (r : Report) : Prop
  | whole (short : size r.trimmedLine ≤ fullLimit) (far : caretLimit < r.column)
  | cut (long : fullLimit < size r.trimmedLine)
      (far : r.trimmedLine.length + caretLimit < r.column + ellipsis.length)

theorem size_leftMark (r : Report) :
    size r.leftMark = if 0 < r.window.start then ellipsis.length else 0 := by
  unfold leftMark
  split <;> rfl

theorem Strays.column_lt (strays : r.Strays) : caretLimit < r.column := by
  cases strays with
  | whole short far => exact far
  | cut long far =>
    have chars := size_le_four_mul r.trimmedLine
    simp only [fullLimit, ellipsis, List.length_cons, List.length_nil] at long far
    omega

theorem caret_of_short (short : size r.trimmedLine ≤ fullLimit) : r.caret = r.column := by
  have start : r.window.start = 0 := by rw [window_of_short short]
  rw [caret, size_leftMark, start, if_neg (Nat.lt_irrefl 0), Nat.sub_zero, Nat.add_zero]

theorem strays_iff : r.Strays ↔ caretLimit < r.caret := by
  rcases Nat.lt_or_ge fullLimit (size r.trimmedLine) with long | short
  · have start : r.window.start = min (r.column - context) r.trimmedLine.length := by
      rw [window_of_long long]
    have chars := size_le_four_mul r.trimmedLine
    have limits : context = 30 ∧ caretLimit = 65535 ∧ ellipsis.length = 3 := by decide
    rw [caret, size_leftMark]
    -- Either few columns stand before the place, or the window starts behind the front of the line.
    constructor
    · rintro (⟨short, _⟩ | ⟨_, far⟩)
      · exact absurd long (Nat.not_lt.2 short)
      · split <;> omega
    · intro far
      refine .cut long ?_
      split at far <;> omega
  · rw [caret_of_short short]
    exact ⟨Strays.column_lt, .whole short⟩

theorem render_of_strays (strays : r.Strays) (row : r.row ≤ rowLimit) :
    r.render = .error .caret := by
  rw [render, if_neg (Nat.not_lt.2 row), if_pos (strays_iff.1 strays)]

theorem render_of_not_strays (near : ¬r.Strays) (row : r.row ≤ rowLimit) :
    ∃ text, r.render = .ok text := by
  obtain ⟨text, rendered, _⟩ := exists_render row (Nat.not_lt.1 fun far => near (strays_iff.2 far))
  exact ⟨text, rendered⟩

end Report

variable {source filename : String} {f : Fault}

/-- A source is refused between two of its characters, or at an end. -/
theorem split_of_error (stopped : compile source = .error f) :
    ∃ front rest, source.toList = front ++ rest ∧ size front = f.index := by
  rcases front_of_error stopped with ⟨front, ch, rest, whole, place, _⟩ | last
  · exact ⟨front, ch :: rest, whole, place⟩
  · exact ⟨source.toList, [], (List.append_nil _).symm, last.symm⟩

/-- A caret stands under a visible character, so a place that strays has none. -/
theorem blank_of_strays (stopped : compile source = .error f)
    (strays : (f.diagnostic.report source filename).Strays) :
    f.index = size source.toList ∨ ∃ front ch rest, source.toList = front ++ ch :: rest ∧
      size front = f.index ∧ isBlank ch = true ∧ isForeign ch = true := by
  rcases front_of_error stopped with ⟨front, ch, rest, whole, place, solid, native⟩ | last
  · refine .inr ⟨front, ch, rest, whole, place, ?_⟩
    by_cases visible : isBlank ch = false
    · have sees :=
        Diagnostic.report_sees (d := f.diagnostic) whole place.symm visible native filename
      exact absurd (Report.strays_iff.1 strays) (Nat.not_lt.2 sees.caret_le)
    · have blank : isBlank ch = true := by simpa using visible
      exact ⟨blank, isForeign_of_isBlank blank solid⟩
  · exact .inl last

theorem Diagnostic.row_le (d : Diagnostic) (source filename : String) :
    (d.report source filename).row ≤ d.index + 1 :=
  Location.row_le source d.index

/-- Where a source is refused, the report shows a part of the line, and it is given unless the place
strays. Then a foreign blank is refused there, or the source ends, and there are more columns before
the place than a caret can be moved. The number of a row is a machine word, so the source has no
more bytes than one counts. -/
theorem compile_padding (stopped : compile source = .error f)
    (fits : size source.toList < Report.rowLimit) (filename : String) :
    let r := f.diagnostic.report source filename
    r.window.start ≤ r.window.stop ∧ r.window.stop ≤ r.trimmedLine.length ∧
      (¬r.Strays → r.caret ≤ Report.caretLimit ∧
        ∃ text, (Compiler.ofSource source).explain f.diagnostic filename = .ok text) ∧
      (r.Strays → (Compiler.ofSource source).explain f.diagnostic filename = .error .caret ∧
        Report.caretLimit < size (Report.expandTabs r.lineBefore) ∧
        (f.index = size source.toList ∨ ∃ front ch rest, source.toList = front ++ ch :: rest ∧
          size front = f.index ∧ isBlank ch = true ∧ isForeign ch = true)) := by
  intro r
  obtain ⟨front, rest, whole, place⟩ := split_of_error stopped
  obtain ⟨_, _, overhang⟩ := Diagnostic.report_front (d := f.diagnostic) whole place.symm filename
  obtain ⟨start, stop⟩ := r.window_within
  have row : r.row ≤ Report.rowLimit := by
    have low : r.row ≤ f.index + 1 := f.diagnostic.row_le source filename
    rw [whole, size_append, place] at fits
    omega
  refine ⟨start, stop, fun near => ⟨?_, Report.render_of_not_strays near row⟩,
    fun strays => ⟨Report.render_of_strays strays row, ?_, blank_of_strays stopped strays⟩⟩
  · exact Nat.not_lt.1 fun far => near (Report.strays_iff.2 far)
  · have columns : r.column ≤ size (Report.expandTabs r.lineBefore) + r.overhang := Nat.sub_le _ _
    rw [overhang, Nat.add_zero] at columns
    exact Nat.lt_of_lt_of_le strays.column_lt columns

theorem expandTabs_tabs (n : Nat) :
    Report.expandTabs (List.replicate n '\t') = List.replicate (4 * n) ' ' := by
  induction n with
  | zero => rfl
  | succ n ih =>
    rw [List.replicate_succ, Nat.mul_succ, Nat.add_comm, List.replicate_add, ← ih]
    rfl

def openScope (tabs : Nat) : String :=
  String.ofList ("Bindings".toList ++ [' '] ++ '\x7b' :: List.replicate tabs '\t')

theorem Token.scan_blanks {c : Char} (space : isSpace c = true) (offset n : Nat) :
    Token.scan offset (List.replicate n c) = [] := by
  induction n generalizing offset with
  | zero => exact Token.scan_nil offset
  | succ n ih => rw [List.replicate_succ, Token.scan_space space, ih]

section OpenScope

variable (n : Nat)

theorem toList_openScope : (openScope n).toList =
    "Bindings".toList ++ [' '] ++ '\x7b' :: List.replicate n '\t' :=
  String.toList_ofList

theorem size_openScope : size (openScope n).toList = 10 + n := by
  have word : size ("Bindings".toList ++ [' ']) = 9 := by decide
  have brace : '\x7b'.utf8Size = 1 := by decide
  have tab : '\t'.utf8Size = 1 := by decide
  rw [toList_openScope, size_append, size_cons, size_replicate, word, brace, tab]
  omega

theorem Token.ofSource_openScope : Token.ofSource (openScope n) =
    [⟨.bindingsKeyword, 0, "Bindings"⟩, ⟨.leftBrace, 9, "\x7b"⟩] := by
  have listed : ("Bindings", Token.Kind.bindingsKeyword) ∈ Token.Kind.keywords := by decide
  have space : isSpace ' ' = true := by decide
  have tab : isSpace '\t' = true := by decide
  have width : size "Bindings".toList = 8 := by decide
  rw [Token.ofSource_eq_scan, toList_openScope, List.append_assoc, List.singleton_append,
    Token.scan_keyword listed, Token.scan_space space,
    Token.scan_mark Token.alone_leftBrace, Token.scan_blanks tab, width]
  rfl

theorem compile_openScope : compile (openScope n) = .error ⟨.unterminated, 10 + n⟩ := by
  have walked : walk (10 + n) .top [⟨.bindingsKeyword, 0, "Bindings"⟩, ⟨.leftBrace, 9, "\x7b"⟩] =
      .fail ⟨.unterminated, 10 + n⟩ := by
    simp [walk_cons, step_bindingsKeyword, enter, take_of_kind, finish]
  rw [compile_eq_error, Outline.ofSource, Token.ofSource_openScope, size_openScope]
  exact congrArg (fun all => (once [] all.events >>= fun _ => Reading.lift all.result).result) walked

theorem caret_openScope (filename : String) :
    ((Fault.diagnostic ⟨.unterminated, 10 + n⟩).report (openScope n) filename).caret =
      10 + 4 * n := by
  set r := (Fault.diagnostic ⟨.unterminated, 10 + n⟩).report (openScope n) filename with report
  obtain ⟨before, after, overhang⟩ := Diagnostic.report_front
    (d := Fault.diagnostic ⟨.unterminated, 10 + n⟩) (List.append_nil (openScope n).toList).symm
    (size_openScope n).symm filename
  rw [← report] at before after overhang
  have inline : Inline (openScope n).toList := by simp [toList_openScope, Inline]
  have word : Report.expandTabs ("Bindings".toList ++ [' ']) = "Bindings".toList ++ [' '] := by
    decide
  have columns : Report.expandTabs r.lineBefore =
      "Bindings".toList ++ [' '] ++ '\x7b' :: List.replicate (4 * n) ' ' := by
    rw [before, Report.lastLine_of_inline inline, toList_openScope, Report.expandTabs_append, word,
      Report.expandTabs_cons (by decide), expandTabs_tabs]
  have line : r.line = Report.expandTabs r.lineBefore := by
    rw [Report.line, after, List.takeWhile_nil, List.append_nil]
  have visible : isBlank '\x7b' = false := by decide
  have short : size r.trimmedLine ≤ Report.fullLimit := by
    rw [Report.trimmedLine, line, columns, trim, trimStart_append_visible visible,
      trimEnd_append_visible visible, trimEnd_replicate_blank (by decide)]
    decide
  have none : size (("Bindings".toList ++ [' ']).takeWhile isBlank) = 0 := by decide
  have width : size ("Bindings".toList ++ [' ']) = 9 := by decide
  have brace : '\x7b'.utf8Size = 1 := by decide
  have space : ' '.utf8Size = 1 := by decide
  rw [Report.caret_of_short short, Report.column, overhang, line, columns,
    takeWhile_append_visible visible, none, size_append, size_cons, size_replicate, width, brace,
    space]
  omega

theorem strays_openScope (far : Report.caretLimit < 10 + 4 * n) (filename : String) :
    ((Fault.diagnostic ⟨.unterminated, 10 + n⟩).report (openScope n) filename).Strays := by
  rw [Report.strays_iff, caret_openScope]
  exact far

end OpenScope

/-- The last tab that a report has columns for. -/
theorem compile_padding_tabs :
    let source := openScope 16381
    let f : Fault := ⟨.unterminated, 16391⟩
    let r := f.diagnostic.report source "test.nsl"
    compile source = .error f ∧ size source.toList < Report.rowLimit ∧ ¬r.Strays ∧
      r.caret = 65534 ∧
      ∃ text, (Compiler.ofSource source).explain f.diagnostic "test.nsl" = .ok text := by
  intro source f r
  have stopped : compile source = .error f := compile_openScope 16381
  have fits : size source.toList < Report.rowLimit := by
    rw [size_openScope]
    decide
  have caret : r.caret = 65534 := caret_openScope 16381 "test.nsl"
  have near : ¬r.Strays := by
    rw [Report.strays_iff, caret]
    decide
  obtain ⟨_, _, given, _⟩ := compile_padding stopped fits "test.nsl"
  exact ⟨stopped, fits, near, caret, (given near).2⟩

/-- With one more tab there is no report. -/
theorem not_compile_padding :
    ¬ ∀ (source filename : String) (f : Fault), compile source = .error f →
      size source.toList < Report.rowLimit →
        let r := f.diagnostic.report source filename
        (∃ text, (Compiler.ofSource source).explain f.diagnostic filename = .ok text) ∧
          r.window.start ≤ r.window.stop ∧ r.window.stop ≤ r.trimmedLine.length ∧
          r.caret ≤ Report.caretLimit := by
  intro given
  have fits : size (openScope 16382).toList < Report.rowLimit := by
    rw [size_openScope]
    decide
  have row := Diagnostic.row_le (Fault.diagnostic ⟨.unterminated, 10 + 16382⟩) (openScope 16382)
    "test.nsl"
  have strays := strays_openScope 16382 (by decide) "test.nsl"
  obtain ⟨⟨text, rendered⟩, _⟩ := given _ "test.nsl" _ (compile_openScope 16382) fits
  have lost := Report.render_of_strays strays (Nat.le_trans row (by decide))
  cases lost.symm.trans rendered

end ShaderDef
