import ShaderDef.Proofs.Report.Padding

/-! Reports about the end of a source. The place is counted in bytes and with the blanks at the end
of the line, but what is shown is cut out of the line without them. Main statement: something visible
is shown of a line that is short, and of a longer one if the end lies less than half a window behind
as many columns as it has characters without these blanks; otherwise an ellipsis is all that is
shown. -/

namespace ShaderDef

namespace Text

variable {cs : List Char}

theorem trimStart_visible (visible : ∃ c ∈ cs, isBlank c = false) :
    ∃ c ∈ trimStart cs, isBlank c = false := by
  obtain ⟨c, member, solid⟩ := visible
  obtain ⟨left, right, rfl⟩ := List.append_of_mem member
  exact ⟨c, by simp [trimStart_append_visible solid], solid⟩

/-- The last character that is left is visible. -/
theorem trimEnd_visible (visible : ∃ c ∈ cs, isBlank c = false) :
    ∃ front c, trimEnd cs = front ++ [c] ∧ isBlank c = false := by
  induction cs using List.reverseRecOn with
  | nil => simp at visible
  | append_singleton cs d ih =>
    by_cases solid : isBlank d = false
    · exact ⟨cs, d, trimEnd_append_visible solid cs [], solid⟩
    · have blank : isBlank d = true := by simpa using solid
      have others : ∃ c ∈ cs, isBlank c = false := by
        obtain ⟨c, member, seen⟩ := visible
        rcases List.mem_append.1 member with inside | last
        · exact ⟨c, inside, seen⟩
        · exact absurd (List.mem_singleton.1 last ▸ seen) solid
      have same : trimEnd (cs ++ [d]) = trimEnd cs := by
        rw [trimEnd, trimEnd, List.reverse_append, List.reverse_singleton, List.singleton_append,
          List.dropWhile_cons_of_pos blank]
      rw [same]
      exact ih others

end Text

open Text Outline

namespace Report

variable {r : Report} {text : String} {line shown shown' : List Char}

def Shows (r : Report) (text : String) (shown : List Char) : Prop :=
  text.toList = ([r.headLine, r.placeLine, r.gapLine, r.number ++ [' ', '|', ' '] ++ shown,
    r.caretLine] ++ r.helpLine).flatMap (· ++ ['\n'])

inductive Visible (line : List Char) : List Char → Prop
  | intro {left piece right : List Char} {c : Char} (leftMark : left = [] ∨ left = ellipsis)
      (rightMark : right = [] ∨ right = ellipsis) (part : piece <:+: trim (expandTabs line))
      (member : c ∈ piece) (solid : isBlank c = false) : Visible line (left ++ piece ++ right)

theorem shows_of_render (given : r.render = .ok text) : r.Shows text r.shownLine := by
  rw [render] at given
  split_ifs at given
  obtain rfl := Except.ok.inj given
  exact String.toList_ofList

theorem Shows.unique (first : r.Shows text shown) (second : r.Shows text shown') :
    shown = shown' := by
  have same := first.symm.trans second
  simpa [List.flatMap_cons, List.append_assoc] using same

/-- A line of which an ellipsis shows something has a dot in it. -/
theorem Visible.dot_mem (visible : Visible line ellipsis) : '.' ∈ trim (expandTabs line) := by
  generalize whole : ellipsis = shown at visible
  cases visible with
  | @intro left piece right c leftMark rightMark part member solid =>
    have dot : c = '.' := by
      have inside : c ∈ ellipsis := by simp [whole, member]
      simpa [ellipsis] using inside
    exact part.subset (dot ▸ member)

theorem expandTabs_visible (visible : ∃ c ∈ line, isBlank c = false) :
    ∃ c ∈ expandTabs line, isBlank c = false := by
  obtain ⟨c, member, solid⟩ := visible
  have other : c ≠ '\t' := by
    rintro rfl
    exact absurd solid (by decide)
  exact ⟨c, List.mem_flatMap.2 ⟨c, member, by simp [other]⟩, solid⟩

theorem not_strays_iff : ¬r.Strays ↔
    if size r.trimmedLine ≤ fullLimit then r.column ≤ caretLimit
    else r.column + ellipsis.length ≤ r.trimmedLine.length + caretLimit := by
  split
  next short =>
    rw [← Nat.not_lt]
    exact not_congr ⟨Strays.column_lt, .whole short⟩
  next long =>
    rw [← Nat.not_lt]
    refine not_congr ⟨fun strays => ?_, .cut (Nat.not_le.1 long)⟩
    cases strays with
    | whole short far => exact absurd short long
    | cut long far => exact far

theorem render_ok_iff (row : r.row ≤ rowLimit) : (∃ text, r.render = .ok text) ↔ ¬r.Strays := by
  constructor
  · intro ⟨text, given⟩ strays
    have lost := render_of_strays strays row
    cases lost.symm.trans given
  · intro near
    exact render_of_not_strays near row

structure Ends (r : Report) (line : List Char) : Prop where
  left : r.lineBefore = line
  right : r.lineAfter = []
  overhang : r.overhang = 0

namespace Ends

variable (ends : r.Ends line)

include ends

theorem line_eq : r.line = expandTabs line := by
  rw [Report.line, ends.left, ends.right, List.append_nil]

theorem trimmedLine : r.trimmedLine = trimEnd (trimStart (expandTabs line)) := by
  rw [Report.trimmedLine, ends.line_eq, trim]

/-- Only the blanks at the front do not count. -/
theorem column : r.column = size (trimStart (expandTabs line)) := by
  have parts := congrArg size
    (List.takeWhile_append_dropWhile (p := isBlank) (l := expandTabs line))
  rw [size_append] at parts
  rw [Report.column, ends.left, ends.overhang, ends.line_eq, trimStart]
  omega

theorem length_le_column : r.trimmedLine.length ≤ r.column := by
  rw [ends.trimmedLine, ends.column]
  exact (trimEnd_isPrefix _).length_le.trans (length_le_size _)

theorem window_stop : r.window.stop = r.trimmedLine.length := by
  have before := ends.length_le_column
  rcases Nat.lt_or_ge fullLimit (size r.trimmedLine) with long | short
  · rw [window_of_long long]
    exact Nat.min_eq_right (before.trans (Nat.le_add_right _ _))
  · rw [window_of_short short]

theorem shownLine : r.shownLine = r.leftMark ++ r.trimmedLine.drop r.window.start := by
  have rest : r.snippet = r.trimmedLine.drop r.window.start := by
    rw [snippet, ends.window_stop]
    exact List.take_of_length_le (by rw [List.length_drop])
  rw [Report.shownLine, rest, rightMark, ends.window_stop, if_neg (Nat.lt_irrefl _),
    List.append_nil]

/-- Where the window does not pass the line by, it shows the last visible character. -/
theorem visible (solid : ∃ c ∈ line, isBlank c = false)
    (near : r.window.start < r.trimmedLine.length) : Visible line r.shownLine := by
  obtain ⟨front, c, last, seen⟩ := trimEnd_visible (trimStart_visible (expandTabs_visible solid))
  rw [← ends.trimmedLine] at last
  have count : r.window.start ≤ front.length := by
    rw [last, List.length_append, List.length_singleton] at near
    omega
  have piece : r.trimmedLine.drop r.window.start = front.drop r.window.start ++ [c] := by
    rw [last, List.drop_append_of_le_length count]
  have part : r.trimmedLine.drop r.window.start <:+: trim (expandTabs line) := by
    rw [trim, ← ends.trimmedLine]
    exact (List.drop_suffix _ _).isInfix
  have member : c ∈ r.trimmedLine.drop r.window.start := by
    rw [piece]
    simp
  rw [ends.shownLine, ← List.append_nil (r.leftMark ++ _)]
  exact .intro r.leftMark_cases (.inl rfl) part member seen

/-- The window does not pass the line by if the line is short or the place is near. -/
theorem window_start_lt (solid : ∃ c ∈ line, isBlank c = false)
    (near : size r.trimmedLine ≤ fullLimit ∨ r.column < r.trimmedLine.length + context) :
    r.window.start < r.trimmedLine.length := by
  have some : 0 < r.trimmedLine.length := by
    obtain ⟨front, c, last, _⟩ := trimEnd_visible (trimStart_visible (expandTabs_visible solid))
    rw [ends.trimmedLine, last]
    simp
  rcases Nat.lt_or_ge fullLimit (size r.trimmedLine) with long | short
  · have close := near.resolve_left (Nat.not_le.2 long)
    rw [window_of_long long]
    exact Nat.lt_of_le_of_lt (Nat.min_le_left _ _) (by omega)
  · rw [window_of_short short]
    exact some

/-- Where the window passes the line by, nothing is shown but the mark for what is left out. -/
theorem passed (long : fullLimit < size r.trimmedLine)
    (far : r.trimmedLine.length + context ≤ r.column) : r.shownLine = ellipsis := by
  have start : r.window.start = r.trimmedLine.length := by
    rw [window_of_long long]
    exact Nat.min_eq_right (Nat.le_sub_of_add_le far)
  have some : 0 < r.trimmedLine.length := by
    have chars := size_le_four_mul r.trimmedLine
    omega
  rw [ends.shownLine, start, List.drop_length, leftMark, start, if_pos some, List.append_nil]

end Ends

end Report

variable {source : String} {d : Diagnostic}

theorem Diagnostic.report_ends (last : d.index = size source.toList)
    (filename : String) : (d.report source filename).Ends (Report.lastLine source.toList) := by
  obtain ⟨left, right, overhang⟩ := report_front (List.append_nil source.toList).symm last filename
  exact ⟨left, right, overhang⟩

/-- A report about the end of a source shows something visible of the last line if the line is short,
or if its end lies less than half a window behind as many columns as there are characters up to the
last visible one. Otherwise it shows an ellipsis and nothing else. It is given unless the caret would
have to be moved too far. -/
theorem explain_end_shows (last : d.index = size source.toList)
    (fits : size source.toList < Report.rowLimit)
    (solid : ∃ c ∈ Report.lastLine source.toList, isBlank c = false) (filename : String) :
    let r := d.report source filename
    let line := trimStart (Report.expandTabs (Report.lastLine source.toList))
    let seen := trimEnd line
    (size seen ≤ Report.fullLimit ∨ size line < seen.length + Report.context →
      ∀ text, (Compiler.ofSource source).explain d filename = .ok text →
        ∃ shown, r.Shows text shown ∧ Report.Visible (Report.lastLine source.toList) shown) ∧
    (Report.fullLimit < size seen ∧ seen.length + Report.context ≤ size line →
      ∀ text, (Compiler.ofSource source).explain d filename = .ok text →
        r.Shows text Report.ellipsis) ∧
    ((∃ text, (Compiler.ofSource source).explain d filename = .ok text) ↔
      if size seen ≤ Report.fullLimit then size line ≤ Report.caretLimit
      else size line + Report.ellipsis.length ≤ seen.length + Report.caretLimit) := by
  intro r line seen
  have ends : r.Ends (Report.lastLine source.toList) := Diagnostic.report_ends last filename
  have whole : r.trimmedLine = seen := ends.trimmedLine
  have column : r.column = size line := ends.column
  have row : r.row ≤ Report.rowLimit := by
    have low : r.row ≤ d.index + 1 := d.row_le source filename
    omega
  refine ⟨fun near text given => ?_, fun ⟨long, far⟩ text given => ?_, ?_⟩
  · rw [← whole, ← column] at near
    have shows : Report.Visible (Report.lastLine source.toList) r.shownLine :=
      ends.visible solid (ends.window_start_lt solid near)
    exact ⟨r.shownLine, Report.shows_of_render given, shows⟩
  · rw [← whole] at long
    rw [← whole, ← column] at far
    have passed : r.shownLine = Report.ellipsis := ends.passed long far
    exact passed ▸ Report.shows_of_render given
  · have given := Report.render_ok_iff row
    rw [Report.not_strays_iff, whole, column] at given
    exact given

def longTitle : String :=
  "a name that is too long to be shown in full, so one window is cut out of it"

def longName : List Char :=
  "Name".toList ++ ' ' :: '"' :: (longTitle.toList ++ ['"'])

def unended (blanks : Nat) : String :=
  String.ofList (longName ++ List.replicate blanks ' ')

section Unended

variable (n : Nat)

theorem longName_plain : ∀ c ∈ longName, c ≠ '\n' ∧ c ≠ '\t' ∧ c ≠ '.' := by
  have plain : longName.all (fun c => decide (c ≠ '\n' ∧ c ≠ '\t' ∧ c ≠ '.')) = true := by
    decide +kernel
  exact fun c member => of_decide_eq_true (List.all_eq_true.1 plain c member)

theorem inline_unended : Inline (unended n).toList := by
  have name : Inline longName := fun member => (longName_plain _ member).1 rfl
  rw [unended, String.toList_ofList]
  exact name.append (inline_replicate (by decide))

theorem lastLine_unended :
    Report.lastLine (unended n).toList = longName ++ List.replicate n ' ' := by
  rw [Report.lastLine_of_inline (inline_unended n), unended, String.toList_ofList]

theorem line_unended :
    trimStart (Report.expandTabs (Report.lastLine (unended n).toList)) =
      longName ++ List.replicate n ' ' := by
  have plain : '\t' ∉ longName := fun member => (longName_plain _ member).2.1 rfl
  have visible : isBlank 'N' = false := by decide
  have word : "Name".toList = 'N' :: "ame".toList := by decide
  rw [lastLine_unended, Report.expandTabs_eq_self (by simp [plain]), longName, word]
  exact trimStart_append_visible visible [] _

theorem trimEnd_unended : trimEnd (longName ++ List.replicate n ' ') = longName := by
  have visible : isBlank '"' = false := by decide
  have last : longName = ("Name".toList ++ ' ' :: '"' :: longTitle.toList) ++ ['"'] := by
    simp [longName]
  rw [last, List.append_assoc, List.singleton_append, trimEnd_append_visible visible,
    trimEnd_replicate_blank (by decide)]

theorem visible_unended : ∃ c ∈ Report.lastLine (unended n).toList, isBlank c = false := by
  rw [lastLine_unended]
  exact ⟨'"', by simp [longName], by decide⟩

theorem size_longName : size longName = 82 ∧ longName.length = 82 := by
  decide +kernel

theorem size_line : size (longName ++ List.replicate n ' ') = 82 + n := by
  have space : ' '.utf8Size = 1 := by decide
  rw [size_append, size_replicate, size_longName.1, space, Nat.mul_one]

theorem size_unended : size (unended n).toList = 82 + n := by
  rw [unended, String.toList_ofList, size_line]

theorem Token.ofSource_unended : Token.ofSource (unended n) =
    [⟨.nameKeyword, 0, "Name"⟩, ⟨.stringLiteral, 5, longTitle⟩] := by
  have listed : ("Name", Token.Kind.nameKeyword) ∈ Token.Kind.keywords := by decide
  have space : isSpace ' ' = true := by decide
  have width : size "Name".toList = 4 := by decide
  have parts : longTitle.toList.all Lexeme.isStringPart = true := by decide +kernel
  have form := Lexeme.Form.string longTitle.toList (List.replicate n ' ')
    (List.all_eq_true.1 parts)
  rw [Token.ofSource_eq_scan, unended, String.toList_ofList, longName, List.append_assoc,
    List.cons_append, Token.scan_keyword listed, Token.scan_space space, List.cons_append]
  have string := Token.scan_form form (0 + size "Name".toList + ' '.utf8Size)
  rw [List.cons_append] at string
  rw [string, Token.scan_blanks space, width]
  simp [Lexeme.text]
  rfl

theorem compile_unended :
    compile (unended n) = .error ⟨.unexpected .semicolon .endOfFile, 82 + n⟩ := by
  have walked : (walk (82 + n) .top [⟨.nameKeyword, 0, "Name"⟩, ⟨.stringLiteral, 5, longTitle⟩]) =
      ⟨[.opens .name 0], .error ⟨.unexpected .semicolon .endOfFile, 82 + n⟩⟩ := by
    rw [walk_cons, step_nameKeyword rfl]
    rfl
  rw [compile_eq_error, Outline.ofSource, Token.ofSource_unended, size_unended]
  exact congrArg (fun all => (once [] all.events >>= fun _ => Reading.lift all.result).result) walked

end Unended

/-- The last blank with which the window still shows a character of the name. -/
theorem explain_end_shows_name :
    let source := unended 29
    let f : Fault := ⟨.unexpected .semicolon .endOfFile, 111⟩
    let line := longName ++ List.replicate 29 ' '
    compile source = .error f ∧ f.diagnostic.index = size source.toList ∧
      size source.toList < Report.rowLimit ∧
      (∃ c ∈ Report.lastLine source.toList, isBlank c = false) ∧
      Report.fullLimit < size longName ∧ size line < longName.length + Report.context ∧
      ∃ text shown, (Compiler.ofSource source).explain f.diagnostic "test.nsl" = .ok text ∧
        (f.diagnostic.report source "test.nsl").Shows text shown ∧
        Report.Visible (Report.lastLine source.toList) shown := by
  intro source f line
  have stopped : compile source = .error f := compile_unended 29
  have last : f.diagnostic.index = size source.toList := (size_unended 29).symm
  have fits : size source.toList < Report.rowLimit := by
    rw [size_unended]
    decide
  have solid := visible_unended 29
  obtain ⟨narrow, length⟩ := size_longName
  have long : Report.fullLimit < size longName := by
    rw [narrow]
    decide
  have whole : size line = 111 := size_line 29
  have near : size line < longName.length + Report.context := by
    rw [whole, length]
    decide
  obtain ⟨shows, _, given⟩ := explain_end_shows last fits solid "test.nsl"
  rw [line_unended, trimEnd_unended] at shows given
  obtain ⟨text, rendered⟩ := given.2 (by
    rw [if_neg (Nat.not_le.2 long), whole, length]
    decide)
  obtain ⟨shown, displayed, seen⟩ := shows (.inr near) text rendered
  exact ⟨stopped, last, fits, solid, long, near, text, shown, rendered, displayed, seen⟩

/-- With one more blank the report shows nothing of the name. -/
theorem not_explain_end_shows :
    ¬ ∀ (source filename : String) (f : Fault), compile source = .error f →
      f.index = size source.toList →
      (∃ c ∈ Report.lastLine source.toList, isBlank c = false) →
      ∀ text, (Compiler.ofSource source).explain f.diagnostic filename = .ok text →
        ∃ shown, (f.diagnostic.report source filename).Shows text shown ∧
          Report.Visible (Report.lastLine source.toList) shown := by
  intro shows
  let f : Fault := ⟨.unexpected .semicolon .endOfFile, 112⟩
  set r := f.diagnostic.report (unended 30) "test.nsl" with report
  have stopped : compile (unended 30) = .error f := compile_unended 30
  have last : f.index = size (unended 30).toList := (size_unended 30).symm
  have ends : r.Ends (Report.lastLine (unended 30).toList) := Diagnostic.report_ends last "test.nsl"
  obtain ⟨narrow, length⟩ := size_longName
  have whole : r.trimmedLine = longName := by
    rw [ends.trimmedLine, line_unended, trimEnd_unended]
  have column : r.column = 112 := by
    rw [ends.column, line_unended, size_line]
  have long : Report.fullLimit < size r.trimmedLine := by
    rw [whole, narrow]
    decide
  have far : r.trimmedLine.length + Report.context ≤ r.column := by
    rw [whole, length, column]
    decide
  have row : r.row ≤ Report.rowLimit := by
    have low : r.row ≤ 112 + 1 := f.diagnostic.row_le (unended 30) "test.nsl"
    exact low.trans (by decide)
  obtain ⟨text, rendered⟩ := (Report.render_ok_iff row).2 (by
    rw [Report.not_strays_iff, if_neg (Nat.not_le.2 long), whole, length, column]
    decide)
  obtain ⟨shown, displayed, visible⟩ :=
    shows _ "test.nsl" f stopped last (visible_unended 30) text rendered
  -- An ellipsis is all that is shown, and there is no dot in the name.
  obtain rfl : shown = Report.ellipsis :=
    (displayed.unique (Report.shows_of_render rendered)).trans (ends.passed long far)
  have dotless : '.' ∉ longName := fun member => (longName_plain _ member).2.2 rfl
  have none : '.' ∉ trim (Report.expandTabs (Report.lastLine (unended 30).toList)) := by
    rw [trim, line_unended, trimEnd_unended]
    exact dotless
  exact none visible.dot_mem

end ShaderDef
