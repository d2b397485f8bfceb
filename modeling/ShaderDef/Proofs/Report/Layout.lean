import ShaderDef.Report

/-! Layout of reports: what their lines are made of. Where a report is about a visible character
with no wide character before it on its line, the place that it counts in bytes is the place of that
character among the characters it shows. -/

namespace ShaderDef

namespace Text

def Inline (cs : List Char) : Prop :=
  '\n' ∉ cs

instance (cs : List Char) : Decidable (Inline cs) :=
  inferInstanceAs (Decidable (_ ∉ _))

variable {as bs cs : List Char} {c : Char}

theorem inline_nil : Inline [] :=
  List.not_mem_nil

theorem Inline.append (left : Inline as) (right : Inline bs) : Inline (as ++ bs) :=
  fun member => (List.mem_append.1 member).elim left right

theorem Inline.of_subset (inline : Inline bs) (part : as ⊆ bs) : Inline as :=
  fun member => inline (part member)

theorem Inline.toList_append {s t : String} (left : Inline s.toList) (right : Inline t.toList) :
    Inline (s ++ t).toList := by
  rw [String.toList_append]
  exact left.append right

theorem inline_toString (n : Nat) : Inline (toString n).toList := by
  rw [Nat.toString_eq_repr, Nat.repr, String.toList_ofList]
  intro member
  exact absurd (Nat.isDigit_of_mem_toDigits (by decide) (by decide) member) (by decide)

theorem inline_replicate {n : Nat} (other : c ≠ '\n') : Inline (List.replicate n c) :=
  fun member => other (List.eq_of_mem_replicate member).symm

/-- Lines that are put together with their ends come apart again. -/
theorem splitOn_lines {ls : List (List Char)} (inline : ∀ l ∈ ls, Inline l) :
    (ls.flatMap (· ++ ['\n'])).splitOn '\n' = ls ++ [[]] := by
  induction ls with
  | nil => rfl
  | cons l ls ih =>
    have others := ih fun l' member => inline l' (List.mem_cons_of_mem l member)
    have first : ∀ c ∈ l, (c == '\n') = false := by
      intro c member
      exact beq_false_of_ne fun same => inline l List.mem_cons_self (same ▸ member)
    rw [List.flatMap_cons, List.append_assoc, List.singleton_append, List.splitOn,
      List.splitOnP_append_cons _ _ (by simp), List.splitOnP_eq_singleton first]
    exact congrArg (l :: ·) others

theorem size_eq_length (narrow : ∀ c ∈ cs, c.utf8Size = 1) : size cs = cs.length := by
  induction cs with
  | nil => rfl
  | cons c cs ih =>
    rw [size_cons, narrow c List.mem_cons_self, ih fun d inside => narrow d (by simp [inside]),
      List.length_cons, Nat.add_comm]

section Visible

variable (visible : isBlank c = false)

include visible

theorem trimEnd_append_visible (as bs : List Char) :
    trimEnd (as ++ c :: bs) = as ++ c :: trimEnd bs := by
  have whole : (as ++ c :: bs).reverse = bs.reverse ++ c :: as.reverse := by simp
  have stays : (c :: as.reverse).dropWhile isBlank = c :: as.reverse :=
    List.dropWhile_cons_of_neg (by simp [visible])
  rw [trimEnd, trimEnd, whole, List.dropWhile_append, stays]
  split
  next blank => simp [List.isEmpty_iff.1 blank]
  next => simp

theorem trimStart_append_visible (as bs : List Char) :
    trimStart (as ++ c :: bs) = trimStart as ++ c :: bs := by
  have stays : (c :: bs).dropWhile isBlank = c :: bs :=
    List.dropWhile_cons_of_neg (by simp [visible])
  rw [trimStart, trimStart, List.dropWhile_append, stays]
  split
  next blank => simp [List.isEmpty_iff.1 blank]
  next => rfl

theorem takeWhile_append_visible (as bs : List Char) :
    (as ++ c :: bs).takeWhile isBlank = as.takeWhile isBlank := by
  have stops : (c :: bs).takeWhile isBlank = [] :=
    List.takeWhile_cons_of_neg (by simp [visible])
  rw [List.takeWhile_append, stops]
  split
  next all => simpa using ((List.takeWhile_prefix isBlank).eq_of_length all).symm
  next => rfl

end Visible

end Text

open Text

namespace Report

variable {cs before after : List Char} {c ch : Char}

theorem lastLine_isSuffix (cs : List Char) : lastLine cs <:+ cs := by
  have front := List.takeWhile_prefix (l := cs.reverse) (· != '\n')
  simpa [lastLine] using List.reverse_suffix.2 front

theorem lastLine_inline (cs : List Char) : Inline (lastLine cs) := by
  intro member
  have other := List.all_eq_true.1 List.all_takeWhile _ (List.mem_reverse.1 member)
  exact absurd other (by decide)

theorem lastLine_of_inline (inline : Inline cs) : lastLine cs = cs := by
  have all : ∀ c ∈ cs.reverse, (c != '\n') = true := by
    intro c member
    exact bne_iff_ne.2 fun same => inline (same ▸ List.mem_reverse.1 member)
  rw [lastLine, ← List.append_nil cs.reverse, List.takeWhile_append_of_pos all, List.takeWhile_nil,
    List.append_nil, List.reverse_reverse]

@[simp] theorem expandTabs_append (as bs : List Char) :
    expandTabs (as ++ bs) = expandTabs as ++ expandTabs bs :=
  List.flatMap_append

theorem expandTabs_cons (other : c ≠ '\t') (cs : List Char) :
    expandTabs (c :: cs) = c :: expandTabs cs := by
  simp [expandTabs, other]

theorem expandTabs_eq_self (plain : '\t' ∉ cs) : expandTabs cs = cs := by
  induction cs with
  | nil => rfl
  | cons c cs ih =>
    obtain ⟨other, behind⟩ := List.ne_and_not_mem_of_not_mem_cons plain
    rw [expandTabs_cons (Ne.symm other), ih behind]

theorem mem_expandTabs (member : c ∈ expandTabs cs) : c = ' ' ∨ c ∈ cs := by
  obtain ⟨d, inside, expands⟩ := List.mem_flatMap.1 member
  split at expands
  · left
    simpa using expands
  · rw [List.mem_singleton.1 expands]
    exact .inr inside

theorem expandTabs_inline (inline : Inline cs) : Inline (expandTabs cs) := by
  intro member
  rcases mem_expandTabs member with blank | inside
  · exact absurd blank (by decide)
  · exact inline inside

section Lines

variable (r : Report)

theorem line_inline : Inline r.line := by
  have before : Inline r.lineBefore := lastLine_inline _
  have after : Inline r.lineAfter := by
    intro member
    have other := List.all_eq_true.1 List.all_takeWhile _ member
    exact absurd other (by decide)
  exact expandTabs_inline (before.append after)

theorem shownLine_inline : Inline r.shownLine := by
  have mark : Inline ellipsis := by decide
  have left : Inline r.leftMark := by
    unfold leftMark
    split
    · exact mark
    · exact inline_nil
  have right : Inline r.rightMark := by
    unfold rightMark
    split
    · exact mark
    · exact inline_nil
  have middle : Inline r.snippet := by
    refine r.line_inline.of_subset ?_
    have cut : r.snippet ⊆ r.trimmedLine :=
      List.Subset.trans (List.take_subset _ _) (List.drop_subset _ _)
    exact List.Subset.trans cut (trim_isInfix _).subset
  exact (left.append middle).append right

variable {r}

/-- A report of texts without line feeds is made of these lines, each ended by a line feed. -/
theorem lines_inline (message : Inline r.message.toList) (filename : Inline r.filename.toList)
    (noted : Inline (r.annotation.getD "").toList)
    (help : ∀ text ∈ r.help, Inline text.toList) : ∀ l ∈ r.lines, Inline l := by
  have number : Inline r.number := inline_toString _
  have column : Inline (toString r.location.column).toList := inline_toString _
  have margin : Inline r.margin := inline_replicate (by decide)
  have colon : Inline [':'] := by decide
  have bar : Inline [' ', '|', ' '] := by decide
  have headLine : Inline r.headLine := by
    have title : Inline "error: ".toList := by decide
    exact title.append message
  have placeLine : Inline r.placeLine := by
    have arrow : Inline " --> ".toList := by decide
    exact ((((arrow.append filename).append colon).append number).append colon).append column
  have gapLine : Inline r.gapLine := margin.append (by decide)
  have sourceLine : Inline r.sourceLine := (number.append bar).append r.shownLine_inline
  have caretLine : Inline r.caretLine := by
    have pad : Inline (spaces r.caret) := inline_replicate (by decide)
    have sign : Inline ['^', ' '] := by decide
    refine Inline.of_subset ?_ (trimEnd_isPrefix _).subset
    exact (((margin.append bar).append pad).append sign).append noted
  have helpLine : ∀ l ∈ r.helpLine, Inline l := by
    intro l member
    obtain ⟨text, given, rfl⟩ := List.mem_map.1 member
    have title : Inline "help: ".toList := by decide
    exact title.append (help text (Option.mem_toList.1 given))
  simpa only [lines, List.forall_mem_append, List.forall_mem_cons, List.not_mem_nil,
    false_implies, implies_true, true_and, and_assoc] using
    ⟨headLine, placeLine, gapLine, sourceLine, caretLine, helpLine⟩

/-- The caret is no blank, so only what stands behind it is trimmed. -/
theorem caretLine_eq (r : Report) : r.caretLine =
    r.margin ++ [' ', '|', ' '] ++ spaces r.caret ++
      '^' :: trimEnd (' ' :: (r.annotation.getD "").toList) := by
  rw [caretLine, ← trimEnd_append_visible (by decide)]
  simp

/-- A report within the limits is given, line by line. -/
theorem exists_render (row : r.row ≤ rowLimit) (caret : r.caret ≤ caretLimit) :
    ∃ text, r.render = .ok text ∧ text.toList = r.lines.flatMap (· ++ ['\n']) := by
  refine ⟨_, ?_, String.toList_ofList⟩
  rw [render, if_neg (Nat.not_lt.2 row), if_neg (Nat.not_lt.2 caret)]

end Lines

section Window

variable {r : Report}

theorem window_of_short (short : size r.trimmedLine ≤ fullLimit) :
    r.window = ⟨0, r.trimmedLine.length⟩ := by
  simp only [window, if_pos short]

theorem window_of_long (long : fullLimit < size r.trimmedLine) :
    r.window = ⟨min (r.column - context) r.trimmedLine.length,
      min (r.column + context) r.trimmedLine.length⟩ := by
  simp only [window, if_neg (Nat.not_le.2 long)]

theorem window_start_le (r : Report) : r.window.start ≤ r.column := by
  rcases Nat.lt_or_ge fullLimit (size r.trimmedLine) with long | short
  · rw [window_of_long long]
    exact Nat.le_trans (Nat.min_le_left _ _) (Nat.sub_le _ _)
  · rw [window_of_short short]
    exact Nat.zero_le _

theorem window_within (r : Report) :
    r.window.start ≤ r.window.stop ∧ r.window.stop ≤ r.trimmedLine.length := by
  rcases Nat.lt_or_ge fullLimit (size r.trimmedLine) with long | short
  · simp only [window_of_long long, context]
    omega
  · simp [window_of_short short]

end Window

/-- The report is about a visible character, with no wide character before it on its line. -/
structure Sees (r : Report) (before : List Char) (ch : Char) (after : List Char) : Prop where
  left : r.lineBefore = before
  right : r.lineAfter = ch :: after
  overhang : r.overhang = 0
  visible : isBlank ch = false
  narrow : ∀ c ∈ before, c.utf8Size = 1

namespace Sees

variable {r : Report} (sees : r.Sees before ch after)

include sees

theorem line : r.line = expandTabs before ++ ch :: expandTabs after := by
  have other : ch ≠ '\t' := by
    rintro rfl
    exact absurd sees.visible (by decide)
  rw [Report.line, sees.left, sees.right, expandTabs_append, expandTabs_cons other]

theorem trimmedLine :
    r.trimmedLine = trimStart (expandTabs before) ++ ch :: trimEnd (expandTabs after) := by
  rw [Report.trimmedLine, sees.line, trim, trimStart_append_visible sees.visible,
    trimEnd_append_visible sees.visible]

/-- Up to the character there are as many bytes as characters. -/
theorem column : r.column = (trimStart (expandTabs before)).length := by
  -- The column is counted with tabs as four bytes, and four blanks stand for one.
  have narrow : ∀ c ∈ expandTabs before, c.utf8Size = 1 := by
    intro c member
    rcases mem_expandTabs member with rfl | inside
    · decide
    · exact sees.narrow c inside
  have parts := congrArg size
    (List.takeWhile_append_dropWhile (p := isBlank) (l := expandTabs before))
  have left : size (trimStart (expandTabs before)) = (trimStart (expandTabs before)).length :=
    size_eq_length fun c member => narrow c ((List.dropWhile_suffix isBlank).subset member)
  rw [size_append] at parts
  rw [Report.column, sees.left, sees.overhang, sees.line, takeWhile_append_visible sees.visible,
    ← left, trimStart]
  omega

theorem column_lt : r.column < r.trimmedLine.length := by
  rw [sees.column, sees.trimmedLine]
  simp

theorem window_stop : r.column < r.window.stop := by
  have inside := sees.column_lt
  rcases Nat.lt_or_ge fullLimit (size r.trimmedLine) with long | short
  · rw [window_of_long long]
    exact Nat.lt_min.2 ⟨Nat.lt_add_of_pos_right (by decide), inside⟩
  · simpa only [window_of_short short] using inside

/-- What stands between the mark on the left and the character. -/
theorem snippet :
    ∃ next, next <+: trimEnd (expandTabs after) ∧
      (r.rightMark = [] → next = trimEnd (expandTabs after)) ∧
      r.snippet = (trimStart (expandTabs before)).drop r.window.start ++ ch :: next := by
  have start : r.window.start ≤ (trimStart (expandTabs before)).length :=
    sees.column ▸ r.window_start_le
  have stop : (trimStart (expandTabs before)).length < r.window.stop :=
    sees.column ▸ sees.window_stop
  -- The window goes on behind the character, by some number of characters.
  obtain ⟨more, count⟩ := Nat.exists_eq_add_of_lt stop
  refine ⟨(trimEnd (expandTabs after)).take more, List.take_prefix _ _, fun unmarked => ?_, ?_⟩
  · have short : ¬r.window.stop < r.trimmedLine.length := by
      intro cut
      rw [rightMark, if_pos cut] at unmarked
      exact absurd unmarked (by decide)
    rw [sees.trimmedLine, List.length_append, List.length_cons] at short
    exact List.take_of_length_le (by omega)
  · have left : ((trimStart (expandTabs before)).drop r.window.start).length ≤
        r.window.stop - r.window.start := by
      rw [List.length_drop]
      omega
    have others : r.window.stop - r.window.start -
        ((trimStart (expandTabs before)).drop r.window.start).length = more + 1 := by
      rw [List.length_drop]
      omega
    rw [Report.snippet, sees.trimmedLine, List.drop_append_of_le_length start, List.take_append,
      List.take_of_length_le left, others, List.take_succ_cons]

/-- The caret moves over the mark and what is shown before the character. -/
theorem caret : r.caret =
    (r.leftMark ++ (trimStart (expandTabs before)).drop r.window.start).length := by
  have mark : size r.leftMark = r.leftMark.length := by
    unfold leftMark
    split <;> rfl
  rw [Report.caret, sees.column, mark, List.length_append, List.length_drop, Nat.add_comm]

theorem caret_le : r.caret ≤ caretLimit := by
  have mark : size r.leftMark ≤ 3 := by
    unfold leftMark
    split <;> decide
  have inside := sees.column_lt
  have bytes := length_le_size r.trimmedLine
  have near : r.column - r.window.start ≤ fullLimit := by
    rcases Nat.lt_or_ge fullLimit (size r.trimmedLine) with long | short
    · rw [window_of_long long]
      simp only [context, fullLimit]
      omega
    · omega
  unfold Report.caret
  simp only [fullLimit, caretLimit] at near ⊢
  omega

end Sees

end Report

end ShaderDef
