import ShaderDef.Proofs.Lexical.Byte
import ShaderDef.Proofs.LineEnds.Display
import ShaderDef.Proofs.Location
import ShaderDef.Proofs.Report.Layout

/-! The line of a report. A report looks back from its position for the start of the line, and a
location counts rows and columns forwards from the start of the source. Main statement: the two
agree, so the row and the column of a report name the line that it shows and the place in it. -/

namespace ShaderDef

namespace Text

variable {cs above before after below : List Char} {c : Char} {n offset : Nat}

/-- The line of an offset, with what stands above and below it. A line feed ends what is above, and
the line goes on to the next line feed or carriage return. An offset inside a character stands
before that character, and one past the end is the end. -/
structure LineAt (source : List Char) (offset : Nat) (above before after below : List Char) :
    Prop where
  whole : source = above ++ (before ++ (after ++ below))
  start : above = [] ∨ ∃ front, above = front ++ ['\n']
  single : Inline before
  fits : size above + size before ≤ offset
  next : ∀ c ∈ (after ++ below).head?, offset < size above + size before + c.utf8Size
  unbroken : ∀ c ∈ after, isBreak c = false
  stop : ∀ c ∈ below.head?, isBreak c = true

/-- The character behind the cut does not fit any more. -/
theorem lt_of_head_dropBytes (n : Nat) (cs : List Char) :
    ∀ c ∈ (dropBytes n cs).head?, n < size (takeBytes n cs) + c.utf8Size := by
  induction cs generalizing n with
  | nil => simp [dropBytes]
  | cons d cs ih =>
    intro c first
    simp only [dropBytes, takeBytes] at first ⊢
    split
    · next fits =>
      rw [if_pos fits] at first
      have others := ih (n - d.utf8Size) c first
      rw [size_cons]
      omega
    · next wide =>
      rw [if_neg wide] at first
      obtain rfl := Option.some.inj first
      rw [size_nil]
      omega

theorem feed_of_mem_encode (member : 10 ∈ String.utf8EncodeChar c) : c = '\n' := by
  have narrow : ∀ c : Char, c.toNat < 128 →
      (!(String.utf8EncodeChar c).contains 10 || c == '\n') = true := of_ascii (by decide)
  rcases Nat.lt_or_ge c.toNat 128 with ascii | wide
  · simpa [member] using narrow c ascii
  · exact absurd (high_of_mem_encode wide 10 member) (by decide)

theorem feed_not_mem_bytes (inline : Inline cs) : 10 ∉ bytes cs := by
  intro member
  obtain ⟨c, inside, encoded⟩ := List.mem_flatMap.1 member
  exact inline (feed_of_mem_encode encoded ▸ inside)

/-- A character that is cut off is a wide one, so no byte of it is a line feed. -/
theorem feed_not_mem_part (next : ∀ c ∈ cs.head?, n < c.utf8Size) : 10 ∉ (bytes cs).take n := by
  cases cs with
  | nil => simp [bytes]
  | cons c cs =>
    have short : n < c.utf8Size := next c rfl
    have encoded : (bytes (c :: cs)).take n = (String.utf8EncodeChar c).take n := by
      have length : n ≤ (String.utf8EncodeChar c).length := by
        rw [String.length_utf8EncodeChar]
        exact short.le
      rw [bytes, List.flatMap_cons, List.take_append_of_le_length length]
    intro member
    rw [encoded] at member
    obtain rfl := feed_of_mem_encode (List.mem_of_mem_take member)
    have none : n = 0 := Nat.lt_one_iff.1 short
    simp [none] at member

end Text

open Text

namespace Report

theorem exists_above (cs : List Char) :
    ∃ above, cs = above ++ lastLine cs ∧ (above = [] ∨ ∃ front, above = front ++ ['\n']) := by
  induction cs using List.reverseRecOn with
  | nil => exact ⟨[], rfl, .inl rfl⟩
  | append_singleton cs c ih =>
    rw [lastLine_concat]
    by_cases feed : c = '\n'
    · subst feed
      exact ⟨cs ++ ['\n'], by simp, .inr ⟨cs, rfl⟩⟩
    · obtain ⟨above, whole, start⟩ := ih
      refine ⟨above, ?_, start⟩
      rw [if_neg feed, ← List.append_assoc, ← whole]

/-- What a report shows is taken from the line of its position. -/
theorem exists_lineAt (r : Report) :
    ∃ above below, LineAt r.source.toList r.position above r.lineBefore r.lineAfter below := by
  have halves := takeBytes_append_dropBytes r.position r.source.toList
  obtain ⟨above, front, start⟩ := exists_above (takeBytes r.position r.source.toList)
  have rest := List.takeWhile_append_dropWhile (p := fun c => !isBreak c)
    (l := dropBytes r.position r.source.toList)
  have width : size above + size r.lineBefore = size (takeBytes r.position r.source.toList) := by
    rw [← size_append, lineBefore, ← front]
  refine ⟨above, (dropBytes r.position r.source.toList).dropWhile fun c => !isBreak c, ?_, start,
    lastLine_inline _, ?_, ?_, ?_, ?_⟩
  · rw [lineAfter, rest, lineBefore, ← List.append_assoc, ← front, halves]
  · rw [width]
    exact size_takeBytes_le _ _
  · rw [lineAfter, rest, width]
    exact lt_of_head_dropBytes _ _
  · intro c inside
    simpa using List.all_eq_true.1 List.all_takeWhile c inside
  · intro c first
    simpa using stops_dropWhile _ c first

end Report

namespace Location

variable {source : String} {above before after below : List Char} {offset : Nat}

/-- A location names the line of the offset and the place in it. -/
theorem ofOffset_lineAt (lineAt : LineAt source.toList offset above before after below) :
    rowStart source (ofOffset source offset).row = size above ∧
      size above + (ofOffset source offset).column = min offset (size source.toList) + 1 := by
  have fits := lineAt.fits
  -- Behind the whole characters there may be a part of one more.
  set part := (bytes (after ++ below)).take (offset - (size above + size before)) with cut
  have front : (bytes source.toList).take offset = bytes above ++ (bytes before ++ part) := by
    rw [lineAt.whole, bytes_append, bytes_append, List.take_append, List.take_append, length_bytes,
      length_bytes, List.take_of_length_le (by rw [length_bytes]; omega),
      List.take_of_length_le (by rw [length_bytes]; omega), cut, Nat.sub_add_eq]
  have complete : Complete (bytes above) := by
    rcases lineAt.start with rfl | ⟨rows, rfl⟩
    · exact .inl rfl
    · exact .inr ⟨bytes rows, bytes_append rows ['\n']⟩
  have single : 10 ∉ bytes before ++ part := by
    have part : 10 ∉ part := feed_not_mem_part fun c first => by
      have wide := lineAt.next c first
      omega
    intro member
    exact (List.mem_append.1 member).elim (feed_not_mem_bytes lineAt.single) part
  have length := congrArg List.length front
  rw [List.length_take, length_bytes, List.length_append, length_bytes] at length
  rw [ofOffset_rows front complete single, rowStart_rows front complete, length_bytes]
  refine ⟨rfl, ?_⟩
  change size above + (1 + (bytes before ++ part).length) = min offset (size source.toList) + 1
  omega

/-- What locations are: counts of line feeds and of the bytes behind the last of them, which rise
from byte to byte up to the end of the source, lead back to the offset, and name the line of a
report. -/
structure Exact (source : String) : Prop where
  row (offset : Nat) : (ofOffset source offset).row =
    1 + ((bytes source.toList).take offset).count 10
  column (offset : Nat) : (ofOffset source offset).column =
    1 + (((bytes source.toList).take offset).reverse.takeWhile (· != 10)).length
  ordered : StrictMonoOn (fun offset => (ofOffset source offset).key) (Set.Iic (size source.toList))
  distinct : Set.InjOn (ofOffset source) (Set.Iic (size source.toList))
  settled (offset : Nat) : ofOffset source offset = ofOffset source (min offset (size source.toList))
  inverse (offset : Nat) :
    rowStart source (ofOffset source offset).row + ((ofOffset source offset).column - 1) =
      min offset (size source.toList)
  reported (r : Report) (same : r.source = source) : ∃ above below,
    LineAt source.toList r.position above r.lineBefore r.lineAfter below ∧
      r.trimmedLine = trim (Report.expandTabs (r.lineBefore ++ r.lineAfter)) ∧
      r.placeLine = " --> ".toList ++ r.filename.toList ++ [':']
        ++ (toString ((ofOffset source r.position).row + r.lineOffset)).toList ++ [':']
        ++ (toString (ofOffset source r.position).column).toList ∧
      rowStart source (ofOffset source r.position).row = size above ∧
      size above + (ofOffset source r.position).column =
        min r.position (size source.toList) + 1

theorem ofOffset_exact (source : String) : Exact source where
  row := ofOffset_row source
  column := ofOffset_column source
  ordered := strictMonoOn_key source
  distinct := fun _ inside _ inside' same =>
    (strictMonoOn_key source).injOn inside inside' (congrArg key same)
  settled := by
    intro offset
    rcases Nat.le_total (size source.toList) offset with beyond | inside
    · rw [ofOffset_of_le beyond, Nat.min_eq_right beyond]
    · rw [Nat.min_eq_left inside]
  inverse := rowStart_ofOffset source
  reported := by
    rintro r rfl
    obtain ⟨above, below, lineAt⟩ := r.exists_lineAt
    exact ⟨above, below, lineAt, rfl, rfl, ofOffset_lineAt lineAt⟩

end Location

end ShaderDef
