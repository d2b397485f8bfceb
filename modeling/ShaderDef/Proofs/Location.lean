import Mathlib.Data.Nat.SuccPred
import Mathlib.Data.List.Induction
import Mathlib.Data.Prod.Lex
import ShaderDef.Report

/-! The rows of a source. What stands before an offset is a number of whole rows, each with its line
feed, and a part of one more: the rows are counted and the part is measured. Main statements: the
location of an offset counts just that, it moves on with every byte, and it leads back to the
offset. -/

namespace ShaderDef

open Text

namespace Location

variable {l : Location} {bs rows line rest : List UInt8} {source : String} {i : Nat}

def Complete (rows : List UInt8) : Prop :=
  rows = [] ∨ ∃ front, rows = front ++ [10]

def behindFeeds : Nat → List UInt8 → Nat
  | 0, _ => 0
  | _ + 1, [] => 0
  | n + 1, b :: bs => 1 + behindFeeds (if b = 10 then n else n + 1) bs

def rowStart (source : String) (row : Nat) : Nat :=
  behindFeeds (row - 1) (bytes source.toList)

def key (l : Location) : Nat ×ₗ Nat :=
  toLex (l.row, l.column)

theorem key_advance (l : Location) (b : UInt8) : l.key < (l.advance b).key := by
  rw [key, key, Prod.Lex.toLex_lt_toLex, advance]
  split
  · exact .inl (Nat.lt_succ_self l.row)
  · exact .inr ⟨rfl, Nat.lt_succ_self l.column⟩

theorem row_foldl (l : Location) (bs : List UInt8) :
    (bs.foldl advance l).row = l.row + bs.count 10 := by
  induction bs generalizing l with
  | nil => rfl
  | cons b bs ih =>
    rw [List.foldl_cons, ih, advance, List.count_cons]
    split
    · next feed =>
      simp only [feed, beq_self_eq_true, if_true]
      omega
    · next other => simp [other]

/-- Within a row only the column moves. -/
theorem foldl_line (single : 10 ∉ line) (l : Location) :
    line.foldl advance l = ⟨l.row, l.column + line.length⟩ := by
  induction line generalizing l with
  | nil => rfl
  | cons b line ih =>
    obtain ⟨other, behind⟩ := List.ne_and_not_mem_of_not_mem_cons single
    rw [List.foldl_cons, ih behind, advance, if_neg (Ne.symm other), List.length_cons, Nat.add_assoc,
      Nat.add_comm 1]

theorem foldl_rows (complete : Complete rows) :
    rows.foldl advance {} = ⟨1 + rows.count 10, 1⟩ := by
  rcases complete with rfl | ⟨front, rfl⟩
  · rfl
  · rw [List.foldl_append, List.foldl_cons, List.foldl_nil, advance, if_pos rfl, row_foldl,
      List.count_append]
    rfl

theorem exists_rows (bs : List UInt8) :
    ∃ rows line, bs = rows ++ line ∧ Complete rows ∧ 10 ∉ line := by
  induction bs using List.reverseRecOn with
  | nil => exact ⟨[], [], rfl, .inl rfl, List.not_mem_nil⟩
  | append_singleton bs b ih =>
    by_cases feed : b = 10
    · subst feed
      exact ⟨bs ++ [10], [], (List.append_nil _).symm, .inr ⟨bs, rfl⟩, List.not_mem_nil⟩
    · obtain ⟨rows, line, rfl, complete, single⟩ := ih
      refine ⟨rows, line ++ [b], List.append_assoc .., complete, ?_⟩
      simp [single, Ne.symm feed]

/-- Behind all of their line feeds come whole rows to their end. -/
theorem behindFeeds_rows (complete : Complete rows) (rest : List UInt8) :
    behindFeeds (rows.count 10) (rows ++ rest) = rows.length := by
  induction rows with
  | nil => cases rest <;> rfl
  | cons b rows ih =>
    by_cases last : rows = []
    · -- A row of one byte is its line feed.
      obtain rfl : b = 10 := by
        rcases complete with none | ⟨front, whole⟩
        · cases none
        · rw [last] at whole
          have ends := congrArg List.getLast? whole
          simpa using ends
      subst last
      simp [behindFeeds]
    · have others : Complete rows := by
        rcases complete with none | ⟨front, whole⟩
        · cases none
        · cases front with
          | nil => exact absurd (List.cons.inj whole).2 last
          | cons c front => exact .inr ⟨front, (List.cons.inj whole).2⟩
      have some : 0 < rows.count 10 := by
        obtain none | ⟨front, rfl⟩ := others
        · exact absurd none last
        · exact List.count_pos_iff.2 (by simp)
      obtain ⟨n, feeds⟩ := Nat.exists_eq_add_one_of_ne_zero (Nat.ne_of_gt some)
      have behind := ih others
      rw [feeds] at behind
      by_cases feed : b = 10
      · rw [feed, List.count_cons_self, List.cons_append, behindFeeds, if_pos rfl, feeds, behind,
          List.length_cons, Nat.add_comm]
      · rw [List.count_cons_of_ne feed, List.cons_append, feeds, behindFeeds, if_neg feed, behind,
          List.length_cons, Nat.add_comm]

/-- The location of an offset, told by what stands before it. -/
theorem ofOffset_rows (front : (bytes source.toList).take i = rows ++ line)
    (complete : Complete rows) (single : 10 ∉ line) :
    ofOffset source i = ⟨1 + rows.count 10, 1 + line.length⟩ := by
  rw [ofOffset, front, List.foldl_append, foldl_rows complete, foldl_line single]

theorem rowStart_rows (front : (bytes source.toList).take i = rows ++ line)
    (complete : Complete rows) : rowStart source (1 + rows.count 10) = rows.length := by
  have whole : bytes source.toList = rows ++ (line ++ (bytes source.toList).drop i) := by
    rw [← List.append_assoc, ← front, List.take_append_drop]
  rw [rowStart, Nat.add_sub_cancel_left, whole, behindFeeds_rows complete]

theorem ofOffset_row (source : String) (i : Nat) :
    (ofOffset source i).row = 1 + ((bytes source.toList).take i).count 10 :=
  row_foldl {} _

theorem ofOffset_column (source : String) (i : Nat) :
    (ofOffset source i).column =
      1 + (((bytes source.toList).take i).reverse.takeWhile (· != 10)).length := by
  obtain ⟨rows, line, front, complete, single⟩ := exists_rows ((bytes source.toList).take i)
  have all : ∀ b ∈ line.reverse, (b != 10) = true := by
    intro b member
    exact bne_iff_ne.2 fun feed => single (feed ▸ List.mem_reverse.1 member)
  have stops : rows.reverse.takeWhile (· != 10) = [] := by
    rcases complete with rfl | ⟨above, rfl⟩
    · rfl
    · simp
  rw [ofOffset_rows front complete single, front, List.reverse_append,
    List.takeWhile_append_of_pos all, stops, List.append_nil, List.length_reverse]

/-- From the end of the source on the location is that of the end. -/
theorem ofOffset_of_le (beyond : size source.toList ≤ i) :
    ofOffset source i = ofOffset source (size source.toList) := by
  have length : (bytes source.toList).length = size source.toList := length_bytes _
  rw [ofOffset, ofOffset, List.take_of_length_le (length.trans_le beyond),
    List.take_of_length_le length.le]

theorem ofOffset_succ (inside : i < (bytes source.toList).length) :
    ofOffset source (i + 1) = (ofOffset source i).advance (bytes source.toList)[i] := by
  rw [ofOffset, List.take_add_one, List.getElem?_eq_getElem inside, List.foldl_append]
  rfl

theorem strictMonoOn_key (source : String) :
    StrictMonoOn (fun i => (ofOffset source i).key) (Set.Iic (size source.toList)) := by
  refine strictMonoOn_of_lt_add_one Set.ordConnected_Iic fun i _ _ next => ?_
  have inside : i < (bytes source.toList).length := by
    rw [length_bytes]
    exact next
  simp only [ofOffset_succ inside]
  exact key_advance _ _

/-- The row and the column lead back to the offset. -/
theorem rowStart_ofOffset (source : String) (i : Nat) :
    rowStart source (ofOffset source i).row + ((ofOffset source i).column - 1) =
      min i (size source.toList) := by
  obtain ⟨rows, line, front, complete, single⟩ := exists_rows ((bytes source.toList).take i)
  have length := congrArg List.length front
  rw [List.length_take, length_bytes, List.length_append] at length
  rw [ofOffset_rows front complete single, rowStart_rows front complete, Nat.add_sub_cancel_left,
    length]

end Location

end ShaderDef
