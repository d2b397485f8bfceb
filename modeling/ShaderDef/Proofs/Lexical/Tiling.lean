import ShaderDef.Proofs.Lexical.Byte
import ShaderDef.Proofs.Lexical.Join
import ShaderDef.Proofs.Lexical.Span
import Mathlib.Data.List.Nodup

/-! Tokens tile their source. Main statement: the spans of the tokens are non-empty and follow each
other, a cursor stands at the end of each, each text stands in the source where its token says, only
white space is left between them, and the tokens woven into these gaps are the source again. -/

namespace ShaderDef

open Text

def Text.StandsAt (index : Nat) (piece cs : List Char) : Prop :=
  ∃ before behind, cs = before ++ (piece ++ behind) ∧ size before = index

namespace Token

def textIndex (t : Token) : Nat :=
  t.index + if t.kind = .stringLiteral then 1 else 0

def gaps (cs : List Char) (start : Nat) : List Token → List (List Char)
  | [] => [slice start (size cs) cs]
  | t :: ts => slice start t.index cs :: gaps cs t.stop ts

def weave : List (List Char) → List Token → List Char
  | gap :: gaps, t :: ts => gap ++ (t.cover ++ weave gaps ts)
  | gaps, _ => gaps.flatten

structure Tiling (source : String) (ts : List Token) : Prop where
  reads : ∀ i t, ts[i]? = some t →
    ((Cursor.start source).ahead i).next.1 = t ∧
      ((Cursor.start source).ahead (i + 1)).offset = t.stop
  ends : ((Cursor.start source).ahead ts.length).next.1 = .finish (size source.toList)
  nonempty : ∀ t ∈ ts, t.index < t.stop
  ordered : ts.Pairwise fun s t => s.stop ≤ t.index
  within : ∀ t ∈ ts, t.stop ≤ size source.toList
  text : ∀ t ∈ ts, StandsAt t.textIndex t.text.toList source.toList
  /-- A byte outside of all spans is white space. -/
  blank : ∀ (i : Nat) (b : UInt8), (bytes source.toList)[i]? = some b →
    (∀ t ∈ ts, i < t.index ∨ t.stop ≤ i) → isSpaceByte b = true
  /-- The gaps hold white space only, and with the tokens they give the source back. -/
  spaces : ∀ gap ∈ gaps source.toList 0 ts, ∀ c ∈ gap, isSpace c = true
  whole : weave (gaps source.toList 0 ts) ts = source.toList
  unique : ∀ s ∈ ts ++ [.finish (size source.toList)], ∀ t ∈ ts ++ [.finish (size source.toList)],
    s.index = t.index → s = t

/-- Tokens laid out over a text that starts at a byte offset, with white space before, between and
behind them. -/
inductive Tiles : Nat → List Token → List Char → Prop
  | nil {offset : Nat} {gap : List Char} (blank : ∀ c ∈ gap, isSpace c = true) :
      Tiles offset [] gap
  | cons {offset : Nat} {gap cs : List Char} {t : Token} {ts : List Token}
      (blank : ∀ c ∈ gap, isSpace c = true) (place : t.index = offset + size gap)
      (covers : t.cover ≠ []) (behind : Tiles t.stop ts cs) :
      Tiles offset (t :: ts) (gap ++ (t.cover ++ cs))

section Layout

variable {offset : Nat} {ts : List Token} {cs : List Char}

theorem Tiles.space {c : Char} (space : isSpace c = true)
    (tiles : Tiles (offset + c.utf8Size) ts cs) : Tiles offset ts (c :: cs) := by
  cases tiles with
  | nil blank => exact .nil (List.forall_mem_cons.2 ⟨space, blank⟩)
  | @cons _ gap _ _ _ blank place covers behind =>
    rw [← List.cons_append]
    refine .cons (List.forall_mem_cons.2 ⟨space, blank⟩) ?_ covers behind
    rw [place, size_cons, Nat.add_assoc]

theorem scan_tiles (offset : Nat) (cs : List Char) : Tiles offset (scan offset cs) cs := by
  fun_induction scan offset cs with
  | case1 => exact .nil (by simp)
  | case2 offset c cs space ih => exact ih.space space
  | case3 offset c cs solid ih =>
    have form := Lexeme.front_form cs (by simpa using solid)
    have divides := Lexeme.front_divides (c := c) cs
    generalize Lexeme.front c cs = l at form divides ih
    have covers := form.cover_eq offset
    have first : Tiles offset (⟨l.kind, offset, String.ofList l.text⟩ :: scan (offset + size l.raw)
        l.rest) ([] ++ (l.raw ++ l.rest)) := by
      rw [← covers]
      refine .cons (by simp) rfl (by rw [covers]; exact divides.nonempty) ?_
      rwa [stop, ← size_cover, covers]
    rwa [List.nil_append, divides.split] at first

theorem index_lt_stop {t : Token} (covers : t.cover ≠ []) : t.index < t.stop := by
  have positive := size_pos covers
  rw [size_cover] at positive
  rw [stop]
  omega

theorem Tiles.bounds (tiles : Tiles offset ts cs) :
    ∀ t ∈ ts, offset ≤ t.index ∧ t.index < t.stop ∧ t.stop ≤ offset + size cs := by
  induction tiles with
  | nil => simp
  | @cons offset gap cs t ts blank place covers behind ih =>
    have extent := size_cover t
    have positive := index_lt_stop covers
    simp only [size_append]
    intro s member
    rcases List.mem_cons.1 member with rfl | later
    · rw [stop] at positive ⊢
      omega
    · have bounds := ih s later
      rw [stop] at bounds positive
      omega

theorem Tiles.ordered (tiles : Tiles offset ts cs) : ts.Pairwise fun s t => s.stop ≤ t.index := by
  induction tiles with
  | nil => exact .nil
  | cons blank place covers behind ih => exact .cons (fun s later => (behind.bounds s later).1) ih

/-- A byte of the text that no token covers is a byte of white space. -/
theorem Tiles.blank_byte (tiles : Tiles offset ts cs) {i : Nat} {b : UInt8}
    (here : (bytes cs)[i]? = some b)
    (outside : ∀ t ∈ ts, offset + i < t.index ∨ t.stop ≤ offset + i) : isSpaceByte b = true := by
  induction tiles generalizing i with
  | nil blank => exact isSpaceByte_of_mem_bytes blank b (List.mem_of_getElem? here)
  | @cons offset gap cs t ts blank place covers behind ih =>
    have extent := size_cover t
    have first := outside t List.mem_cons_self
    rw [stop] at first
    rw [bytes_append, bytes_append] at here
    rcases Nat.lt_or_ge i (size gap) with before | beyond
    · rw [List.getElem?_append_left (by simpa using before)] at here
      exact isSpaceByte_of_mem_bytes blank b (List.mem_of_getElem? here)
    · have reached : size gap + size t.cover ≤ i := by omega
      rw [List.getElem?_append_right (by simpa using beyond),
        List.getElem?_append_right (by simp only [length_bytes]; omega), length_bytes,
        length_bytes] at here
      have place' : t.stop + (i - size gap - size t.cover) = offset + i := by
        rw [stop]
        omega
      apply ih here
      intro s later
      rw [place']
      exact outside s (List.mem_cons_of_mem t later)

/-- What stands between the tokens is white space, and woven with them it gives the text. -/
theorem Tiles.weave_gaps (tiles : Tiles offset ts cs) {front : List Char}
    (reach : size front = offset) :
    (∀ gap ∈ gaps (front ++ cs) offset ts, ∀ c ∈ gap, isSpace c = true) ∧
      weave (gaps (front ++ cs) offset ts) ts = cs := by
  induction tiles generalizing front with
  | @nil offset gap blank =>
    have cut := slice_append front gap []
    rw [reach, List.append_nil] at cut
    simp only [Token.gaps, size_append, reach, cut]
    exact ⟨by simpa using blank, by simp [weave]⟩
  | @cons offset gap cs t ts blank place covers behind ih =>
    have cut := slice_append front gap (t.cover ++ cs)
    rw [reach, ← place] at cut
    have behind' : size (front ++ (gap ++ t.cover)) = t.stop := by
      rw [size_append, size_append, size_cover, stop]
      omega
    have whole : front ++ (gap ++ (t.cover ++ cs)) = front ++ (gap ++ t.cover) ++ cs := by simp
    obtain ⟨blanks, woven⟩ := ih behind'
    rw [← whole] at blanks woven
    simp only [Token.gaps, cut, weave, woven, List.forall_mem_cons]
    exact ⟨⟨blank, blanks⟩, trivial⟩

end Layout

theorem standsAt_text {t : Token} {before behind : List Char} {cs : List Char}
    (whole : cs = before ++ (t.cover ++ behind)) (place : size before = t.index) :
    StandsAt t.textIndex t.text.toList cs := by
  unfold cover at whole
  unfold textIndex
  split
  · rename_i quoted
    have width : '"'.utf8Size = 1 := rfl
    refine ⟨before ++ ['"'], '"' :: behind, by simpa [quoted] using whole, ?_⟩
    rw [size_append, place, size_cons, size_nil, width]
  · rename_i plain
    exact ⟨before, behind, by simpa [plain] using whole, place⟩

/-- Every token covers a piece of its source that starts at its index. -/
theorem cover_of_mem {source : String} {t : Token} (member : t ∈ ofSource source) :
    ∃ before behind, source.toList = before ++ (t.cover ++ behind) ∧ size before = t.index ∧
      Lexeme.Form ⟨t.kind, t.cover, behind⟩ := by
  rw [ofSource_eq_scan] at member
  obtain ⟨_, _, split⟩ := List.append_of_mem member
  obtain ⟨front, l, whole, form, rfl, _⟩ := exists_lexeme_of_scan split
  refine ⟨front, l.rest, ?_, by simp, ?_⟩
  · rw [form.cover_eq, whole]
  · rw [form.cover_eq]
    exact form

theorem stream_ordered (source : String) :
    (stream source).Pairwise fun s t => s.index < t.index := by
  have ordered := scan_ordered 0 source.toList
  have within : ∀ t ∈ scan 0 source.toList, t.index < size source.toList := by
    intro t member
    have bounds := index_of_mem_scan member
    omega
  rw [stream, ofSource_eq_scan, List.pairwise_append]
  exact ⟨ordered, List.pairwise_singleton .., by simpa using within⟩

theorem eq_of_index {source : String} {s t : Token} (left : s ∈ stream source)
    (right : t ∈ stream source) (same : s.index = t.index) : s = t := by
  have single : ((stream source).map Token.index).Nodup :=
    List.pairwise_map.2 ((stream_ordered source).imp Nat.ne_of_lt)
  exact List.inj_on_of_nodup_map single left right same

/-- The tokens of a source tile it. -/
theorem tiling_ofSource (source : String) : Tiling source (ofSource source) := by
  have tiles : Tiles 0 (ofSource source) source.toList :=
    ofSource_eq_scan source ▸ scan_tiles 0 source.toList
  have sound := Cursor.start_sound source
  have reach : (Cursor.start source).offset + size (Cursor.start source).rest =
      size source.toList := Nat.zero_add _
  obtain ⟨blanks, woven⟩ := tiles.weave_gaps size_nil
  refine
    { reads := fun i t listed => Cursor.ahead_of_getElem? sound listed
      ends := reach ▸ Cursor.ahead_end sound
      nonempty := fun t member => (tiles.bounds t member).2.1
      ordered := tiles.ordered
      within := fun t member => ?_
      text := fun t member => ?_
      blank := fun i b here outside => ?_
      spaces := blanks
      whole := woven
      unique := fun s left t right same => eq_of_index left right same }
  · have bounds := tiles.bounds t member
    omega
  · obtain ⟨before, behind, whole, place, _⟩ := cover_of_mem member
    exact standsAt_text whole place
  · exact tiles.blank_byte here (by simpa using outside)

end Token

end ShaderDef
