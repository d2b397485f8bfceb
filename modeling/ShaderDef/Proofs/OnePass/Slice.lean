import ShaderDef.Proofs.Grammar.Recognize
import ShaderDef.Proofs.Lexical.Foreign
import ShaderDef.Proofs.Lexical.Progress

/-! Checked slices. A piece is cut out of a text only between two byte offsets that are in order and
both between characters; a cursor that takes the texts of its tokens in this way never fails. -/

namespace ShaderDef

open Text

inductive Breach where
  /-- The byte offsets of a piece are out of order, or not both between characters. -/
  | slice (start stop : Nat)
  /-- More scopes are closed than were opened. -/
  | nesting
  /-- A scope has been read without a single token, not even one that ends it. -/
  | emptyScope
  /-- No token starts with a printable character. -/
  | operator
deriving DecidableEq, Repr

namespace Text

def splitAt? (n : Nat) : List Char → Option (List Char × List Char)
  | [] => if n = 0 then some ([], []) else none
  | c :: cs =>
    if n = 0 then some ([], c :: cs)
    else if c.utf8Size ≤ n then
      (splitAt? (n - c.utf8Size) cs).map fun halves => (c :: halves.1, halves.2)
    else none

theorem splitAt?_append (as bs : List Char) : splitAt? (size as) (as ++ bs) = some (as, bs) := by
  induction as with
  | nil => cases bs <;> simp [splitAt?]
  | cons c as ih =>
    have width := c.utf8Size_pos
    rw [List.cons_append, splitAt?, size_cons, if_neg (by omega), if_pos (by omega),
      Nat.add_sub_cancel_left, ih]
    rfl

theorem append_of_splitAt? {n : Nat} {cs as bs : List Char}
    (found : splitAt? n cs = some (as, bs)) : cs = as ++ bs ∧ n = size as := by
  induction cs generalizing n as with
  | nil =>
    rw [splitAt?] at found
    split at found
    · rename_i zero
      obtain ⟨rfl, rfl⟩ := Prod.mk.inj (Option.some.inj found)
      exact ⟨rfl, zero⟩
    · cases found
  | cons c cs ih =>
    rw [splitAt?] at found
    split_ifs at found with zero fits
    · obtain ⟨rfl, rfl⟩ := Prod.mk.inj (Option.some.inj found)
      exact ⟨rfl, zero⟩
    · obtain ⟨⟨left, right⟩, inner, same⟩ := Option.map_eq_some_iff.1 found
      obtain ⟨rfl, rfl⟩ := Prod.mk.inj same
      obtain ⟨rfl, place⟩ := ih inner
      exact ⟨rfl, by rw [size_cons, ← place]; omega⟩

def slice? (start stop : Nat) (cs : List Char) : Option (List Char) :=
  if start ≤ stop then
    (splitAt? start cs).bind fun halves => (splitAt? (stop - start) halves.2).map Prod.fst
  else none

/-- A slice is taken exactly where the offsets are those of the ends of a piece. -/
theorem slice?_eq_some {start stop : Nat} {cs piece : List Char} :
    slice? start stop cs = some piece ↔
      ∃ front behind, cs = front ++ (piece ++ behind) ∧ start = size front ∧
        stop = start + size piece := by
  constructor
  · intro found
    rw [slice?] at found
    split_ifs at found with ordered
    obtain ⟨⟨front, rest⟩, first, second⟩ := Option.bind_eq_some_iff.1 found
    obtain ⟨⟨_, behind⟩, inner, same⟩ := Option.map_eq_some_iff.1 second
    obtain ⟨rfl, place⟩ := append_of_splitAt? first
    obtain ⟨rfl, extent⟩ := append_of_splitAt? inner
    obtain rfl := same
    refine ⟨front, behind, rfl, place, ?_⟩
    simp only
    omega
  · rintro ⟨front, behind, rfl, rfl, rfl⟩
    rw [slice?, if_pos (Nat.le_add_right _ _), splitAt?_append, Option.bind_some,
      Nat.add_sub_cancel_left, splitAt?_append]
    rfl

/-- The second byte of a character is no place to start at. -/
example : slice? 1 2 ['é'] = none := by decide

/-- What is taken is what any cut at these offsets gives. -/
theorem slice_of_slice? {start stop : Nat} {cs piece : List Char}
    (found : slice? start stop cs = some piece) : slice start stop cs = piece := by
  obtain ⟨front, behind, rfl, rfl, rfl⟩ := slice?_eq_some.1 found
  exact slice_append front piece behind

end Text

def Breach.slice? (source : String) (start stop : Nat) : Except Breach String :=
  match Text.slice? start stop source.toList with
  | some piece => .ok (.ofList piece)
  | none => .error (.slice start stop)

variable {source : String} {c : Cursor} {l : Lexeme} {ch : Char} {cs : List Char}

theorem Breach.slice?_eq_ok {start stop : Nat} (front piece behind : List Char)
    (whole : source.toList = front ++ (piece ++ behind)) (place : start = size front)
    (extent : stop = start + size piece) :
    Breach.slice? source start stop = .ok (.ofList piece) := by
  have found := Text.slice?_eq_some.2 ⟨front, behind, whole, place, extent⟩
  rw [Breach.slice?, found]

namespace Cursor

def finish? (source : String) (c : Cursor) : Except Breach (Token × Cursor) := do
  let text ← Breach.slice? source (size source.toList) (size source.toList)
  return (⟨.endOfFile, size source.toList, text⟩, { c with pending := .ended })

def takeForeign? (source : String) (c : Cursor) (ch : Char) (cs : List Char) :
    Except Breach (Token × Cursor) := do
  let _ ← Breach.slice? source c.offset (size source.toList)
  let text ← Breach.slice? source c.offset (c.offset + ch.utf8Size)
  return (⟨.invalid, c.offset, text⟩, ⟨cs, c.offset + ch.utf8Size, .clear⟩)

/-- The text of a string literal stands between its quotes. A lexeme is malformed as a whole only
if its character is foreign, so no other one may be. -/
def take? (source : String) (c : Cursor) (l : Lexeme) : Except Breach (Token × Cursor) := do
  if l.kind = .invalid then throw .operator
  let margin := if l.kind = .stringLiteral then 1 else 0
  let text ← Breach.slice? source (c.offset + margin) (c.offset + size l.raw - margin)
  return (⟨l.kind, c.offset, text⟩, ⟨l.rest, c.offset + size l.raw, Pending.after l⟩)

def read? (source : String) (c : Cursor) : Except Breach (Token × Cursor) :=
  match c.rest with
  | [] => c.finish? source
  | ch :: cs => if isForeign ch then c.takeForeign? source ch cs else c.take? source (.read ch cs)

def next? (source : String) (c : Cursor) : Except Breach (Token × Cursor) :=
  match c.pending with
  | .ended => c.finish? source
  | .foreign => c.read? source
  | .clear => c.skipSpaces.read? source

theorem finish?_eq (within : c.Over source) (none : c.rest = []) :
    c.finish? source = .ok c.finish := by
  have reach := within.reach
  rw [none, size_nil, Nat.add_zero] at reach
  have text : Breach.slice? source (size source.toList) (size source.toList) = .ok (.ofList []) :=
    Breach.slice?_eq_ok source.toList [] [] (by simp) rfl rfl
  rw [finish?, text, finish, Token.finish, reach]
  rfl

theorem takeForeign?_eq (within : c.Over source) (front : c.rest = ch :: cs) :
    c.takeForeign? source ch cs = .ok (c.takeForeign ch cs) := by
  have reach := within.reach
  obtain ⟨before, whole, place⟩ := within
  have rest : Breach.slice? source c.offset (size source.toList) = .ok (.ofList c.rest) :=
    Breach.slice?_eq_ok before c.rest [] (by simpa using whole) place.symm reach.symm
  have text : Breach.slice? source c.offset (c.offset + ch.utf8Size) = .ok (.ofList [ch]) :=
    Breach.slice?_eq_ok before [ch] cs (by rw [whole, front]; rfl) place.symm rfl
  rw [takeForeign?, rest, text]
  rfl

theorem take?_eq (within : c.Over source) (form : Lexeme.Form l) (native : l.kind ≠ .invalid)
    (divides : l.Divides c.rest) : c.take? source l = .ok (c.take l) := by
  obtain ⟨before, whole, place⟩ := within
  rw [← divides.split] at whole
  have raw := form.cover_eq 0
  simp only [Token.cover, String.toList_ofList] at raw
  by_cases quoted : l.kind = .stringLiteral
  · rw [if_pos quoted] at raw
    have quote : '"'.utf8Size = 1 := rfl
    have text : Breach.slice? source (c.offset + 1) (c.offset + size l.raw - 1) =
        .ok (.ofList l.text) := by
      refine Breach.slice?_eq_ok (before ++ ['"']) l.text ('"' :: l.rest) ?_ ?_ ?_
      · rw [whole, ← raw]
        simp
      · rw [size_append, place]
        rfl
      · rw [← raw, size_cons, size_append, size_cons, size_nil, quote]
        omega
    simp only [take?, if_neg native, if_pos quoted, text]
    rfl
  · rw [if_neg quoted] at raw
    have text : Breach.slice? source (c.offset + 0) (c.offset + size l.raw - 0) =
        .ok (.ofList l.text) := by
      rw [raw]
      exact Breach.slice?_eq_ok before l.raw l.rest whole place.symm rfl
    simp only [take?, if_neg native, if_neg quoted, text]
    rfl

theorem read?_eq (within : c.Over source) (solid : ∀ ch ∈ c.rest.head?, isSpace ch = false) :
    c.read? source = .ok c.read := by
  cases front : c.rest with
  | nil =>
    rw [read?, read, front]
    exact finish?_eq within front
  | cons ch cs =>
    rw [read?, read, front]
    simp only
    split_ifs with foreign
    · exact takeForeign?_eq within front
    · have form := Lexeme.front_form cs (solid ch (by rw [front]; rfl))
      rw [Lexeme.front, if_neg foreign] at form
      have divides := Lexeme.read_divides ch cs
      rw [← front] at divides
      refine take?_eq within form ?_ divides
      rcases form.foreign_or_native with ⟨_, d, raw, wrong⟩ | ⟨native, _⟩
      · have split := (Lexeme.read_divides ch cs).split
        rw [raw, List.singleton_append] at split
        exact absurd ((List.cons.inj split).1 ▸ wrong) foreign
      · exact native

/-- A cursor on a source never fails to slice it. -/
theorem next?_eq (within : c.Over source) (sound : c.Sound) : c.next? source = .ok c.next := by
  rw [next?, next]
  cases known : c.pending with
  | ended => exact finish?_eq within (sound.ended known)
  | foreign =>
    obtain ⟨ch, cs, front, foreign⟩ := sound.foreign known
    refine read?_eq within ?_
    simpa [front] using isSpace_eq_false_of_isForeign foreign
  | clear =>
    refine read?_eq ?_ (stops_dropWhile c.rest)
    obtain ⟨before, whole, place⟩ := within
    refine ⟨before ++ c.rest.takeWhile isSpace, ?_, ?_⟩
    · rw [whole, List.append_assoc]
      exact congrArg (before ++ ·) List.takeWhile_append_dropWhile.symm
    · rw [size_append, place]
      rfl

section Steps

variable {t : Token} {d : Cursor}

theorem finish_of_finish? (ok : c.finish? source = .ok (t, d)) :
    t.kind = c.finish.1.kind ∧ d = c.finish.2 := by
  obtain ⟨text, _, same⟩ := Except.bind_eq_ok.1 ok
  obtain ⟨rfl, rfl⟩ := Prod.mk.inj (Except.ok.inj same)
  exact ⟨rfl, rfl⟩

theorem take_of_take? (ok : c.take? source l = .ok (t, d)) :
    t.kind = (c.take l).1.kind ∧ d = (c.take l).2 := by
  rw [take?] at ok
  split at ok
  · cases ok
  · obtain ⟨_, _, same⟩ := Except.bind_eq_ok.1 ok
    obtain ⟨rfl, rfl⟩ := Prod.mk.inj (Except.ok.inj same)
    exact ⟨rfl, rfl⟩

theorem read_of_read? (ok : c.read? source = .ok (t, d)) :
    t.kind = c.read.1.kind ∧ d = c.read.2 := by
  cases front : c.rest with
  | nil =>
    rw [read?, front] at ok
    rw [read, front]
    exact finish_of_finish? ok
  | cons ch cs =>
    rw [read?, front] at ok
    rw [read, front]
    simp only at ok ⊢
    split_ifs at ok ⊢
    · obtain ⟨_, _, ok⟩ := Except.bind_eq_ok.1 ok
      obtain ⟨_, _, same⟩ := Except.bind_eq_ok.1 ok
      obtain ⟨rfl, rfl⟩ := Prod.mk.inj (Except.ok.inj same)
      exact ⟨rfl, rfl⟩
    · exact take_of_take? ok

theorem next_of_next? (ok : c.next? source = .ok (t, d)) :
    t.kind = c.next.1.kind ∧ d = c.next.2 := by
  rw [next?] at ok
  rw [next]
  cases known : c.pending with
  | ended =>
    rw [known] at ok
    exact finish_of_finish? ok
  | foreign =>
    rw [known] at ok
    exact read_of_read? ok
  | clear =>
    rw [known] at ok
    exact read_of_read? ok

end Steps

end Cursor

end ShaderDef
