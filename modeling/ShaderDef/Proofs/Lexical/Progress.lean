import ShaderDef.Proofs.Lexical.Span

/-! Progress of cursors. Main statement: however many tokens a cursor has given, it stands between
two characters of its source, what it knows of its place is true, each further token moves it
onwards, and once it has given the end it stays there and gives nothing else. -/

namespace ShaderDef

open Text

/-- Tokens handed out one by one. Once there is none, the cursor is not asked again. -/
structure Listing where
  cursor : Cursor
  done : Bool := false

namespace Listing

def next (l : Listing) : Option Token × Listing :=
  if l.done then (none, l)
  else if l.cursor.next.1.isEnd then (none, ⟨l.cursor.next.2, true⟩)
  else (some l.cursor.next.1, ⟨l.cursor.next.2, false⟩)

def after : Nat → Listing → Listing
  | 0, l => l
  | n + 1, l => after n l.next.2

theorem after_of_done {l : Listing} (done : l.done = true) (n : Nat) : l.after n = l := by
  induction n with
  | zero => rfl
  | succ n ih =>
    have same : l.next.2 = l := by rw [next, if_pos done]
    rw [after, same, ih]

/-- The requests are answered by the tokens that the cursor lists, and then by nothing. -/
theorem next_after (c : Cursor) (i : Nat) :
    ((after i ⟨c, false⟩).next).1 = c.tokens[i]? := by
  induction i generalizing c with
  | zero =>
    rw [after, next]
    cases all : c.tokens with
    | nil => simp [Cursor.isEnd_of_tokens_eq_nil all]
    | cons t ts =>
      obtain ⟨rfl, more, _⟩ := Cursor.tokens_eq_cons all
      simp [more]
  | succ i ih =>
    rw [after]
    cases all : c.tokens with
    | nil =>
      have ended : (next ⟨c, false⟩).2 = ⟨c.next.2, true⟩ := by
        simp [next, Cursor.isEnd_of_tokens_eq_nil all]
      rw [ended, after_of_done rfl]
      rfl
    | cons t ts =>
      obtain ⟨_, more, rest⟩ := Cursor.tokens_eq_cons all
      have goes : (next ⟨c, false⟩).2 = ⟨c.next.2, false⟩ := by simp [next, more]
      rw [goes, ih, rest, List.getElem?_cons_succ]

end Listing

namespace Cursor

variable {c : Cursor} {source : String}

/-- A step takes a piece off the front, and it takes something unless it gives the end. -/
theorem next_takes (c : Cursor) : ∃ piece, c.rest = piece ++ c.next.2.rest ∧
    c.next.2.offset = c.offset + size piece ∧ (c.next.1.isEnd = false → piece ≠ []) := by
  have reads : ∀ d : Cursor, ∃ piece, d.rest = piece ++ d.read.2.rest ∧
      d.read.2.offset = d.offset + size piece ∧ (d.read.1.isEnd = false → piece ≠ []) := by
    intro d
    cases front : d.rest with
    | nil => exact ⟨[], by simp [read, front, finish], by simp [read, front, finish],
        by simp [read, front, finish]⟩
    | cons ch cs =>
      obtain ⟨pending, taken⟩ := read_eq front
      obtain ⟨whole, covered⟩ := Lexeme.front_divides (c := ch) cs
      rw [taken]
      exact ⟨_, whole.symm, rfl, fun _ => covered⟩
  cases known : c.pending with
  | ended => exact ⟨[], by simp [next, known, finish], by simp [next, known, finish],
      by simp [next, known, finish]⟩
  | foreign =>
    rw [next, known]
    exact reads c
  | clear =>
    rw [next, known]
    obtain ⟨piece, split, place, more⟩ := reads c.skipSpaces
    refine ⟨c.rest.takeWhile isSpace ++ piece, ?_, ?_, fun kept => ?_⟩
    · rw [List.append_assoc, ← split]
      exact List.takeWhile_append_dropWhile.symm
    · rw [place, size_append, ← Nat.add_assoc]
      rfl
    · exact List.append_ne_nil_of_right_ne_nil _ (more kept)

def Over (source : String) (c : Cursor) : Prop :=
  ∃ before, source.toList = before ++ c.rest ∧ size before = c.offset

theorem over_start (source : String) : (start source).Over source :=
  ⟨[], rfl, rfl⟩

theorem Over.next (within : c.Over source) : c.next.2.Over source := by
  obtain ⟨before, whole, place⟩ := within
  obtain ⟨piece, split, moved, _⟩ := c.next_takes
  refine ⟨before ++ piece, ?_, ?_⟩
  · rw [whole, split, List.append_assoc]
  · rw [size_append, place, moved]

theorem Over.reach (within : c.Over source) : c.offset + size c.rest = size source.toList := by
  obtain ⟨before, whole, place⟩ := within
  rw [whole, size_append, place]

theorem Over.ahead (within : c.Over source) (n : Nat) : (c.ahead n).Over source := by
  induction n generalizing c with
  | zero => exact within
  | succ n ih => exact ih within.next

structure Settled (source : String) (c : Cursor) : Prop where
  boundary : c.Over source
  foreign : c.pending = .foreign →
    ∃ ch ∈ c.rest.head?, isPrintable ch = false ∧ isSpace ch = false
  ended : c.pending = .ended → c.offset = size source.toList

theorem Settled.of_sound (sound : c.Sound) (within : c.Over source) : c.Settled source where
  boundary := within
  foreign := by
    intro known
    obtain ⟨ch, cs, front, foreign⟩ := sound.foreign known
    refine ⟨ch, by rw [front]; rfl, ?_⟩
    simpa only [isForeign, Bool.and_eq_true, Bool.not_eq_true'] using foreign
  ended := by
    intro known
    rw [← within.reach, sound.ended known, size_nil, Nat.add_zero]

theorem Settled.offset_le (settled : c.Settled source) : c.offset ≤ size source.toList :=
  settled.boundary.reach ▸ Nat.le_add_right _ _

theorem ahead_sound (sound : c.Sound) (n : Nat) : (c.ahead n).Sound := by
  induction n generalizing c with
  | zero => exact sound
  | succ n ih => exact ih (next_sound sound)

theorem ahead_succ (c : Cursor) (n : Nat) : c.ahead (n + 1) = (c.ahead n).next.2 := by
  induction n generalizing c with
  | zero => rfl
  | succ n ih => exact ih c.next.2

theorem settled_ahead (source : String) (n : Nat) : ((start source).ahead n).Settled source :=
  .of_sound (ahead_sound (start_sound source) n) ((over_start source).ahead n)

theorem next_of_ended (known : c.pending = .ended) : c.next = (.finish c.offset, c) := by
  obtain ⟨rest, offset, pending⟩ := c
  obtain rfl := known
  rfl

theorem pending_of_end (sound : c.Sound) (last : c.next.1.isEnd = true) :
    c.next.2.pending = .ended := by
  obtain ⟨d, reads, solid, _⟩ := next_eq_read sound
  rw [reads] at last ⊢
  cases front : d.rest with
  | nil => simp [read, front, finish]
  | cons ch cs =>
    obtain ⟨pending, taken⟩ := read_eq front
    have form := Lexeme.front_form cs (solid ch (by simp [front]))
    rw [taken, Token.isEnd_iff] at last
    exact absurd last form.kind_ne_end

theorem ahead_of_ended (known : c.pending = .ended) (n : Nat) : c.ahead n = c := by
  induction n with
  | zero => rfl
  | succ n ih => rw [ahead, next_of_ended known, ih]

theorem tokens_next (sound : c.Sound) : c.next.2.tokens = c.tokens.tail := by
  cases all : c.tokens with
  | nil =>
    have known := pending_of_end sound (isEnd_of_tokens_eq_nil all)
    rw [tokens, next_of_ended known]
    simp
  | cons t ts => exact (tokens_eq_cons all).2.2

/-- Behind some of its tokens a cursor lists the others. -/
theorem tokens_ahead (sound : c.Sound) (n : Nat) : (c.ahead n).tokens = c.tokens.drop n := by
  induction n generalizing c with
  | zero => rfl
  | succ n ih => rw [ahead, ih (next_sound sound), tokens_next sound, List.drop_tail]

/-- Behind the end a cursor gives the end again and stays as it is. -/
theorem next_ahead_of_end (sound : c.Sound) (last : c.next.1.isEnd = true) (m : Nat) :
    (c.next.2.ahead m).next = (.finish (c.offset + size c.rest), c.next.2) := by
  have known := pending_of_end sound last
  have none := (next_sound sound).ended known
  have reach := next_reach sound
  rw [none, size_nil, Nat.add_zero] at reach
  rw [ahead_of_ended known, next_of_ended known, reach]

theorem next_moves (more : c.next.1.isEnd = false) : c.offset < c.next.2.offset := by
  obtain ⟨piece, _, place, taken⟩ := c.next_takes
  have positive := size_pos (taken more)
  omega

/-- A cursor that has not come to the end has moved with each of its tokens. -/
theorem offset_ahead (sound : c.Sound) {n : Nat} (more : (c.ahead n).next.1.isEnd = false) :
    c.offset + n ≤ (c.ahead n).offset := by
  induction n generalizing c with
  | zero => exact Nat.le_refl _
  | succ n ih =>
    rw [ahead] at more ⊢
    have later := ih (next_sound sound) more
    cases first : c.next.1.isEnd with
    | true =>
      rw [next_ahead_of_end sound first] at more
      simp at more
    | false =>
      have moved := next_moves first
      omega

/-- A place that a cursor comes to: it is settled there, moves on with every token, stays where it
has given the end, and the tokens left are handed out one by one. -/
structure Steady (source : String) (c : Cursor) : Prop extends Settled source c where
  within : c.offset ≤ size source.toList
  moves : c.next.1.isEnd = false → c.offset < c.next.2.offset
  stays : c.next.1.isEnd = true →
    c.next.1 = .finish (size source.toList) ∧ c.next.2.pending = .ended ∧
      ∀ m, (c.next.2.ahead m).next = (.finish (size source.toList), c.next.2)
  lists : ∀ i, (Listing.after i ⟨c, false⟩).next.1 = c.tokens[i]?
  exhausted : ∀ i j, i ≤ j → (Listing.after i ⟨c, false⟩).next.1 = none →
    (Listing.after j ⟨c, false⟩).next.1 = none

/-- Every cursor that is reached from the start of a source is steady, and the end is given after
at most one token for each byte. -/
theorem steady_ahead (source : String) (n : Nat) :
    ((start source).ahead n).Steady source ∧
      (size source.toList ≤ n → ((start source).ahead n).next.1.isEnd = true) := by
  have sound := ahead_sound (start_sound source) n
  have settled := settled_ahead source n
  have reach := settled.boundary.reach
  constructor
  · refine
      { settled with
        within := settled.offset_le
        moves := next_moves
        stays := fun last => ⟨?_, pending_of_end sound last, fun m => ?_⟩
        lists := fun i => Listing.next_after _ i
        exhausted := fun i j later none => ?_ }
    · rw [next_eq_finish sound last, reach]
    · rw [next_ahead_of_end sound last, reach]
    · rw [Listing.next_after, List.getElem?_eq_none_iff] at none ⊢
      exact Nat.le_trans none later
  · intro enough
    by_contra more
    rw [Bool.not_eq_true] at more
    have passed := offset_ahead (start_sound source) more
    have moved := next_moves more
    have bound := (settled_ahead source (n + 1)).offset_le
    rw [ahead_succ] at bound
    omega

end Cursor

end ShaderDef
