import ShaderDef.Proofs.Composition.FirstFault
import ShaderDef.Proofs.Lexical.Progress
import ShaderDef.Proofs.Lexical.Tiling

/-! Locality of lexing. Main statements: wherever a cursor has come to, it reads on as a new cursor
would in the text from there on, whatever it has learned on its way; and a line feed separates the
tokens of two texts if and only if the first one does not end inside a block comment. -/

namespace ShaderDef

open Text

namespace Cursor

def shift (n : Nat) (c : Cursor) : Cursor :=
  { c with offset := c.offset + n }

variable {c d : Cursor}

theorem read_shift (n : Nat) (c : Cursor) :
    (c.shift n).read = (c.read.1.shift n, c.read.2.shift n) := by
  obtain ⟨rest, offset, pending⟩ := c
  cases rest with
  | nil => rfl
  | cons ch cs =>
    by_cases foreign : isForeign ch = true
    · simp [shift, read, foreign, takeForeign, Token.shift, Nat.add_right_comm]
    · simp [shift, read, foreign, take, Token.shift, Nat.add_right_comm]

/-- A step does not depend on how much stands before the place. -/
theorem next_shift (n : Nat) (c : Cursor) :
    (c.shift n).next = (c.next.1.shift n, c.next.2.shift n) := by
  have same : (c.shift n).pending = c.pending := rfl
  unfold next
  rw [same]
  cases c.pending with
  | clear =>
    have skipped : (c.shift n).skipSpaces = c.skipSpaces.shift n := by
      simp [shift, skipSpaces, Nat.add_right_comm]
    simp only [skipped, read_shift]
  | foreign => exact read_shift n c
  | ended => rfl

theorem ahead_shift (n m : Nat) (c : Cursor) : (c.shift n).ahead m = (c.ahead m).shift n := by
  induction m generalizing c with
  | zero => rfl
  | succ m ih => rw [ahead, ahead, next_shift, ih]

/-- Reading looks at the text and the offset only. -/
theorem read_of_place (rest : c.rest = d.rest) (place : c.offset = d.offset) : c.read = d.read := by
  obtain ⟨cs, offset, pending⟩ := c
  obtain ⟨cs', offset', pending'⟩ := d
  obtain rfl := rest
  obtain rfl := place
  cases cs with
  | nil => rfl
  | cons ch cs => rfl

/-- Where what is known is true there is no white space to skip, or all of it is skipped. -/
theorem next_of_sound (sound : c.Sound) : c.next = c.skipSpaces.read := by
  cases known : c.pending with
  | clear => rw [next, known]
  | foreign =>
    obtain ⟨ch, cs, front, foreign⟩ := sound.foreign known
    have solid := isSpace_eq_false_of_isForeign foreign
    rw [next, known]
    exact read_of_place (by simp [skipSpaces, front, solid]) (by simp [skipSpaces, front, solid])
  | ended =>
    have none := sound.ended known
    rw [next, known]
    simp [read, skipSpaces, finish, none]

/-- What a cursor knows of its place adds nothing to the place. -/
theorem next_of_place (sound : c.Sound) (sound' : d.Sound) (rest : c.rest = d.rest)
    (place : c.offset = d.offset) : c.next = d.next := by
  rw [next_of_sound sound, next_of_sound sound']
  exact read_of_place (by simp [skipSpaces, rest]) (by simp [skipSpaces, rest, place])

theorem next_ahead_of_place (sound : c.Sound) (sound' : d.Sound) (rest : c.rest = d.rest)
    (place : c.offset = d.offset) (m : Nat) : (c.ahead m).next = (d.ahead m).next := by
  have first := next_of_place sound sound' rest place
  cases m with
  | zero => exact first
  | succ m => rw [ahead, ahead, first]

/-- Cursors over one source that stand at one offset have the same text before them. -/
theorem Over.rest_eq {source : String} (within : c.Over source) (within' : d.Over source)
    (place : c.offset = d.offset) : c.rest = d.rest := by
  obtain ⟨before, whole, reach⟩ := within
  obtain ⟨before', whole', reach'⟩ := within'
  have cut := dropBytes_size_append before c.rest
  rw [← whole, whole', reach, place, ← reach', dropBytes_size_append] at cut
  exact cut.symm

/-- A cursor over a source stands at the front of the text `after`, and goes on as a new cursor over
that text does, moved by the bytes before it. -/
structure Restarts (source before after : String) (c : Cursor) : Prop where
  split : source = before ++ after
  place : size before.toList = c.offset
  steps : ∀ m, (c.ahead m).next =
    (((start after).ahead m).next.1.shift c.offset, ((start after).ahead m).next.2.shift c.offset)
  stream : c.tokens ++ [.finish (size source.toList)] =
    (Token.stream after).map (Token.shift c.offset)

theorem Over.restarts {source : String} (within : c.Over source) (sound : c.Sound) :
    ∃ before after, c.Restarts source before after := by
  have reach := within.reach
  obtain ⟨before, whole, place⟩ := within
  have front : c.rest = (start (String.ofList c.rest)).rest := String.toList_ofList.symm
  have fresh : ((start (String.ofList c.rest)).shift c.offset).Sound :=
    ⟨by simp [shift, start], by simp [shift, start]⟩
  refine ⟨String.ofList before, String.ofList c.rest, ?_, ?_, fun m => ?_, ?_⟩
  · rw [← String.ofList_append, ← whole, String.ofList_toList]
  · rw [String.toList_ofList, place]
  · rw [← next_shift, ← ahead_shift]
    exact next_ahead_of_place sound fresh front (Nat.zero_add _).symm m
  · have stop : (Token.finish (size c.rest)).shift c.offset = .finish (size source.toList) := by
      rw [← reach, Nat.add_comm]
      rfl
    rw [Token.stream, Token.ofSource_eq_scan, String.toList_ofList, List.map_append,
      ← Token.scan_shift, Nat.zero_add, tokens_eq_scan c sound, List.map_singleton, stop]

/-- However many tokens a cursor has given, it goes on as a new cursor does in the text from there
on, and so does every cursor that has come to the same offset of the source. -/
theorem ahead_local (source : String) (n : Nat) :
    (∃ before after, ((start source).ahead n).Restarts source before after) ∧
      ∀ k, ((start source).ahead k).offset = ((start source).ahead n).offset →
        ∀ m, (((start source).ahead k).ahead m).next = (((start source).ahead n).ahead m).next := by
  have sound : ∀ k, ((start source).ahead k).Sound := ahead_sound (start_sound source)
  have within : ∀ k, ((start source).ahead k).Over source := (over_start source).ahead
  refine ⟨(within n).restarts (sound n), fun k place => ?_⟩
  exact next_ahead_of_place (sound k) (sound n) ((within k).rest_eq (within n) place) place

end Cursor

namespace Token

/-- What follows an open block comment in its source starts with a foreign character, if at all. -/
theorem foreign_behind_open {source : String} {before cs : List Char} {t : Token}
    (member : t ∈ ofSource source) (malformed : t.kind = .invalidComment)
    (whole : source.toList = before ++ (t.cover ++ cs)) (place : size before = t.index) :
    ∀ d ∈ cs.head?, isForeign d = true := by
  obtain ⟨before', behind, whole', place', form⟩ := cover_of_mem member
  have cut := dropBytes_size_append (before ++ t.cover) cs
  have cut' := dropBytes_size_append (before' ++ t.cover) behind
  rw [List.append_assoc, size_append] at cut cut'
  rw [← whole, place] at cut
  rw [← whole', place', cut] at cut'
  exact cut' ▸ form.stops_of_open malformed

/-- The tokens of two texts joined by a line feed are those of the first and, moved behind it, those
of the second, unless a block comment of the first one is open at its end. -/
theorem ofSource_join_iff (a b : String) :
    ofSource (a ++ "\n" ++ b) = ofSource a ++ (ofSource b).map (shift (size a.toList + 1)) ↔
      ∀ t ∈ (ofSource a).getLast?, ¬ (t.kind = .invalidComment ∧ t.stop = size a.toList) := by
  constructor
  · rintro joined t last ⟨malformed, stop⟩
    have member : t ∈ ofSource a := List.mem_of_getLast? last
    have member' : t ∈ ofSource (a ++ "\n" ++ b) := joined ▸ List.mem_append_left _ member
    obtain ⟨before, behind, whole, place, _⟩ := cover_of_mem member
    -- The comment reaches the end of the first text, so that in the joined text it stands right
    -- before the line feed, which ends no block comment.
    have none : behind = [] := by
      by_contra some
      have positive := size_pos some
      have extent := congrArg size whole
      rw [size_append, size_append, size_cover, place] at extent
      rw [Token.stop] at stop
      omega
    have whole' : (a ++ "\n" ++ b).toList = before ++ (t.cover ++ '\n' :: b.toList) := by
      rw [toList_join, whole, none]
      simp
    exact absurd (foreign_behind_open member' malformed whole' place '\n' rfl) (by decide)
  · intro closed
    have finished : Grammar.Finished (ofSource a) := fun t last malformed =>
      closed t last ⟨malformed, stop_of_last last malformed⟩
    exact ofSource_join finished b

end Token

end ShaderDef
