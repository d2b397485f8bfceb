import ShaderDef.Cursor
import ShaderDef.Proofs.Lexical.Reading

/-! Scanning: the tokens of a text, lexeme after lexeme. This is what a cursor lists, for what it
knows of its place is only what stands there. -/

namespace ShaderDef

open Text

namespace Token

def shift (by' : Nat) (t : Token) : Token :=
  { t with index := t.index + by' }

@[simp] theorem kind_shift (n : Nat) (t : Token) : (t.shift n).kind = t.kind := rfl

def scan (offset : Nat) : List Char → List Token
  | [] => []
  | c :: cs =>
    if isSpace c then scan (offset + c.utf8Size) cs
    else
      ⟨(Lexeme.front c cs).kind, offset, String.ofList (Lexeme.front c cs).text⟩
        :: scan (offset + size (Lexeme.front c cs).raw) (Lexeme.front c cs).rest
termination_by cs => cs.length
decreasing_by
  · simp
  · exact (Lexeme.front_divides cs).length_rest_lt

@[simp] theorem scan_nil (offset : Nat) : scan offset [] = [] := by
  rw [scan]

theorem scan_space {c : Char} (space : isSpace c = true) (offset : Nat) (cs : List Char) :
    scan offset (c :: cs) = scan (offset + c.utf8Size) cs := by
  rw [scan, if_pos space]

theorem scan_front {c : Char} (solid : isSpace c = false) (offset : Nat) (cs : List Char) :
    scan offset (c :: cs) =
      ⟨(Lexeme.front c cs).kind, offset, String.ofList (Lexeme.front c cs).text⟩
        :: scan (offset + size (Lexeme.front c cs).raw) (Lexeme.front c cs).rest := by
  rw [scan, solid]
  rfl

/-- A lexeme of some form at the front of a text is its first token. -/
theorem scan_form {l : Lexeme} (form : Lexeme.Form l) (offset : Nat) :
    scan offset (l.raw ++ l.rest) =
      ⟨l.kind, offset, String.ofList l.text⟩ :: scan (offset + size l.raw) l.rest := by
  obtain ⟨c, w, covered, solid, read⟩ := form.reads
  rw [covered, List.cons_append, scan_front solid, read, covered]

/-- An operator that none continues is a token whatever follows. -/
theorem scan_mark {c : Char} {kind : Kind} (alone : Lexeme.Alone c kind) (offset : Nat)
    (rest : List Char) :
    scan offset (c :: rest) =
      ⟨kind, offset, String.ofList [c]⟩ :: scan (offset + c.utf8Size) rest := by
  have read := scan_form (alone.form rest) offset
  simpa [Lexeme.text, Lexeme.operator_ne_string _ alone.1] using read

theorem scan_skip (offset : Nat) (cs : List Char) :
    scan offset cs = scan (offset + size (cs.takeWhile isSpace)) (cs.dropWhile isSpace) := by
  induction cs generalizing offset with
  | nil => simp
  | cons c cs ih =>
    by_cases space : isSpace c = true
    · rw [scan_space space, ih]
      simp [space, Nat.add_assoc]
    · simp [space]

theorem scan_shift (offset by' : Nat) (cs : List Char) :
    scan (offset + by') cs = (scan offset cs).map (shift by') := by
  fun_induction scan offset cs with
  | case1 => simp
  | case2 offset c cs space ih =>
    rw [scan_space space, ← ih]
    congr 1
    omega
  | case3 offset c cs solid ih =>
    rw [scan_front (by simpa using solid), List.map_cons, ← ih]
    congr 2
    omega

theorem exists_form_of_mem_scan {offset : Nat} {cs : List Char} {t : Token}
    (member : t ∈ scan offset cs) :
    ∃ l, Lexeme.Form l ∧ t.kind = l.kind ∧ t.text = String.ofList l.text := by
  fun_induction scan offset cs with
  | case1 => simp at member
  | case2 offset c cs space ih => exact ih member
  | case3 offset c cs solid ih =>
    rcases List.mem_cons.1 member with rfl | behind
    · exact ⟨_, Lexeme.front_form cs (by simpa using solid), rfl, rfl⟩
    · exact ih behind

theorem index_of_mem_scan {offset : Nat} {cs : List Char} {t : Token}
    (member : t ∈ scan offset cs) : offset ≤ t.index ∧ t.index < offset + size cs := by
  fun_induction scan offset cs with
  | case1 => simp at member
  | case2 offset c cs space ih =>
    have bounds := ih member
    rw [size_cons]
    omega
  | case3 offset c cs solid ih =>
    have whole := congrArg size (Lexeme.front_divides (c := c) cs).split
    have covered := size_pos (Lexeme.front_divides (c := c) cs).nonempty
    rw [size_append] at whole
    rcases List.mem_cons.1 member with rfl | behind
    · simp only
      omega
    · have bounds := ih behind
      omega

theorem scan_ordered (offset : Nat) (cs : List Char) :
    (scan offset cs).Pairwise fun s t => s.index < t.index := by
  fun_induction scan offset cs with
  | case1 => exact .nil
  | case2 offset c cs space ih => exact ih
  | case3 offset c cs solid ih =>
    refine .cons ?_ ih
    intro t behind
    have covered := size_pos (Lexeme.front_divides (c := c) cs).nonempty
    have bounds := index_of_mem_scan behind
    simp only
    omega

end Token

namespace Cursor

structure Sound (c : Cursor) : Prop where
  foreign : c.pending = .foreign → ∃ ch cs, c.rest = ch :: cs ∧ isForeign ch = true
  ended : c.pending = .ended → c.rest = []

theorem start_sound (source : String) : (start source).Sound :=
  ⟨by simp [start], by simp [start]⟩

theorem after_sound (l : Lexeme) (offset : Nat) : Sound ⟨l.rest, offset, Pending.after l⟩ := by
  unfold Pending.after
  split
  · rename_i seen
    cases rest : l.rest with
    | nil => simp [rest] at seen
    | cons ch cs =>
      rw [rest] at seen
      exact ⟨fun _ => ⟨ch, cs, rfl, by simp_all⟩, by simp⟩
  · exact ⟨by simp, by simp⟩

theorem read_sound (c : Cursor) : c.read.2.Sound := by
  unfold read
  split
  · rename_i none
    exact ⟨by simp [finish], fun _ => none⟩
  · split
    · exact ⟨by simp [takeForeign], by simp [takeForeign]⟩
    · exact after_sound _ _

/-- At a character that is no white space a cursor takes the first lexeme. -/
theorem read_eq {c : Cursor} {ch : Char} {cs : List Char} (front : c.rest = ch :: cs) :
    ∃ pending, c.read =
      (⟨(Lexeme.front ch cs).kind, c.offset, String.ofList (Lexeme.front ch cs).text⟩,
        ⟨(Lexeme.front ch cs).rest, c.offset + size (Lexeme.front ch cs).raw, pending⟩) := by
  unfold read
  rw [front]
  by_cases foreign : isForeign ch = true
  · exact ⟨.clear, by simp [foreign, takeForeign, Lexeme.front, Lexeme.text]⟩
  · exact ⟨Pending.after (.read ch cs), by simp [foreign, take, Lexeme.front]⟩

theorem tokens_of_read {c d : Cursor} (reads : c.next = d.read)
    (solid : ∀ ch ∈ d.rest.head?, isSpace ch = false)
    (later : ∀ e : Cursor, e.Sound → e.rest.length < d.rest.length →
      e.tokens = Token.scan e.offset e.rest) : c.tokens = Token.scan d.offset d.rest := by
  rw [tokens, reads]
  cases front : d.rest with
  | nil => simp [read, front, finish]
  | cons ch cs =>
    have blank := solid ch (by simp [front])
    have form := Lexeme.front_form cs blank
    obtain ⟨pending, taken⟩ := read_eq front
    have more : d.read.1.isEnd = false := by
      simpa [taken, Token.isEnd] using form.kind_ne_end
    have rest := later d.read.2 (read_sound d) (read_shorter more)
    rw [dif_pos more, rest, taken, Token.scan_front blank]

/-- What a cursor lists is what a scan of the rest finds. -/
theorem tokens_eq_scan (c : Cursor) (sound : c.Sound) : c.tokens = Token.scan c.offset c.rest := by
  induction size : c.rest.length using Nat.strong_induction_on generalizing c with
  | _ n ih =>
    have later : ∀ d : Cursor, d.Sound → d.rest.length < c.rest.length →
        d.tokens = Token.scan d.offset d.rest :=
      fun d known shorter => ih _ (size ▸ shorter) d known rfl
    cases known : c.pending with
    | ended =>
      rw [tokens, sound.ended known]
      simp [next, known, finish]
    | foreign =>
      obtain ⟨ch, cs, front, foreign⟩ := sound.foreign known
      refine tokens_of_read (by simp [next, known]) ?_ later
      simpa [front] using isSpace_eq_false_of_isForeign foreign
    | clear =>
      rw [Token.scan_skip]
      refine tokens_of_read (d := c.skipSpaces) (by simp [next, known]) ?_ ?_
      · exact stops_dropWhile c.rest
      · intro d known shorter
        exact later d known (Nat.lt_of_lt_of_le shorter (length_dropWhile_le isSpace c.rest))

end Cursor

theorem Token.ofSource_eq_scan (source : String) : ofSource source = scan 0 source.toList :=
  Cursor.tokens_eq_scan _ (Cursor.start_sound source)

end ShaderDef
