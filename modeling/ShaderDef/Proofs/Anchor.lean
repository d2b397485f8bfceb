import ShaderDef.Proofs.Grammar.Value
import ShaderDef.Proofs.Lexical.Tiling
import ShaderDef.Proofs.Outline.Opening

/-! Anchors: the token that a diagnostic is about. Main statement: where a source is refused, the
diagnostic has the index of one token, says of it what is true, and either no foreign byte stands
before it or it is the end. -/

namespace ShaderDef

open Text Outline
open Token (Native)

def Diagnostic.Fits (source : String) (d : Diagnostic) (t : Token) : Prop :=
  match d.kind with
  | .invalidToken => d.message = "Invalid token" ∧ t.kind.isInvalid = true
  | .unexpectedToken => ∃ expected : Token.Kind, expected.name ≠ t.kind.name ∧
      d.message = s!"Expected token {expected.name} got: {t.kind.name}"
  | .unterminatedScope => t.kind = .endOfFile
  | .alreadySet => ∃ item : Item, d.message = s!"{item.label} already set" ∧
      t.kind = item.keyword
  | .invalidSyntax => t.kind.isComment = false ∧ t.kind.isInvalid = false ∧
      ∃ label, d.message = s!"Invalid syntax for '{label}'" ∧
        Listed (size source.toList) (significant (Token.ofSource source)) label t
  | .unknownToken => t.kind.isComment = false ∧ t.kind.isInvalid = false ∧ t.kind ≠ .endOfFile

/-- A diagnostic is about one token: no other has its index, it says of that one what is true, and
no foreign byte stands before it unless it is the end. -/
structure Diagnostic.AnchoredAt (source : String) (d : Diagnostic) (t : Token) : Prop where
  listed : t ∈ Token.stream source
  place : t.index = d.index
  only : ∀ s ∈ Token.stream source, s.index = d.index → s = t
  fits : d.Fits source t
  clean : d.index = size source.toList ∨
    ∀ b ∈ (bytes source.toList).take d.index, isPrintableByte b = true ∨ isSpaceByte b = true

section Tokens

variable {size : Nat} {ts before behind : List Token} {t : Token} {f : Fault}

theorem solid_of_mem_significant (inside : t ∈ significant ts) : t.kind.isComment = false := by
  simpa using (List.mem_filter.1 inside).2

theorem blames_of_finish {listed : String → Token → Prop} {scope : Scope}
    (stopped : (finish size scope).result = .error f) : f.Blames listed size ts := by
  cases scope with
  | top => simp [finish] at stopped
  | bindings =>
    obtain rfl := Except.error.inj stopped
    exact .inr ⟨rfl, trivial⟩
  | shader =>
    obtain rfl := Except.error.inj stopped
    exact .inr ⟨rfl, by decide, rfl⟩

/-- A source is refused for one of its tokens that count, or for its end. -/
theorem blames_of_ofTokens (stopped : (ofTokens size ts).result = .error f) :
    f.Blames (Listed size (significant ts)) size (significant ts) := by
  have solid : ∀ t ∈ significant ts, t.kind.isComment = false :=
    fun t inside => solid_of_mem_significant inside
  rcases Reading.bind_eq_error.1 stopped with again | ⟨_, _, last⟩
  -- An item opened twice is blamed on an event, and the event on a step that the walk came to.
  · obtain ⟨front, item, index, rest, split, _, _, rfl⟩ := once_eq_error.1 again
    have told : .opens item index ∈ (walk size .top (significant ts)).events := by simp [split]
    obtain ⟨scope, t, rest, here, told⟩ := Reaches.start.tells told
    obtain ⟨taken, whole, native⟩ := here.behind solid
    obtain ⟨before, s, behind, split, native', kind, place⟩ := opens_of_step told
    rw [whole]
    exact .prepend native (.inl ⟨before, s, behind, split, native', place.symm, item, rfl, kind⟩)
  · rcases Reaches.start.stops last with ⟨scope, _, ended⟩ | ⟨scope, t, rest, here, stopped⟩
    · exact blames_of_finish ended
    · obtain ⟨taken, whole, native⟩ := here.behind solid
      have blames := (step_blames here stopped).prepend native
      rwa [← whole] at blames

/-- Comments between the tokens that count are not foreign either. -/
theorem split_of_significant (split : significant ts = before ++ t :: behind)
    (native : Native before) : ∃ front rest, ts = front ++ t :: rest ∧ Native front := by
  obtain ⟨left, right, rfl, rfl, same⟩ := List.filter_eq_append_iff.1 split
  obtain ⟨gap, rest, rfl, comments, _, _⟩ := List.filter_eq_cons_iff.1 same
  refine ⟨left ++ gap, rest, by simp, Token.native_append ?_ (Grammar.native_comments ?_)⟩
  · intro s inside foreign
    exact native s (List.mem_filter.2 ⟨inside, by simp [foreign, Token.Kind.isComment]⟩) foreign
  · simpa using comments

end Tokens

section Diagnostics

variable {source : String} {f : Fault} {t : Token}

/-- What the cause of a fault says of a token is what its diagnostic says. -/
theorem Fault.diagnostic_fits (solid : t.kind.isComment = false) (more : t.kind ≠ .endOfFile)
    (fits : f.cause.Fits (Listed (size source.toList) (significant (Token.ofSource source))) t) :
    f.diagnostic.Fits source t := by
  obtain ⟨cause, index⟩ := f
  cases cause with
  | invalid => exact ⟨rfl, fits⟩
  | unexpected expected found =>
    obtain ⟨other, rfl⟩ := fits
    exact ⟨expected, fun same => other (Token.Kind.name_injective same), rfl⟩
  | unknown => exact ⟨solid, fits, more⟩
  | unknownIn scope => exact ⟨solid, fits, more⟩
  | unterminated => exact fits.elim
  | alreadySet what =>
    obtain ⟨item, rfl, kind⟩ := fits
    exact ⟨item, rfl, kind⟩
  | misaligned label => exact ⟨solid, fits.1, label, rfl, fits.2⟩

theorem Fault.diagnostic_fits_end (last : t.kind = .endOfFile) (fits : f.cause.FitsEnd) :
    f.diagnostic.Fits source t := by
  obtain ⟨cause, index⟩ := f
  cases cause with
  | unexpected expected found =>
    obtain ⟨other, rfl⟩ := fits
    rw [← last] at other
    refine ⟨expected, fun same => other (Token.Kind.name_injective same), ?_⟩
    rw [last]
    rfl
  | unterminated => exact last
  | _ => exact fits.elim

/-- Where the tokens before one are not foreign, no byte before it is. -/
theorem clean_of_native {front rest : List Token}
    (split : Token.ofSource source = front ++ t :: rest) (native : Native front) :
    ∀ b ∈ (bytes source.toList).take t.index, isPrintableByte b = true ∨ isSpaceByte b = true := by
  have member : t ∈ Token.ofSource source := by simp [split]
  obtain ⟨before, behind, whole, place, _⟩ := Token.cover_of_mem member
  have cut : (bytes source.toList).take t.index = bytes before := by
    rw [whole, bytes_append, ← place, ← length_bytes before, List.take_left]
  intro b inside
  rw [cut] at inside
  have chars := Token.native_before split native whole place
  exact isForeignByte_eq_false_iff.1 (isForeignByte_of_mem_bytes chars b inside)

theorem anchoredAt_of_mem (listed : t ∈ Token.stream source) (place : f.index = t.index)
    (fits : f.diagnostic.Fits source t)
    (clean : f.index = size source.toList ∨ ∀ b ∈ (bytes source.toList).take f.index,
      isPrintableByte b = true ∨ isSpaceByte b = true) : f.diagnostic.AnchoredAt source t where
  listed := listed
  place := place.symm
  only := fun _ other same => Token.eq_of_index other listed (same.trans place)
  fits := fits
  clean := clean

/-- Every diagnostic of a source is about one of its tokens. -/
theorem compile_error_anchored (stopped : compile source = .error f) :
    ∃ t, f.diagnostic.AnchoredAt source t := by
  rcases blames_of_ofTokens (compile_eq_error.1 stopped) with
    ⟨before, t, behind, split, native, place, fits⟩ | ⟨place, fits⟩
  · have counts : t ∈ significant (Token.ofSource source) := by simp [split]
    have member : t ∈ Token.ofSource source := (List.mem_filter.1 counts).1
    obtain ⟨_, _, _, _, form⟩ := Token.cover_of_mem member
    obtain ⟨front, rest, whole, native⟩ := split_of_significant split native
    refine ⟨t, anchoredAt_of_mem (List.mem_append_left _ member) place ?_ (.inr ?_)⟩
    · exact Fault.diagnostic_fits (solid_of_mem_significant counts) form.kind_ne_end fits
    · rw [place]
      exact clean_of_native whole native
  · have listed : .finish (size source.toList) ∈ Token.stream source := by simp [Token.stream]
    exact ⟨_, anchoredAt_of_mem listed place (Fault.diagnostic_fits_end rfl fits) (.inl place)⟩

/-- An entry without a slot, whose first token is blamed for the list. -/
theorem compile_error_anchored_list :
    let source := "Input \x7b a b : 0; c \x7d"
    let f : Fault := ⟨.misaligned "Input", 17⟩
    compile source = .error f ∧ ∃ t, f.diagnostic.AnchoredAt source t := by
  intro source f
  have stopped : compile source = .error f := by decide +kernel
  exact ⟨stopped, compile_error_anchored stopped⟩

end Diagnostics

end ShaderDef
