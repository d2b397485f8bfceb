import ShaderDef.Proofs.Composition.Shift
import ShaderDef.Proofs.Lexical.Span
import ShaderDef.Proofs.Outline.Extension

/-! The first fault wins. Main statement: where a source is refused before its end, no text on a
later line repairs, replaces or moves the fault. -/

namespace ShaderDef

open Grammar Outline

variable {source : String} {f : Fault}

def Token.EndsInComment (source : String) : Prop :=
  ∃ t ∈ ofSource source, t.kind = .invalidComment ∧ t.stop = Text.size source.toList

/-- A malformed comment that is the last token runs to the end: only a foreign character could stop
it before, and that would be a token behind it. -/
theorem Token.stop_of_last {t : Token} (last : t ∈ (ofSource source).getLast?)
    (malformed : t.kind = .invalidComment) : t.stop = Text.size source.toList := by
  obtain ⟨before, split⟩ := List.getLast?_eq_some_iff.1 last
  rw [ofSource_eq_scan] at split
  obtain ⟨front, l, whole, form, rfl, behind⟩ := exists_lexeme_of_scan split
  have stops := form.stops_of_open malformed
  cases rest : l.rest with
  | nil =>
    rw [Token.stop, ← size_cover, form.cover_eq, whole, rest, Text.size_append, Text.size_append,
      Text.size_nil, Nat.add_zero, Nat.zero_add]
  | cons d ds =>
    have solid := Text.isSpace_eq_false_of_isForeign (stops d (by rw [rest]; rfl))
    rw [rest, scan_front solid] at behind
    simp at behind

theorem Token.finished_of_not_endsInComment (closed : ¬ EndsInComment source) :
    Finished (ofSource source) := by
  intro t last malformed
  exact closed ⟨t, List.mem_of_getLast? last, malformed, stop_of_last last malformed⟩

/-- Where a source is refused before its end, it is refused for the same cause and at the same place
whatever text follows on a later line. -/
theorem compile_append_of_error (closed : ¬ Token.EndsInComment source)
    (stopped : compile source = .error f) (early : f.index < Text.size source.toList)
    (more : String) : compile (source ++ "\n" ++ more) = .error f := by
  have finished := Token.finished_of_not_endsInComment closed
  rw [compile_eq_error, ofSource, Token.ofSource_join finished]
  exact ofTokens_append_of_error _ _ (compile_eq_error.1 stopped) (Nat.ne_of_lt early)

/-- A slot is missing at the end of a list, and the source ends in a line comment. -/
theorem compile_append_of_error_remark :
    let source := "Input \x7b a b : ; \x7d // PixelInput"
    let f : Fault := ⟨.misaligned "Input", 8⟩
    ¬ Token.EndsInComment source ∧ compile source = .error f ∧
      f.index < Text.size source.toList ∧
      compile (source ++ "\n" ++ "\x7b c : d; \x7d /* é") = .error f := by
  intro source f
  have closed : ¬ Token.EndsInComment source := by
    have none : ∀ t ∈ Token.ofSource source, t.kind ≠ .invalidComment := by decide +kernel
    rintro ⟨t, listed, malformed, _⟩
    exact none t listed malformed
  have stopped : compile source = .error f := by decide +kernel
  have early : f.index < Text.size source.toList := by decide +kernel
  exact ⟨closed, stopped, early, compile_append_of_error closed stopped early _⟩

end ShaderDef
