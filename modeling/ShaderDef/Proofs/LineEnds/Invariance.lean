import ShaderDef.Proofs.LineEnds.Display
import ShaderDef.Proofs.Output
import ShaderDef.Proofs.Trivia

/-! Invariance under line ends. Main statement: with a carriage return before each line feed a
source declares the same, but for the line ends in the code of its stages, or it is refused for the
same and with the same report. -/

namespace ShaderDef

open Text Outline
open List (Forall₂)

namespace Text

variable {cs : List Char} {i j k l : Nat}

theorem utf8Size_of_native {c : Char} (native : isForeign c = false) : c.utf8Size = 1 := by
  have ascii : c.toNat < 128 := by
    by_contra wide
    rw [(class_of_wide (Nat.not_lt.1 wide)).2] at native
    contradiction
  exact Char.utf8Size_eq_one_iff.2 (UInt32.le_iff_toNat_le.2 (Nat.le_of_lt_succ ascii))

theorem slice_eq_nil {start stop : Nat} (ordered : stop ≤ start) (cs : List Char) :
    slice start stop cs = [] := by
  rw [slice, Nat.sub_eq_zero_of_le ordered, takeBytes_zero]

/-- What stands behind the first character of a token, up to a token. -/
theorem slice_crlf (native : ∀ c ∈ cs, isForeign c = false) (opened : Facing cs i j)
    (closed : Facing cs k l) : slice (j + 1) l (crlf cs) = crlf (slice (i + 1) k cs) := by
  obtain ⟨front, rest, rfl, rfl, rfl, solid⟩ := opened
  obtain ⟨front', rest', same, rfl, rfl, _⟩ := closed
  rcases List.append_eq_append_iff.1 same with ⟨mid, rfl, rfl⟩ | ⟨mid, rfl, _⟩
  · cases mid with
    | nil => rw [List.append_nil, slice_eq_nil (by omega), slice_eq_nil (by omega), crlf_nil]
    | cons c mid =>
      have inline : c ≠ '\n' := by
        rintro rfl
        exact absurd (solid '\n' rfl) (by decide)
      have width : c.utf8Size = 1 := utf8Size_of_native (native c (by simp))
      have cut := slice_append (front ++ [c]) mid rest'
      have cut' := slice_append (crlf front ++ [c]) (crlf mid) (crlf rest')
      simp only [size_append, size_cons, size_nil, width, List.append_assoc, List.singleton_append,
        Nat.add_zero, Nat.add_assoc] at cut cut'
      simp only [crlf_append, crlf_cons inline, size_append, size_cons, width, List.cons_append,
        cut, cut']
  · -- The second place is not behind the first one, and neither is it with other line ends.
    rw [slice_eq_nil, slice_eq_nil, crlf_nil]
    · rw [size_append]
      omega
    · rw [crlf_append, size_append]
      omega

end Text

variable {source : String}

theorem Event.code?_crlf {e e' : Event} (native : NativeText source) (stage : Stage)
    (alike : e.Alike (Facing source.toList) e') :
    e'.code? (crlf source) stage = (e.code? source stage).map crlf := by
  cases alike with
  | opens => rfl
  | code other opened closed =>
    simp only [code?]
    split
    · rw [toList_crlf, slice_crlf native opened closed, Option.map_some, crlf, String.toList_ofList]
    · rfl
  | same free => rw [code?_of_free free, code?_of_free free, Option.map_none]

theorem Definition.code_crlf {es fs : List Event} (native : NativeText source) (stage : Stage)
    (alike : Forall₂ (Event.Alike (Facing source.toList)) es fs) :
    (ofEvents (crlf source) fs).sources.code stage =
      ((ofEvents source es).sources.code stage).map crlf := by
  rw [code_ofEvents, code_ofEvents, List.map_findSome?]
  exact (Event.findSome?_alike (fun _ _ same => (Event.code?_crlf native stage same).symm)
    alike).symm

/-- The tokens that count are alike, and so is all that is read from them. -/
theorem Outline.ofSource_crlf (source : String) :
    Reading.Alike (Facing source.toList) (fun _ _ => True) (ofSource source)
      (ofSource (crlf source)) := by
  have tokens := Token.scan_crlf_alike [] source.toList
  rw [List.nil_append, crlf_nil, size_nil, ← Token.ofSource_eq_scan, ← toList_crlf,
    ← Token.ofSource_eq_scan] at tokens
  have ends := Token.facing_end source.toList
  rw [← toList_crlf] at ends
  exact ofTokens_alike ends tokens

/-- Line ends show in the code of the stages and nowhere else. -/
theorem compile_crlf (source : String) :
    (∀ d, compile source = .ok d → ∃ d', compile (crlf source) = .ok d' ∧
      d'.interface = d.interface ∧
      ∀ stage, d'.sources.code stage = (d.sources.code stage).map crlf) ∧
    (∀ f, compile source = .error f → ∃ f', compile (crlf source) = .error f' ∧
      f'.diagnostic.kind = f.diagnostic.kind ∧ f'.diagnostic.message = f.diagnostic.message ∧
      (Compiler.ofSource (crlf source)).locate f'.diagnostic.index =
        (Compiler.ofSource source).locate f.diagnostic.index ∧
      ∀ filename, (Compiler.ofSource (crlf source)).explain f'.diagnostic filename =
        (Compiler.ofSource source).explain f.diagnostic filename) := by
  obtain ⟨result, events⟩ := ofSource_crlf source
  constructor
  · intro d ok
    have native := native_of_compile ok
    obtain ⟨done, rfl⟩ := compile_eq_ok.1 ok
    rw [done] at result
    generalize done' : (ofSource (crlf source)).result = r at result
    obtain ⟨_⟩ := result
    refine ⟨_, compile_eq_ok.2 ⟨done', rfl⟩, (Definition.interface_alike events).symm, ?_⟩
    exact fun stage => Definition.code_crlf native stage events
  · intro f stopped
    rw [compile_eq_error.1 stopped] at result
    generalize stopped' : (ofSource (crlf source)).result = r at result
    cases result with
    | @error _ f' alike =>
      have kind : f'.diagnostic.kind = f.diagnostic.kind :=
        congrArg Fault.Cause.kind alike.cause.symm
      have message : f'.diagnostic.message = f.diagnostic.message :=
        congrArg Fault.Cause.message alike.cause.symm
      refine ⟨f', compile_eq_error.2 stopped', kind, message,
        Location.ofOffset_crlf alike.place, fun filename => ?_⟩
      exact (Diagnostic.report_crlf kind message alike.place filename).render

theorem compile_crlf_lines :
    (∃ d d', compile "Shader \x7b Vertex \x7b\n a /*\n*/ \x7d \x7d" = .ok d ∧
      compile (crlf "Shader \x7b Vertex \x7b\n a /*\n*/ \x7d \x7d") = .ok d' ∧
      d.sources.vertex = some "\n a /*\n*/ " ∧ d'.sources.vertex = some "\r\n a /*\r\n*/ ") ∧
    ∃ f', compile (crlf "Name\n  ;\n") = .error f' ∧
      f'.diagnostic.message = "Expected token StringLiteral got: Semicolon" ∧
      (Compiler.ofSource (crlf "Name\n  ;\n")).locate f'.diagnostic.index = ⟨2, 3⟩ ∧
      (Compiler.ofSource (crlf "Name\n  ;\n")).explain f'.diagnostic "a" =
        (Compiler.ofSource "Name\n  ;\n").explain ⟨.unexpectedToken,
          "Expected token StringLiteral got: Semicolon", 7⟩ "a" := by
  have ok : compile "Shader \x7b Vertex \x7b\n a /*\n*/ \x7d \x7d" =
      .ok { sources := { vertex := some "\n a /*\n*/ " } } := by decide +kernel
  have stopped : compile "Name\n  ;\n" =
      .error ⟨.unexpected .stringLiteral .semicolon, 7⟩ := by decide +kernel
  obtain ⟨d', ok', _, code⟩ := (compile_crlf _).1 _ ok
  obtain ⟨f', stopped', _, message, place, report⟩ := (compile_crlf _).2 _ stopped
  refine ⟨⟨_, d', ok, ok', rfl, ?_⟩, f', stopped', message, place.trans (by decide), report "a"⟩
  exact (code .vertex).trans (by decide)

end ShaderDef
