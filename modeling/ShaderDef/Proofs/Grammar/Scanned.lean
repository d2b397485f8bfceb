import ShaderDef.Proofs.Grammar.Braces

/-! What a scan of a scope takes: the shortest tokens that end with a closing brace too many or with
the end of the source. While it goes on, the braces that are open in what it has taken are counted
by the depth of a block. -/

namespace ShaderDef

namespace Grammar

variable {all scope body rest front : List Token} {t close finish : Token} {depth : Nat}

def Final (ts : List Token) : Prop :=
  openings ts < closings ts ∨ ∃ t ∈ ts.getLast?, t.isEnd = true

structure Scanned (all scope : List Token) : Prop where
  within : scope <+: all
  ends : Final scope
  shortest : ∀ front, front <+: all → Final front → scope <+: front
  nested : ∀ front, front <+: scope → front ≠ scope → closings front ≤ openings front
  closed : (∃ front, front <+: all ∧ openings front < closings front) →
    ∃ body close, scope = body ++ [close] ∧ close.kind = .rightBrace ∧ Balanced body
  unclosed : (∀ front, front <+: all → closings front ≤ openings front) → scope = all

/-- Tokens that open `depth` scopes more than they close, and never close one more than they have
opened. No end is among them. -/
structure Open (depth : Nat) (ts : List Token) : Prop where
  nested : ∀ front, front <+: ts → closings front ≤ openings front
  depth : openings ts = closings ts + depth
  more : ∀ t ∈ ts, t.isEnd = false

theorem open_nil : Open 0 [] where
  nested front within := by simp [List.prefix_nil.1 within, closings, openings]
  depth := rfl
  more t member := absurd member List.not_mem_nil

theorem Open.balanced (level : Open 0 body) : Balanced body :=
  ⟨level.nested, level.depth.symm⟩

/-- A token keeps to the counter of a scan, unless it closes a scope when none is open. -/
theorem Open.concat (level : Open depth body) (more : t.isEnd = false)
    (inside : ¬ (t.kind = .rightBrace ∧ depth = 0)) : Open (t.kind.nest depth) (body ++ [t]) := by
  have counted : openings (body ++ [t]) = closings (body ++ [t]) + t.kind.nest depth := by
    have before := level.depth
    rw [openings_append, closings_append, openings_singleton, closings_singleton]
    by_cases left : t.kind = .leftBrace
    · simp only [left, Token.Kind.nest, reduceCtorEq, if_true, if_false]
      omega
    · by_cases right : t.kind = .rightBrace
      · have positive : depth ≠ 0 := fun none => inside ⟨right, none⟩
        simp only [right, Token.Kind.nest, reduceCtorEq, if_true, if_false]
        omega
      · simpa [left, right, Token.Kind.nest_other] using before
  refine ⟨fun front within => ?_, counted, ?_⟩
  · rcases List.prefix_concat_iff.1 within with rfl | early
    · omega
    · exact level.nested front early
  · simpa [or_imp, forall_and, more] using level.more

theorem Open.not_ends (level : Open depth body) (within : front <+: body) : ¬ Final front := by
  rintro (fewer | ⟨t, last, ended⟩)
  · have enough := level.nested front within
    omega
  · simp [level.more t (within.subset (List.mem_of_getLast? last))] at ended

/-- A scan that nothing has stopped so far takes the next token too. -/
theorem Open.prefix_of_ends (level : Open depth body) (early : front <+: body ++ t :: rest)
    (stops : Final front) : body ++ [t] <+: front := by
  have within : body ++ [t] <+: body ++ t :: rest := ⟨rest, by simp⟩
  rcases List.prefix_or_prefix_of_prefix early within with short | long
  · rcases List.prefix_concat_iff.1 short with rfl | shorter
    · exact List.prefix_refl _
    · exact absurd stops (level.not_ends shorter)
  · exact long

theorem Open.nested_concat (level : Open depth body) (within : front <+: body ++ [t])
    (proper : front ≠ body ++ [t]) : closings front ≤ openings front :=
  (List.prefix_concat_iff.1 within).elim (absurd · proper) (level.nested front)

/-- No brace of open tokens closes a block. -/
theorem Open.split (level : Open depth body) : Block.split 0 body = (body, []) := by
  have whole := Block.split_append 0 body
  rcases found : Block.split 0 body with ⟨front, _ | ⟨close, rest⟩⟩
  · rw [found, List.append_nil] at whole
    exact Prod.ext whole rfl
  · obtain ⟨nested, closed⟩ := Block.nested_of_split found
    rw [found] at whole
    have fewer := level.nested (front ++ [close]) ⟨rest, by simpa using whole⟩
    rw [openings_append, closings_append, openings_singleton, closings_singleton,
      nested.closed, if_pos closed, if_neg (by simp [closed])] at fewer
    omega

theorem Open.unmatched (level : Open 0 body) (closed : close.kind = .rightBrace) :
    openings (body ++ [close]) < closings (body ++ [close]) := by
  have same := level.depth
  simp only [openings_append, closings_append, openings_singleton, closings_singleton, closed,
    reduceCtorEq, if_true, if_false]
  omega

theorem Open.scanned_close (level : Open 0 body) (closed : close.kind = .rightBrace) :
    Scanned (body ++ close :: rest) (body ++ [close]) where
  within := ⟨rest, by simp⟩
  ends := .inl (level.unmatched closed)
  shortest _ early stops := level.prefix_of_ends early stops
  nested _ within proper := level.nested_concat within proper
  closed _ := ⟨body, close, rfl, closed, level.balanced⟩
  unclosed every :=
    absurd (every (body ++ [close]) ⟨rest, by simp⟩) (Nat.not_le.2 (level.unmatched closed))

theorem Open.scanned_finish (level : Open depth body) (last : finish.isEnd = true) :
    Scanned (body ++ [finish]) (body ++ [finish]) where
  within := List.prefix_refl _
  ends := .inr ⟨finish, by simp, last⟩
  shortest _ early stops := level.prefix_of_ends early stops
  nested _ within proper := level.nested_concat within proper
  closed := by
    -- The end is no brace, so what is taken with it is as deep as what is taken without it.
    rintro ⟨front, early, fewer⟩
    have kind := Token.isEnd_iff.1 last
    have same := level.depth
    rcases List.prefix_concat_iff.1 early with rfl | shorter
    · simp only [openings_append, closings_append, openings_singleton, closings_singleton, kind,
        reduceCtorEq, if_false] at fewer
      omega
    · exact absurd (level.nested front shorter) (Nat.not_le.2 fewer)
  unclosed _ := rfl

end Grammar

end ShaderDef
