import ShaderDef.Proofs.OnePass.Follow

/-! Scopes in one pass. A run that takes a token, or all tokens up to a closing brace, leaves behind
it the tokens that the walk leaves, and the code between two braces is a piece of the source. -/

namespace ShaderDef

open Text Outline

variable {α : Type} {source : String} {p : Pass} {t : Token} {ts : List Token} {told : List Event}

theorem lift_bind {β γ : Type} (x : Except Fault α) (f : α → Except Fault β)
    (k : β → Reading γ) :
    Reading.lift (x >>= f) >>= k = Reading.lift x >>= fun a => Reading.lift (f a) >>= k := by
  cases x with
  | error fault => rfl
  | ok a => exact (Reading.lift_ok_bind a fun a => Reading.lift (f a) >>= k).symm

/-- A scope as far as it has been read: what has been taken of it, and how many scopes are open in
it. The rest of its block is what closes them. -/
def Block.Halfway (ts : List Token) (state : List Token × Nat) (rest : List Token) : Prop :=
  split 0 ts = (state.1 ++ (split state.2 rest).1, (split state.2 rest).2)

theorem Block.Halfway.next {tokens rest : List Token} {nesting : Nat}
    (halfway : Halfway ts (tokens, nesting) (t :: rest))
    (inside : ¬(t.kind = .rightBrace ∧ nesting = 0)) :
    Halfway ts (tokens ++ [t], t.kind.nest nesting) rest := by
  rw [Halfway, split, if_neg inside] at halfway
  simpa [Halfway] using halfway

theorem Block.Halfway.close {tokens rest : List Token}
    (halfway : Halfway ts (tokens, 0) (t :: rest)) (closed : t.kind = .rightBrace) :
    split 0 ts = (tokens, t :: rest) := by
  rwa [Halfway, split, if_pos ⟨closed, rfl⟩, List.append_nil] at halfway

namespace Pull

theorem significant_ends {left : Reading Unit} (here : p.Stands source ts told left) :
    (significant source).Ends source p fun t q =>
      (∃ rest, Outline.significant ts = t :: Outline.significant rest ∧ t ∈ q.received ∧
        q.Stands source rest told left) ∨
      (Outline.significant ts = [] ∧ t = .finish (size source.toList) ∧
        q.received = Token.stream source) := by
  refine ends_loop (fun _ rest q => q.Stands source rest told left ∧
    Outline.significant ts = Outline.significant rest) ?_ ?_ ⟨ts, here.toAt, here, rfl⟩
  · rintro _ t rest q r ⟨stands, same⟩ there kept received
    have moved := stands.move there kept
    cases comment : t.kind.isComment with
    | true =>
      exact ends_pure ⟨rest, there, moved, same.trans (significant_cons_comment comment rest)⟩
    | false =>
      have found := same.trans (significant_cons comment rest)
      exact ends_pure (.inl ⟨rest, found, by simp [received], moved⟩)
  · rintro _ q r ⟨_, same⟩ _ received
    exact ends_of_run rfl (.inr ⟨same, rfl, received⟩)

theorem expect_ends {kind : Token.Kind} {k : Token × List Token → Reading Unit}
    (here : p.Stands source ts told
      (.lift (take (size source.toList) kind (Outline.significant ts)) >>= k))
    (inner : kind ≠ .endOfFile) :
    (expect source kind).Ends source p fun t q => t.kind = kind ∧ t ∈ q.received ∧
      ∃ rest, q.Stands source rest told (k (t, Outline.significant rest)) := by
  refine (significant_ends here).bind ?_
  rintro t q (⟨rest, found, given, there⟩ | ⟨none, rfl, received⟩)
  · have split : take (size source.toList) kind (t :: Outline.significant rest) =
        t.require kind >>= fun _ => .ok (t, Outline.significant rest) := rfl
    have follows := here.follows
    rw [found, split, lift_bind] at follows
    refine Ends.lift (there.go follows) fun _ met there => ?_
    exact ends_pure ⟨Token.require_eq_ok.1 met, given, rest, there⟩
  · have missing : (Token.finish (size source.toList)).require kind =
        .error (.mismatch kind (.finish (size source.toList))) := if_neg inner.symm
    have reported := here.follows.fails_lift (by rw [none, take])
    have stopped : (lift ((Token.finish (size source.toList)).require kind)).Ends source q
        fun _ _ => False :=
      ends_stop missing reported (received ▸ List.prefix_refl _)
    exact stopped.bind fun _ _ wrong => wrong.elim

/-- A scan takes each token, and stops at a brace that closes its own scope. A brace that does not
closes a scope in it, so there is one to close. -/
theorem scopeTurn_eq (tokens : List Token) (nesting : Nat) (t : Token) :
    scopeTurn (tokens, nesting) t =
      if t.kind = .rightBrace ∧ nesting = 0 then return .inr (tokens ++ [t])
      else return .inl (tokens ++ [t], t.kind.nest nesting) := by
  unfold scopeTurn
  dsimp only
  split
  · rename_i opened
    simp only [opened, reduceCtorEq, false_and, if_false, Token.Kind.nest]
  · rename_i closed
    cases nesting with
    | zero => simp only [closed, and_self, if_true]
    | succ outer =>
      simp only [closed, Nat.succ_ne_zero, and_false, if_false]
      rfl
  · rename_i left right
    rw [if_neg fun both => right both.1, Token.Kind.nest_other nesting left right]

/-- The tokens of a scope are those of its block, and the token that ends it comes last. -/
theorem scope_ends {left : Reading Unit} (here : p.Stands source ts told left) :
    (scope source).Ends source p fun tokens q =>
      (∃ body close rest, tokens = body ++ [close] ∧
        Block.split 0 ts = (body, close :: rest) ∧ q.Stands source rest told left) ∨
      (∃ body, tokens = body ++ [.finish (size source.toList)] ∧ Block.split 0 ts = (body, []) ∧
        q.received = Token.stream source) := by
  refine ends_loop (fun state rest q => q.Stands source rest told left ∧
    Block.Halfway ts state rest) ?_ ?_ ⟨ts, here.toAt, here, rfl⟩
  · rintro ⟨tokens, nesting⟩ t rest q r ⟨stands, halfway⟩ there kept received
    have moved := stands.move there kept
    rw [scopeTurn_eq]
    split
    · rename_i last
      obtain ⟨closed, rfl⟩ := last
      exact ends_pure (.inl ⟨tokens, t, rest, rfl, halfway.close closed, moved⟩)
    · rename_i inside
      exact ends_pure ⟨rest, there, moved, halfway.next inside⟩
  · rintro ⟨tokens, nesting⟩ q r ⟨_, halfway⟩ _ received
    rw [Block.Halfway, Block.split, List.append_nil] at halfway
    exact ends_of_run rfl (.inr ⟨tokens, rfl, halfway, received⟩)

/-- The scope that the walk reads, comments included. -/
theorem closedScope_ends {k : Block → Reading Unit} (here : p.Stands source ts told
      (.lift (Block.read (size source.toList) (Outline.significant ts)) >>= k)) :
    (closedScope source).Ends source p fun scope q => ∃ rest,
      ts = scope.1 ++ scope.2 :: rest ∧ scope.2.kind = .rightBrace ∧
      q.Stands source rest told
        (k ⟨Outline.significant scope.1, scope.2, Outline.significant rest⟩) := by
  have halves := Block.split_filter 0 ts
  refine (scope_ends here).bind ?_
  rintro _ q (⟨body, close, rest, rfl, found, there⟩ | ⟨body, rfl, found, received⟩)
  · have closed := (Block.nested_of_split found).2
    have whole := Block.split_append 0 ts
    rw [found] at whole halves
    rw [List.filter_cons_of_pos (by simp [closed, Token.Kind.isComment])] at halves
    have read : Block.read (size source.toList) (Outline.significant ts) =
        .ok ⟨Outline.significant body, close, Outline.significant rest⟩ :=
      Block.read_eq_ok.2 halves
    simp only [List.getLast?_concat, closed, if_true, List.dropLast_concat]
    exact ends_pure ⟨rest, whole.symm, closed, there.go (here.follows.lift read)⟩
  · rw [found] at halves
    have open' : (Token.finish (size source.toList)).kind ≠ .rightBrace := by simp
    simp only [List.getLast?_concat, if_neg open']
    refine ends_fail (here.follows.fails_lift ?_) (received ▸ List.prefix_refl _)
    rw [Outline.significant, Block.read, halves]
    rfl

/-- What a block is refused for is no comment, so it makes no difference whether comments count. -/
theorem refuse_ends {bad : Token.Kind → Bool} {body : List Token} {b : Block}
    {k : Block → Reading Unit} (same : b.body = Outline.significant body)
    (solid : ∀ kind, bad kind = true → kind.isComment = false)
    (here : p.Stands source ts told (.lift (b.refuse bad) >>= k)) :
    (refuse bad body).Ends source p fun _ q => q.Stands source ts told (k b) := by
  have found : b.body.find? (fun t => bad t.kind) = body.find? fun t => bad t.kind := by
    rw [same, Outline.significant, List.find?_filter]
    congr 1
    funext t
    cases wrong : bad t.kind with
    | true => simp [solid t.kind wrong]
    | false => simp
  unfold refuse
  split
  · rename_i t first
    refine ends_fail (here.follows.fails_lift ?_) here.toAt.stream
    rw [Block.refuse, found, first]
  · rename_i none
    refine ends_pure (here.go (here.follows.lift ?_))
    rw [Block.refuse, found, none]

theorem structuredScope_ends {k : Block → Reading Unit} (here : p.Stands source ts told
      (.lift (Block.declarations (size source.toList) (Outline.significant ts)) >>= k)) :
    (structuredScope source).Ends source p fun scope q => ∃ rest,
      q.Stands source rest told (k ⟨scope.1, scope.2, Outline.significant rest⟩) := by
  rw [Block.declarations, lift_bind] at here
  refine (closedScope_ends here).bind ?_
  rintro ⟨body, close⟩ q ⟨rest, _, _, there⟩
  refine (refuse_ends rfl (fun kind wrong => ?_) there).bind ?_
  · by_contra comment
    rw [Grammar.isInvalid_of_isComment (by simpa using comment)] at wrong
    cases wrong
  · rintro _ r stands
    exact ends_pure ⟨rest, stands⟩

/-- Between an opening brace and a closing one behind it stands a piece of the source. -/
theorem slice_between {before body rest : List Token} {opening close : Token}
    (split : Token.ofSource source = before ++ opening :: (body ++ close :: rest))
    (front : opening.kind = .leftBrace) (closed : close.kind = .rightBrace) :
    Breach.slice? source (opening.index + 1) close.index =
      .ok (.ofList (slice (opening.index + 1) close.index source.toList)) := by
  rw [Token.ofSource_eq_scan] at split
  obtain ⟨ahead, inner, chars, place, second⟩ :=
    Token.exists_mark_of_scan (fun _ => Lexeme.Form.raw_of_leftBrace) split front
  obtain ⟨text, tail, rfl, extent, _⟩ :=
    Token.exists_mark_of_scan (fun _ => Lexeme.Form.raw_of_rightBrace) second.symm closed
  have width : '\x7b'.utf8Size = 1 := rfl
  have found : slice? (opening.index + 1) close.index source.toList = some text := by
    refine slice?_eq_some.2 ⟨ahead ++ ['\x7b'], '\x7d' :: tail, by simp [chars], ?_, extent⟩
    simp [place, width]
  rw [Breach.slice?, found, slice_of_slice? found]

theorem rawScope_ends {opening : Token} {k : Block → Reading Unit}
    (here : p.Stands source ts told
      (.lift (Block.code (size source.toList) (Outline.significant ts)) >>= k))
    (given : opening ∈ p.received) (front : opening.kind = .leftBrace) :
    (rawScope source opening).Ends source p fun text q => ∃ b rest,
      text = .ofList (slice (opening.index + 1) b.close.index source.toList) ∧
      b.rest = Outline.significant rest ∧ q.Stands source rest told (k b) := by
  obtain ⟨before, behind, received⟩ := List.append_of_mem given
  have whole := here.received
  rw [Block.code, lift_bind] at here
  refine (closedScope_ends here).bind ?_
  rintro ⟨body, close⟩ q ⟨rest, rfl, closed, there⟩
  refine (refuse_ends rfl (fun kind wrong => ?_) there).bind ?_
  · rw [eq_of_beq wrong]
    rfl
  · rintro _ r stands
    have split : Token.ofSource source =
        before ++ opening :: (behind ++ body ++ close :: rest) := by
      simpa [received] using whole.symm
    have piece := slice_between split front closed
    rw [piece]
    exact ends_of_run rfl ⟨_, rest, rfl, rfl, stands⟩

end Pull

end ShaderDef
