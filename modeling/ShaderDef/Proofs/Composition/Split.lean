import ShaderDef.Proofs.Outline.Division
import Mathlib.Logic.Relation

/-! Divided sections. Main statement: a source that compiles may have its scopes closed and opened
again in front of their parts, in any number of places, and compiles to the same definition. -/

namespace ShaderDef

open Text Grammar Outline
open List (Forall₂)

def insertAt (source : String) (index : Nat) (text : String) : String :=
  String.ofList (takeBytes index source.toList ++ (text.toList ++ dropBytes index source.toList))

namespace Outline

def Division.word : Division → String
  | .bindings => "Bindings"
  | .textures => "Textures"
  | .shader => "Shader"
  | .entrypoint => "Entrypoint"

def Division.text (d : Division) : String :=
  "\x7d " ++ d.word ++ " \x7b "

theorem Division.word_listed (d : Division) : (d.word, d.keyword) ∈ Token.Kind.keywords := by
  cases d <;> decide

theorem Division.toList_text (d : Division) :
    d.text.toList = '\x7d' :: ' ' :: (d.word.toList ++ [' ', '\x7b', ' ']) := by
  cases d <;> rfl

theorem Division.scan_text (d : Division) (offset : Nat) (rest : List Char) :
    Token.scan offset (d.text.toList ++ rest) =
      ⟨.rightBrace, offset, "\x7d"⟩ :: ⟨d.keyword, offset + 2, d.word⟩ ::
        ⟨.leftBrace, offset + 2 + size d.word.toList + 1, "\x7b"⟩ ::
          Token.scan (offset + size d.text.toList) rest := by
  have widths : '\x7d'.utf8Size = 1 ∧ '\x7b'.utf8Size = 1 ∧ ' '.utf8Size = 1 := ⟨rfl, rfl, rfl⟩
  have extent : offset + size d.text.toList =
      offset + 2 + size d.word.toList + 1 + '\x7b'.utf8Size + ' '.utf8Size := by
    simp only [d.toList_text, size_cons, size_append, size_nil, widths]
    omega
  rw [extent, d.toList_text, List.cons_append, List.cons_append, List.append_assoc,
    Token.scan_mark Token.alone_rightBrace, Token.scan_space rfl, List.cons_append,
    Token.scan_keyword d.word_listed, Token.scan_space rfl, List.cons_append,
    Token.scan_mark Token.alone_leftBrace, List.cons_append, Token.scan_space rfl, List.nil_append]
  rfl

/-- The walk over the tokens of a source comes to a part of a scope that starts with a token: a
buffer or a list of textures, a single texture, a stage or a list of entry points, or a single
entry point. -/
inductive Stands (size : Nat) (all : List Token) : Division → Token → Prop
  | bindings {told : List Event} {t : Token} {ts : List Token}
      (here : Comes size all told .bindings (t :: ts))
      (opened : t.kind = .uniformsKeyword ∨ t.kind = .texturesKeyword) : Stands size all .bindings t
  | textures {told : List Event} {opening brace t close : Token} {ts before more rest : List Token}
      (here : Comes size all told .bindings (opening :: brace :: ts))
      (opened : opening.kind = .texturesKeyword) (front : brace.kind = .leftBrace)
      (closed : Block.split 0 ts = (before ++ t :: more, close :: rest))
      (whole : 5 ∣ before.length) : Stands size all .textures t
  | shader {told : List Event} {t : Token} {ts : List Token}
      (here : Comes size all told .shader (t :: ts))
      (opened : (∃ stage : Stage, t.kind = stage.keyword) ∨ t.kind = .entrypointKeyword) :
      Stands size all .shader t
  | entrypoint {told : List Event} {opening brace t close : Token} {point : Entry}
      {ts before more rest : List Token}
      (here : Comes size all told .shader (opening :: brace :: ts))
      (opened : opening.kind = .entrypointKeyword) (front : brace.kind = .leftBrace)
      (closed : Block.split 0 ts = (before ++ t :: more, close :: rest))
      (same : t.kind = point.keyword) : Stands size all .entrypoint t

section Seams

variable {size : Nat} {d : Division} {all taken ts : List Token} {told early : List Event}
  {t : Token}

theorem exists_significant {xs ys : List Token} (found : significant ts = xs ++ t :: ys) :
    ∃ inner behind, ts = inner ++ t :: behind ∧ significant inner = xs := by
  obtain ⟨inner, rest, rfl, same, found⟩ := List.filter_eq_append_iff.1 found
  obtain ⟨gap, behind, rfl, comments, _, _⟩ := List.filter_eq_cons_iff.1 found
  refine ⟨inner ++ gap, behind, by simp, ?_⟩
  have none : significant gap = [] := significant_comments (by simpa using comments)
  rw [significant_append, none, List.append_nil]
  exact same

theorem Division.Inside.valid (inside : d.Inside taken early) :
    ∀ s ∈ taken, s.kind.isInvalid = false := by
  cases inside with
  | bindings => exact List.forall_mem_nil _
  | shader => exact List.forall_mem_nil _
  | textures opened front listed =>
    rw [List.forall_mem_cons, List.forall_mem_cons, opened, front]
    exact ⟨rfl, rfl, fun s within => (quiet_of_listOfTokens listed s within).2.2⟩
  | entrypoint opened front whole =>
    rw [List.forall_mem_cons, List.forall_mem_cons, opened, front]
    exact ⟨rfl, rfl, fun s within => (whole.quiet s within).2.2⟩

/-- Where a walk comes to a word between the parts of a scope there is a seam. -/
theorem Comes.seam (taken : List Token)
    (here : Comes size (significant all) told d.scope (taken ++ t :: ts))
    (inside : d.Inside taken early) (worded : t.kind.isWord = true) :
    ∃ before behind, all = before ++ t :: behind ∧ Seam d before (told ++ early) t := by
  obtain ⟨seg, rest, rfl, found, walked, sealed⟩ := here.walks
  obtain ⟨inner, behind, rfl, rfl⟩ := exists_significant found.symm
  refine ⟨seg ++ inner, behind, by simp, .intro walked inside (sealed.append ?_) worded⟩
  refine sealed_of_valid fun s within => ?_
  cases comment : s.kind.isComment with
  | true => exact isInvalid_of_isComment comment
  | false => exact inside.valid s (List.mem_filter.2 ⟨within, by simp [comment]⟩)

theorem isWord_of_stage {stage : Stage} (same : t.kind = stage.keyword) : t.kind.isWord = true := by
  rw [same]
  cases stage <;> decide

theorem isWord_of_entry {point : Entry} (same : t.kind = point.keyword) :
    t.kind.isWord = true := by
  rw [same]
  cases point <;> decide

theorem Comes.ok {all : List Token} {scope : Scope} (here : Comes size all told scope ts)
    (ok : (Outline.walk size .top all).result = .ok ()) :
    (Outline.walk size scope ts).result = .ok () := by
  rw [here.walk, Reading.bind_of_ok _ rfl] at ok
  exact ok

theorem split_of_declarations {b : Block} {body rest : List Token} {close : Token}
    (found : Block.declarations size ts = .ok b)
    (closed : Block.split 0 ts = (body, close :: rest)) :
    b.body = body ∧ b.close = close ∧ ts = body ++ close :: rest := by
  obtain ⟨b, read, kept⟩ := Except.bind_eq_ok.1 found
  obtain ⟨rfl, _⟩ := Block.refuse_eq_ok.1 kept
  have whole := Block.split_append 0 ts
  have same := (Block.read_eq_ok.1 read).symm.trans closed
  simp only [Prod.mk.injEq, List.cons.injEq] at same
  rw [closed] at whole
  exact ⟨same.1, same.2.1, whole.symm⟩

theorem Stands.seam (stands : Stands size (significant all) d t)
    (ok : (walk size .top (significant all)).result = .ok ()) :
    ∃ before told behind, all = before ++ t :: behind ∧ Seam d before told t := by
  cases stands with
  | bindings here opened =>
    have worded : t.kind.isWord = true := by
      rcases opened with same | same <;> rw [same] <;> decide
    obtain ⟨before, behind, split, seam⟩ := Comes.seam [] here .bindings worded
    exact ⟨before, _, behind, split, seam⟩
  | shader here opened =>
    have worded : t.kind.isWord = true := by
      rcases opened with ⟨stage, same⟩ | same
      · exact isWord_of_stage same
      · rw [same]
        decide
    obtain ⟨before, behind, split, seam⟩ := Comes.seam [] here .shader worded
    exact ⟨before, _, behind, split, seam⟩
  | textures here opened front closed whole =>
    rename_i close ts before more rest
    obtain ⟨b, list, found, read⟩ := list_of_step opened front (here.ok ok)
    obtain ⟨body, _, rfl⟩ := split_of_declarations found closed
    rw [body, listOfTokens_append _ whole] at read
    obtain ⟨bs, first, read⟩ := Except.bind_eq_ok.1 read
    obtain ⟨_, second, _⟩ := Except.bind_eq_ok.1 read
    rw [List.append_assoc] at here
    have worded : t.kind.isWord = true := by
      rw [kind_of_listOfTokens second]
      rfl
    obtain ⟨before, behind, split, seam⟩ :=
      Comes.seam (_ :: _ :: before) here (.textures opened front first) worded
    exact ⟨before, _, behind, split, seam⟩
  | entrypoint here opened front closed same =>
    rename_i close point ts before more rest
    obtain ⟨b, found, read⟩ := entries_of_step opened front (here.ok ok)
    obtain ⟨body, last, rfl⟩ := split_of_declarations found closed
    rw [body, last] at read
    obtain ⟨_, whole⟩ := Entries.of_ok (Block.nested_of_split closed).2 read
    obtain ⟨early, _, first, _, _⟩ := whole.divide same
    rw [List.append_assoc] at here
    obtain ⟨before, behind, split, seam⟩ :=
      Comes.seam (_ :: _ :: before) here (.entrypoint opened front first)
        (isWord_of_entry same)
    exact ⟨before, _, behind, split, seam⟩

end Seams

end Outline

variable {source : String} {d : Division} {taken behind : List Token} {told : List Event}
  {t : Token}

/-- The characters of a source and of the same source with a scope closed and opened again in front
of a word, and the tokens of both: they are the same up to the word, and from it on they are those
of the same characters. -/
theorem Token.ofSource_insertAt (split : ofSource source = taken ++ t :: behind)
    (sealed : Sealed taken) (worded : t.kind.isWord = true) (d : Division) :
    ∃ front rest, source.toList = front ++ rest ∧ t.index = size front ∧
      t :: behind = scan (size front) rest ∧
      (insertAt source t.index d.text).toList = front ++ d.text.toList ++ rest ∧
      ∃ close opening brace : Token, close.kind = .rightBrace ∧ close.index = size front ∧
        opening.kind = d.keyword ∧ brace.kind = .leftBrace ∧
        ofSource (insertAt source t.index d.text) =
          taken ++ close :: opening :: brace :: scan (size (front ++ d.text.toList)) rest := by
  rw [ofSource_eq_scan] at split
  obtain ⟨front, l, whole, form, same, rest⟩ := exists_lexeme_of_scan split
  rw [Nat.zero_add] at same rest
  have place : t.index = size front := by rw [same]
  have kind : t.kind = l.kind := by rw [same]
  rw [kind] at worded
  obtain ⟨c, cs, raw, _, letter, _⟩ := form.raw_of_word worded
  have tokens : t :: behind = scan (size front) (l.raw ++ l.rest) := by
    rw [scan_form form, same, rest]
  have inserted : (insertAt source t.index d.text).toList =
      front ++ (d.text.toList ++ (l.raw ++ l.rest)) := by
    rw [insertAt, String.toList_ofList, place, whole, takeBytes_size_append, dropBytes_size_append]
  refine ⟨front, l.raw ++ l.rest, whole, place, tokens, by rw [inserted, List.append_assoc],
    ⟨.rightBrace, size front, "\x7d"⟩, ⟨d.keyword, size front + 2, d.word⟩,
    ⟨.leftBrace, size front + 2 + size d.word.toList + 1, "\x7b"⟩, rfl, rfl, rfl, rfl, ?_⟩
  have brace := d.toList_text
  rw [whole, raw, List.cons_append] at split
  rw [brace, List.cons_append] at inserted
  have last : ∀ s ∈ taken.getLast?, s.kind ≠ .invalidNumberLiteral := by
    intro s final wrong
    have valid := sealed s final
    simp [wrong, Token.Kind.isInvalid] at valid
  rw [ofSource_eq_scan, inserted,
    scan_before_word split (by rw [place, Nat.zero_add]) letter last, ← List.cons_append, ← brace,
    Nat.zero_add, d.scan_text, size_append]

def Declaration.code? (stage : Stage) : Declaration → Option String
  | .code which text => if which = stage then some text else none
  | _ => none

theorem Event.code?_eq (source : String) (stage : Stage) (e : Event) :
    e.code? source stage = (e.declared? source).bind (Declaration.code? stage) := by
  cases e <;> rfl

theorem Sources.eq_of_code {s s' : Sources} (same : ∀ stage, s.code stage = s'.code stage) :
    s = s' := by
  obtain ⟨_, _, _⟩ := s
  obtain ⟨_, _, _⟩ := s'
  obtain rfl := same .shared
  obtain rfl := same .vertex
  obtain rfl := same .fragment
  rfl

/-- Alike events that declare the same, each in its source, give the same definition. -/
theorem Definition.ofEvents_alike {R : Nat → Nat → Prop} {source' : String} {es fs : List Event}
    (alike : Forall₂ (Event.Alike R) es fs)
    (same : ∀ e e' : Event, e.Alike R e' → e.declared? source = e'.declared? source') :
    ofEvents source es = ofEvents source' fs := by
  have interface : (ofEvents source es).interface = (ofEvents source' fs).interface :=
    interface_alike alike
  have sources : (ofEvents source es).sources = (ofEvents source' fs).sources := by
    refine Sources.eq_of_code fun stage => ?_
    rw [code_ofEvents, code_ofEvents]
    refine Event.findSome?_alike (fun e e' like => ?_) alike
    rw [Event.code?_eq, Event.code?_eq, same e e' like]
  cases whole : ofEvents source es
  cases whole' : ofEvents source' fs
  rw [whole, whole'] at interface sources
  rw [Definition.mk.injEq]
  exact ⟨interface, sources⟩

/-- What is told within the front of a source is the same for any source with that front. -/
theorem Definition.ofEvents_of_within {source' : String} {es : List Event}
    {front rest rest' : List Char}
    (within : Forall₂ (Event.Alike fun i j => i = j ∧ j ≤ size front) es es)
    (whole : source.toList = front ++ rest) (whole' : source'.toList = front ++ rest') :
    ofEvents source es = ofEvents source' es := by
  have start : (String.ofList front).toList = front := String.toList_ofList
  rw [← start] at within whole whole'
  have same {source : String} {bs : List Char}
      (whole : source.toList = (String.ofList front).toList ++ bs) :
      ofEvents (String.ofList front) es = ofEvents source es :=
    ofEvents_alike within fun _ _ like => (Event.declared?_append whole like).symm
  exact (same whole).symm.trans (same whole')

/-- No item is opened twice where events are told again at other places. -/
theorem Outline.Retold.kept {R : Nat → Nat → Prop} {es told later later' : List Event}
    (retold : Retold es (told ++ later)) (events : Forall₂ (Event.Alike R) later later')
    (kept : (once [] es).result = .ok ()) : (once [] (told ++ later')).result = .ok () := by
  have items : Event.items later = Event.items later' :=
    Event.filterMap_alike (fun _ _ same => by cases same <;> rfl) events
  rw [once_eq_ok_iff] at kept ⊢
  rwa [retold.items, Event.items_append, items, ← Event.items_append] at kept

theorem Outline.ofTokens_eq_ok {size : Nat} {ts : List Token} {es : List Event} :
    ofTokens size ts = ⟨es, .ok ()⟩ ↔
      walk size .top (significant ts) = ⟨es, .ok ()⟩ ∧ (once [] es).result = .ok () := by
  constructor
  · intro outline
    obtain ⟨_, kept, read⟩ := Reading.bind_eq_ok.1 (congrArg Reading.result outline)
    simp only [ofTokens, once_of_ok kept] at outline
    rw [Reading.bind_of_ok _ rfl] at outline
    obtain ⟨told, result⟩ := Reading.mk.inj outline
    have told : (walk size .top (significant ts)).events = es := by simpa using told
    exact ⟨Reading.ext told result, told ▸ kept⟩
  · rintro ⟨walked, kept⟩
    simp only [ofTokens, walked, once_of_ok kept]
    rw [Reading.bind_of_ok _ rfl]
    simp

theorem Token.index_le_of_split (split : ofSource source = taken ++ t :: behind) :
    ∀ s ∈ taken, s.index ≤ t.index := by
  have ordered := scan_ordered 0 source.toList
  rw [← ofSource_eq_scan, split, List.pairwise_append] at ordered
  exact fun s inside => (ordered.2.2 s inside t List.mem_cons_self).le

/-- Of two tokens of a source the one with the smaller index stands among those before the other. -/
theorem Token.exists_before_of_index_lt {before later : List Token} {s : Token}
    (split : ofSource source = taken ++ t :: behind)
    (split' : ofSource source = before ++ s :: later)
    (less : t.index < s.index) : ∃ between, before = taken ++ t :: between := by
  rcases List.append_eq_append_iff.1 (split'.symm.trans split) with ⟨mid, whole, same⟩ |
      ⟨mid, whole, same⟩
  · have inside : s ∈ taken ++ [t] := by
      cases mid with
      | nil => simp [(List.cons.inj same).1]
      | cons _ mid => simp [whole, (List.cons.inj same).1]
    rcases List.mem_append.1 inside with first | last
    · have bound := index_le_of_split split s first
      omega
    · rw [List.mem_singleton.1 last] at less
      omega
  · cases mid with
    | nil =>
      rw [(List.cons.inj same).1] at less
      omega
    | cons _ between => exact ⟨between, by rw [whole, (List.cons.inj same).1]⟩

theorem walk_of_compile {value : Definition} (ok : compile source = .ok value) :
    (walk (size source.toList) .top (significant (Token.ofSource source))).result = .ok () := by
  obtain ⟨done, _⟩ := compile_eq_ok.1 ok
  obtain ⟨_, _, read⟩ := Reading.bind_eq_ok.1 done
  exact read

/-- A scope may be closed and opened again at a seam. -/
theorem compile_insertAt_of_seam {value : Definition}
    (split : Token.ofSource source = taken ++ t :: behind) (seam : Seam d taken told t)
    (ok : compile source = .ok value) :
    compile (insertAt source t.index d.text) = .ok value ∧
      ∃ more, Token.ofSource (insertAt source t.index d.text) = taken ++ more := by
  obtain ⟨front, rest, whole, place, tokens, whole', close, opening, brace, closed, here, opened,
    left, split'⟩ := Token.ofSource_insertAt split seam.sealed seam.worded d
  refine ⟨?_, _, split'⟩
  generalize insertAt source t.index d.text = source' at whole' split' ⊢
  have ends : Aligned (size front) (size (front ++ d.text.toList)) (size source.toList)
      (size source'.toList) :=
    ⟨size rest, by rw [whole, size_append, Nat.add_comm], by rw [whole', size_append, Nat.add_comm]⟩
  have alike := Token.scan_alike (size front) (size (front ++ d.text.toList)) rest
  rw [← tokens] at alike
  obtain ⟨done, rfl⟩ := compile_eq_ok.1 ok
  obtain ⟨walked, kept⟩ := ofTokens_eq_ok.1 (Reading.ext rfl done : ofSource source = ⟨_, .ok ()⟩)
  rw [split] at walked
  obtain ⟨later, later', retold, events, walked'⟩ :=
    seam.outlines closed opened left ends alike walked
  rw [← split'] at walked'
  have within : Forall₂ (Event.Alike fun i j => i = j ∧ j ≤ size front) told told := by
    refine (seam.walks closed).within fun s inside => ?_
    rcases List.mem_append.1 inside with before | last
    · exact place ▸ Token.index_le_of_split split s before
    · rw [List.mem_singleton.1 last, here]
  have outline : ofSource source' = ⟨told ++ later', .ok ()⟩ :=
    ofTokens_eq_ok.2 ⟨walked', retold.kept events kept⟩
  have first : Definition.ofEvents source told = Definition.ofEvents source' told :=
    Definition.ofEvents_of_within within whole (whole'.trans (List.append_assoc ..))
  have second : Definition.ofEvents source later = Definition.ofEvents source' later' :=
    Definition.ofEvents_alike events fun _ _ like => Event.declared?_aligned whole whole' like
  rw [compile_eq_ok, outline, retold.ofEvents, Definition.ofEvents_append source', ← first,
    ← second, ← Definition.ofEvents_append]
  exact ⟨rfl, rfl⟩

structure Cut where
  division : Division
  word : Token

def divide (source : String) (cuts : List Cut) : String :=
  cuts.foldr (fun cut text => insertAt text cut.word.index cut.division.text) source

/-- One source is another with scopes closed and opened again in front of parts of theirs. -/
def Divides (source source' : String) : Prop :=
  ∃ cuts : List Cut,
    (∀ cut ∈ cuts, Stands (size source.toList) (significant (Token.ofSource source)) cut.division
      cut.word) ∧
    (cuts.Pairwise fun first second => first.word.index < second.word.index) ∧
    source' = divide source cuts

/-- The tokens in front of all cuts are the same, so a cut may be made after those behind it. -/
theorem compile_divide {value : Definition} {cuts : List Cut}
    (ok : compile source = .ok value)
    (stands : ∀ cut ∈ cuts, Stands (size source.toList) (significant (Token.ofSource source))
      cut.division cut.word)
    (ordered : cuts.Pairwise fun first second => first.word.index < second.word.index) :
    compile (divide source cuts) = .ok value ∧
      ∀ {taken behind : List Token} {t : Token}, Token.ofSource source = taken ++ t :: behind →
        (∀ cut ∈ cuts, t.index < cut.word.index) →
        ∃ more, Token.ofSource (divide source cuts) = taken ++ t :: more := by
  induction cuts with
  | nil => exact ⟨ok, fun split _ => ⟨_, split⟩⟩
  | cons cut cuts ih =>
    rw [List.forall_mem_cons] at stands
    rw [List.pairwise_cons] at ordered
    obtain ⟨later, kept⟩ := ih stands.2 ordered.2
    obtain ⟨before, told, behind, here, seam⟩ := stands.1.seam (walk_of_compile ok)
    obtain ⟨more, still⟩ := kept here ordered.1
    obtain ⟨done, _, front⟩ := compile_insertAt_of_seam still seam later
    refine ⟨done, fun split first => ?_⟩
    rw [List.forall_mem_cons] at first
    obtain ⟨between, rfl⟩ := Token.exists_before_of_index_lt split here first.1
    rw [List.append_assoc, List.cons_append] at front
    exact ⟨_, front⟩

/-- A source that compiles, with scopes closed and opened again in front of any of their parts, any
number of times, compiles to the same definition. -/
theorem compile_divided {source' : String} {value : Definition} (ok : compile source = .ok value)
    (divided : Relation.ReflTransGen Divides source source') : compile source' = .ok value := by
  induction divided with
  | refl => exact ok
  | tail _ last ih =>
    obtain ⟨cuts, stands, ordered, rfl⟩ := last
    exact (compile_divide ih stands ordered).1

/-- A cut of each kind, all at once. -/
theorem compile_divided_each :
    let source := "Bindings\x7bTextures\x7ba b:0;c d:1;\x7d\x7d" ++
      "Shader\x7bEntrypoint\x7bVertex\"m\";\x7d\x7d"
    let source' :=
      "Bindings\x7b\x7d Bindings \x7b Textures\x7ba b:0;\x7d Textures \x7b c d:1;\x7d\x7d" ++
      "Shader\x7b\x7d Shader \x7b Entrypoint\x7b\x7d Entrypoint \x7b Vertex\"m\";\x7d\x7d"
    let value : Definition :=
      { interface := { textures := [⟨"a", "b", "0"⟩, ⟨"c", "d", "1"⟩], vertexEntry := some "m" } }
    compile source = .ok value ∧ Divides source source' ∧ compile source' = .ok value := by
  intro source source' value
  have ok : compile source = .ok value := by decide +kernel
  let before : List Token := [⟨.symbol, 18, "a"⟩, ⟨.symbol, 20, "b"⟩, ⟨.colon, 21, ":"⟩,
    ⟨.numberLiteral, 22, "0"⟩, ⟨.semicolon, 23, ";"⟩]
  let behind : List Token := [⟨.symbol, 26, "d"⟩, ⟨.colon, 27, ":"⟩, ⟨.numberLiteral, 28, "1"⟩,
    ⟨.semicolon, 29, ";"⟩]
  let entry : List Token := [⟨.stringLiteral, 56, "m"⟩, ⟨.semicolon, 59, ";"⟩]
  let ends : List Token := [⟨.rightBrace, 61, "\x7d"⟩]
  let points : List Token :=
    ⟨.vertexKeyword, 50, "Vertex"⟩ :: (entry ++ ⟨.rightBrace, 60, "\x7d"⟩ :: ends)
  let stages : List Token :=
    ⟨.entrypointKeyword, 39, "Entrypoint"⟩ :: ⟨.leftBrace, 49, "\x7b"⟩ :: points
  let rest : List Token := ⟨.rightBrace, 31, "\x7d"⟩ :: ⟨.shaderKeyword, 32, "Shader"⟩ ::
    ⟨.leftBrace, 38, "\x7b"⟩ :: stages
  let textures : List Token :=
    before ++ ⟨.symbol, 24, "c"⟩ :: (behind ++ ⟨.rightBrace, 30, "\x7d"⟩ :: rest)
  let lists : List Token :=
    ⟨.texturesKeyword, 9, "Textures"⟩ :: ⟨.leftBrace, 17, "\x7b"⟩ :: textures
  have list : Block.split 0 textures =
    (before ++ ⟨.symbol, 24, "c"⟩ :: behind, ⟨.rightBrace, 30, "\x7d"⟩ :: rest) := rfl
  have point : Block.split 0 points =
    ([] ++ ⟨.vertexKeyword, 50, "Vertex"⟩ :: entry, ⟨.rightBrace, 60, "\x7d"⟩ :: ends) := rfl
  have same : Token.kind ⟨.vertexKeyword, 50, "Vertex"⟩ = Entry.vertex.keyword := rfl
  have tokens : significant (Token.ofSource source) =
      ⟨.bindingsKeyword, 0, "Bindings"⟩ :: ⟨.leftBrace, 8, "\x7b"⟩ :: lists := by
    decide +kernel
  have first : Comes (size source.toList) (significant (Token.ofSource source)) [] .bindings
      lists := by
    rw [tokens]
    exact .next .start rfl
  have second : Comes (size source.toList) (significant (Token.ofSource source))
      [.textures value.interface.textures] .bindings rest := .next first rfl
  have third : Comes (size source.toList) (significant (Token.ofSource source))
      [.textures value.interface.textures] .shader stages := .next (.next second rfl) rfl
  have divides : Divides source source' := by
    refine ⟨[⟨.bindings, ⟨.texturesKeyword, 9, "Textures"⟩⟩, ⟨.textures, ⟨.symbol, 24, "c"⟩⟩,
      ⟨.shader, ⟨.entrypointKeyword, 39, "Entrypoint"⟩⟩,
      ⟨.entrypoint, ⟨.vertexKeyword, 50, "Vertex"⟩⟩], ?_, by decide, by decide +kernel⟩
    simp only [List.forall_mem_cons]
    exact ⟨.bindings first (.inr rfl), .textures first rfl rfl list ⟨1, rfl⟩,
      .shader third (.inr rfl), .entrypoint third rfl rfl point same, List.forall_mem_nil _⟩
  exact ⟨ok, divides, compile_divided ok (.single divides)⟩

end ShaderDef
