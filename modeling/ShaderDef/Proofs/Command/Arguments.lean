import ShaderDef.Command.Options
import ShaderDef.Proofs.Lexical.Class

/-! Arguments by what is among them. The options come to what the arguments say together, whatever
their order but that of the outputs. With an argument added or left out the others are understood
as before, and every option that it is not about stays the same. -/

namespace ShaderDef

namespace Command

namespace Argument

def file? : Argument → Option String
  | .file path => some path
  | _ => none

def output? : Argument → Option String
  | .output path => some path
  | _ => none

def ofStrings (fileGiven : Bool) : List String → Except UsageError (List Argument)
  | [] => .ok []
  | argument :: arguments => do
    let first ← ofString argument
    if fileGiven && first.file?.isSome then .error .severalFiles
    let others ← ofStrings (fileGiven || first.file?.isSome) arguments
    return first :: others

variable {a : Argument} {as bs : List Argument} {argument path : String} {option : List Char}
  {arguments us vs : List String} {given : Bool}

def IsOption (argument : String) : Prop :=
  ∃ option, argument.toList = '-' :: option

def saysOutput (argument : String) : Bool :=
  ['-', 'o', '='].isPrefixOf argument.toList

theorem divide_output : divide option = ("o", some path) ↔ option = 'o' :: '=' :: path.toList := by
  constructor
  · intro parts
    have whole := List.takeWhile_append_dropWhile (p := (· != '=')) (l := option)
    have stops := Text.stops_dropWhile (p := (· != '=')) option
    unfold divide at parts
    split at parts
    · simp at parts
    · next c value behind =>
      rw [behind] at whole stops
      simp only [Prod.mk.injEq, Option.some.injEq] at parts
      obtain ⟨name, rfl⟩ := parts
      have front : option.takeWhile (· != '=') = ['o'] := String.ofList_injective name
      obtain rfl : c = '=' := by simpa using stops c rfl
      rw [← whole, front, String.toList_ofList]
      rfl
  · rintro rfl
    simp [divide]

theorem divide_plain {name : String} (parts : divide option = (name, none)) :
    option = name.toList := by
  have whole := List.takeWhile_append_dropWhile (p := (· != '=')) (l := option)
  unfold divide at parts
  split at parts
  · next behind =>
    rw [behind, List.append_nil] at whole
    obtain rfl := (Prod.mk.inj parts).1
    rw [String.toList_ofList, whole]
  · simp at parts

theorem ofOption_eq_ok (ok : ofOption argument option = .ok a) :
    (∃ path, divide option = ("o", some path) ∧ a = .output path) ∨
      ∃ name, divide option = (name, none) ∧ (name, a) ∈ flags := by
  unfold ofOption at ok
  split at ok
  · next value parts =>
    split at ok
    · cases ok
    · next path =>
      split at ok
      · cases ok
      · exact .inl ⟨path, parts, (Except.ok.inj ok).symm⟩
  · next name value other parts =>
    split at ok
    · next flag known =>
      obtain rfl := Except.ok.inj ok
      obtain ⟨before, behind, split, _⟩ := List.lookup_eq_some_iff.1 known
      exact .inr ⟨name, parts, by simp [split]⟩
    · cases ok
    · cases ok

theorem ofString_file (plain : ¬IsOption path) : ofString path = .ok (.file path) := by
  unfold ofString
  split
  next option starts => exact absurd ⟨option, starts⟩ plain
  next => rfl

theorem ofString_option (starts : argument.toList = '-' :: option)
    (ok : ofString argument = .ok a) :
    a.file? = none ∧ (a.output?.isSome = saysOutput argument) ∧
      ∀ path, a.output? = some path → argument = "-o=" ++ path := by
  have plain : ∀ entry ∈ flags, entry.2.file? = none ∧ entry.2.output? = none := by decide
  unfold ofString at ok
  rw [starts] at ok
  rcases ofOption_eq_ok ok with ⟨path, parts, rfl⟩ | ⟨name, parts, listed⟩
  · have spelled := divide_output.1 parts
    refine ⟨rfl, ?_, ?_⟩
    · simp [saysOutput, starts, spelled, output?]
    · rintro _ ⟨⟩
      rw [← String.toList_inj, starts, spelled, String.toList_append]
      rfl
  · -- A flag is spelled without an equals sign, so it says no output.
    obtain ⟨file, output⟩ := plain _ listed
    refine ⟨file, ?_, fun path said => by rw [output] at said; cases said⟩
    rw [output, saysOutput, starts, eq_comm, Option.isSome_none, Bool.eq_false_iff]
    intro front
    obtain ⟨rest, spelled⟩ := List.isPrefixOf_iff_prefix.1 front
    obtain rfl : option = 'o' :: '=' :: rest := (List.cons.inj spelled).2.symm
    have both : divide ('o' :: '=' :: rest) = ("o", some (String.ofList rest)) :=
      divide_output.2 (by rw [String.toList_ofList])
    rw [both] at parts
    cases parts

theorem eq_of_ofString_stdin (ok : ofString argument = .ok .stdin) : argument = "-stdin" := by
  have only : ∀ entry ∈ flags, entry.2 = .stdin → entry.1 = "stdin" := by decide
  by_cases starts : IsOption argument
  · obtain ⟨option, starts⟩ := starts
    unfold ofString at ok
    rw [starts] at ok
    rcases ofOption_eq_ok ok with ⟨path, _, other⟩ | ⟨name, parts, listed⟩
    · cases other
    · obtain rfl : name = "stdin" := only _ listed rfl
      rw [← String.toList_inj, starts, divide_plain parts]
      rfl
  · rw [ofString_file starts] at ok
    cases ok

theorem saysOutput_of_file (plain : ¬IsOption path) : saysOutput path = false := by
  rw [saysOutput, Bool.eq_false_iff]
  intro front
  obtain ⟨rest, spelled⟩ := List.isPrefixOf_iff_prefix.1 front
  exact plain ⟨_, spelled.symm⟩

/-- The output that an argument says, and none if it is understood otherwise. -/
theorem output?_of_ofString (ok : ofString argument = .ok a) :
    (a.output?.isSome = saysOutput argument) ∧
      ∀ path, a.output? = some path → argument = "-o=" ++ path := by
  by_cases option : IsOption argument
  · obtain ⟨_, starts⟩ := option
    exact (ofString_option starts ok).2
  · rw [ofString_file option] at ok
    obtain rfl := Except.ok.inj ok
    exact ⟨(saysOutput_of_file option).symm, by simp [output?]⟩

/-- The same refusal, or what is understood with one more argument in it. -/
inductive Inserted (a : Argument) :
    Except UsageError (List Argument) → Except UsageError (List Argument) → Prop
  | error (e : UsageError) : Inserted a (.error e) (.error e)
  | ok (left right : List Argument) : Inserted a (.ok (left ++ right)) (.ok (left ++ a :: right))

section Strings

variable {r s : Except UsageError (List Argument)}

theorem Inserted.cons (inserted : Inserted a r s) (first : Argument) :
    Inserted a (do let others ← r; return first :: others)
      (do let others ← s; return first :: others) := by
  cases inserted with
  | error e => exact .error e
  | ok left right => exact .ok (first :: left) right

theorem Inserted.split (inserted : Inserted a (.ok as) r) :
    ∃ left right, as = left ++ right ∧ r = .ok (left ++ a :: right) := by
  generalize whole : (.ok as : Except UsageError (List Argument)) = w at inserted
  cases inserted with
  | error e => cases whole
  | ok left right => exact ⟨left, right, Except.ok.inj whole, rfl⟩

theorem Inserted.front (a : Argument) (r : Except UsageError (List Argument)) :
    Inserted a r (do let others ← r; return a :: others) := by
  cases r with
  | error e => exact .error e
  | ok others => exact .ok [] others

theorem ofStrings_cons (given : Bool) (understood : ofString argument = .ok a)
    (arguments : List String) :
    ofStrings given (argument :: arguments) =
      if given && a.file?.isSome then .error .severalFiles
      else (do let others ← ofStrings (given || a.file?.isSome) arguments; return a :: others) := by
  rw [ofStrings, understood]
  rfl

theorem ofStrings_cons_error {e : UsageError} (given : Bool)
    (refused : ofString argument = .error e) (arguments : List String) :
    ofStrings given (argument :: arguments) = .error e := by
  rw [ofStrings, refused]
  rfl

theorem ofStrings_cons_option (understood : ofString argument = .ok a) (option : a.file? = none)
    (given : Bool) (arguments : List String) :
    ofStrings given (argument :: arguments) =
      (do let others ← ofStrings given arguments; return a :: others) := by
  simp only [ofStrings_cons given understood, option, Option.isSome_none, Bool.and_false,
    Bool.false_eq_true, if_false, Bool.or_false]

/-- An option may stand anywhere. -/
theorem ofStrings_insert (understood : ofString argument = .ok a) (option : a.file? = none)
    (given : Bool) (us vs : List String) :
    Inserted a (ofStrings given (us ++ vs)) (ofStrings given (us ++ argument :: vs)) := by
  induction us generalizing given with
  | nil =>
    rw [List.nil_append, List.nil_append, ofStrings_cons_option understood option]
    exact .front a _
  | cons u us ih =>
    rw [List.cons_append, List.cons_append]
    cases first : ofString u with
    | error e =>
      rw [ofStrings_cons_error given first, ofStrings_cons_error given first]
      exact .error e
    | ok b =>
      rw [ofStrings_cons given first, ofStrings_cons given first]
      split
      · exact .error _
      · exact (ih _).cons b

/-- Whether a file was given before does not matter to options. -/
theorem ofStrings_options (options : ∀ v ∈ vs, IsOption v) (given : Bool) :
    ofStrings given vs = ofStrings false vs := by
  induction vs with
  | nil => rfl
  | cons v vs ih =>
    obtain ⟨option, starts⟩ := options v List.mem_cons_self
    have others := ih fun w inside => options w (List.mem_cons_of_mem v inside)
    cases first : ofString v with
    | error e => rw [ofStrings_cons_error given first, ofStrings_cons_error false first]
    | ok b =>
      have plain := (ofString_option starts first).1
      rw [ofStrings_cons_option first plain, ofStrings_cons_option first plain, others]

/-- Among options one file may stand anywhere. -/
theorem ofStrings_insert_file (plain : ¬IsOption path) (us vs : List String)
    (options : ∀ v ∈ us ++ vs, IsOption v) :
    Inserted (.file path) (ofStrings false (us ++ vs)) (ofStrings false (us ++ path :: vs)) := by
  induction us with
  | nil =>
    -- Behind the file another one would be refused, but only options follow.
    have others : ofStrings true vs = ofStrings false vs := ofStrings_options options true
    rw [List.nil_append, List.nil_append, ofStrings_cons false (ofString_file plain)]
    simp only [file?, Option.isSome_some, Bool.false_and, Bool.false_or, Bool.false_eq_true,
      if_false]
    rw [others]
    exact .front (.file path) _
  | cons u us ih =>
    obtain ⟨option, starts⟩ := options u (by simp)
    have others := ih fun w inside => options w (by simp_all)
    rw [List.cons_append, List.cons_append]
    cases first : ofString u with
    | error e =>
      rw [ofStrings_cons_error false first, ofStrings_cons_error false first]
      exact .error e
    | ok b =>
      have file := (ofString_option starts first).1
      rw [ofStrings_cons_option first file, ofStrings_cons_option first file]
      exact others.cons b

theorem ofStrings_cons_eq_ok (ok : ofStrings given (argument :: arguments) = .ok as) :
    ∃ first others, ofString argument = .ok first ∧ (given && first.file?.isSome) = false ∧
      ofStrings (given || first.file?.isSome) arguments = .ok others ∧ as = first :: others := by
  cases first : ofString argument with
  | error e =>
    rw [ofStrings_cons_error given first] at ok
    cases ok
  | ok b =>
    rw [ofStrings_cons given first] at ok
    split at ok
    · cases ok
    · next single =>
      cases rest : ofStrings (given || b.file?.isSome) arguments with
      | error e =>
        rw [rest] at ok
        cases ok
      | ok others =>
        rw [rest] at ok
        exact ⟨b, others, rfl, by simpa using single, rest, (Except.ok.inj ok).symm⟩

theorem exists_of_mem_ofStrings (ok : ofStrings given arguments = .ok as) (member : a ∈ as) :
    ∃ argument ∈ arguments, ofString argument = .ok a := by
  induction arguments generalizing given as with
  | nil =>
    obtain rfl := Except.ok.inj ok
    cases member
  | cons argument arguments ih =>
    obtain ⟨first, others, understood, _, rest, rfl⟩ := ofStrings_cons_eq_ok ok
    rcases List.mem_cons.1 member with rfl | behind
    · exact ⟨argument, List.mem_cons_self, understood⟩
    · obtain ⟨other, inside, same⟩ := ih rest behind
      exact ⟨other, List.mem_cons_of_mem argument inside, same⟩

/-- Without what says an output the rest is understood as before. -/
theorem ofStrings_withoutOutput (ok : ofStrings given arguments = .ok as) :
    ofStrings given (arguments.filter fun u => !saysOutput u) =
      .ok (as.filter fun a => a.output?.isNone) := by
  induction arguments generalizing given as with
  | nil =>
    obtain rfl := Except.ok.inj ok
    rfl
  | cons argument arguments ih =>
    obtain ⟨first, others, understood, single, rest, rfl⟩ := ofStrings_cons_eq_ok ok
    have said := (output?_of_ofString understood).1
    cases output : first.output? with
    | some path =>
      -- An output is no file, so the rest is read with the same file before it.
      have file : first.file? = none := by
        cases first with
        | output => rfl
        | _ => cases output
      rw [output] at said
      rw [file] at rest
      simpa [← said, output] using ih rest
    | none =>
      rw [output] at said
      rw [List.filter_cons_of_pos (by simp [← said]), List.filter_cons_of_pos (by simp [output]),
        ofStrings_cons given understood, single, ih rest]
      rfl

end Strings

end Argument

open Argument

def Mode.ofArguments (arguments : List Argument) : Mode :=
  if .help ∈ arguments then .help
  else if .version ∈ arguments then .version
  else if .tokens ∈ arguments then .tokens
  else .compile

def Seen.ofArguments (as : List Argument) : Seen where
  mode := Mode.ofArguments as
  verbose := decide (.verbose ∈ as)
  stdin := decide (.stdin ∈ as)
  file := as.findSome? file?
  output := (as.filterMap output?).getLast?

theorem Seen.options_eq (s : Seen) :
    s.options =
      match s.input? with
      | .error e => .error e
      | .ok input =>
        if s.mode.needsInput && input.isNone then .error .noInput
        else .ok ⟨s.mode, s.verbose, input, s.output⟩ := by
  unfold options
  cases s.input? with
  | error e => rfl
  | ok input =>
    change (if _ then _ else _) = (if _ then _ else _)
    split <;> rfl

theorem Seen.input?_ofArguments (as : List Argument) :
    (Seen.ofArguments as).input? =
      match decide (.stdin ∈ as), as.findSome? file? with
      | true, some path => .error (.stdinAndFile path)
      | true, none => .ok (some .stdin)
      | false, some path => .ok (some (.file path))
      | false, none => .ok none :=
  rfl

namespace Options

variable {a : Argument} {left right : List Argument}

def ofInput (as : List Argument) (input : Option Input) : Options where
  mode := Mode.ofArguments as
  verbose := decide (.verbose ∈ as)
  input := input
  output := (as.filterMap output?).getLast?

def ofArguments (as : List Argument) : Except UsageError Options :=
  (Seen.ofArguments as).options

theorem ofArguments_eq (as : List Argument) :
    ofArguments as =
      match (Seen.ofArguments as).input? with
      | .error e => .error e
      | .ok input =>
        if (Mode.ofArguments as).needsInput && input.isNone then .error .noInput
        else .ok (ofInput as input) :=
  Seen.options_eq _

def Silent (a : Argument) : Prop :=
  a ≠ .help ∧ a ≠ .version ∧ a ≠ .tokens

theorem mode_insert (silent : Silent a) :
    Mode.ofArguments (left ++ a :: right) = Mode.ofArguments (left ++ right) := by
  obtain ⟨help, version, tokens⟩ := silent
  simp only [Mode.ofArguments, List.mem_append, List.mem_cons, help.symm, version.symm, tokens.symm,
    false_or]

theorem findSome?_file?_insert (option : a.file? = none) :
    (left ++ a :: right).findSome? file? = (left ++ right).findSome? file? := by
  rw [List.findSome?_append, List.findSome?_cons, option, List.findSome?_append]

end Options

namespace Seen

theorem mode_concat (as : List Argument) (a : Argument) :
    Mode.ofArguments (as ++ [a]) =
      match a with
      | .help => .help
      | .version => if Mode.ofArguments as = .help then .help else .version
      | .tokens => if Mode.ofArguments as = .compile then .tokens else Mode.ofArguments as
      | _ => Mode.ofArguments as := by
  cases a with
  | version =>
    by_cases help : .help ∈ as
    · simp [Mode.ofArguments, help]
    · by_cases version : .version ∈ as <;> by_cases tokens : .tokens ∈ as <;>
        simp [Mode.ofArguments, help, version, tokens]
  | tokens =>
    by_cases help : .help ∈ as
    · simp [Mode.ofArguments, help]
    · by_cases version : .version ∈ as <;> by_cases tokens : .tokens ∈ as <;>
        simp [Mode.ofArguments, help, version, tokens]
  | _ => simp [Mode.ofArguments]

theorem ofArguments_concat (as : List Argument) (a : Argument) :
    ofArguments (as ++ [a]) =
      { mode := match a with
          | .help => .help
          | .version => if (ofArguments as).mode = .help then .help else .version
          | .tokens => if (ofArguments as).mode = .compile then .tokens else (ofArguments as).mode
          | _ => (ofArguments as).mode
        verbose := (ofArguments as).verbose || decide (.verbose = a)
        stdin := (ofArguments as).stdin || decide (.stdin = a)
        file := (ofArguments as).file.or a.file?
        output := a.output?.or (ofArguments as).output } := by
  simp [ofArguments, mode_concat]

/-- With one more argument the loop holds what all of them say, unless it is a second file. -/
theorem add_ofArguments (as : List Argument) (a : Argument) :
    (ofArguments as).add a =
      if (as.findSome? file?).isSome && a.file?.isSome then .error .severalFiles
      else .ok (ofArguments (as ++ [a])) := by
  have file : as.findSome? file? = (ofArguments as).file := rfl
  rw [ofArguments_concat, file]
  obtain ⟨mode, verbose, stdin, file, output⟩ := ofArguments as
  cases a with
  | version =>
    by_cases help : mode = .help <;> simp [add, file?, output?, help]
  | tokens =>
    by_cases compile : mode = .compile <;> simp [add, file?, output?, compile]
  | file path => cases file <;> simp [add, file?, output?]
  | _ => simp [add, file?, output?]

/-- From there on the loop takes more arguments as they are understood, and refuses what is not. -/
theorem foldlM_ofArguments (as : List Argument) (arguments : List String) :
    arguments.foldlM read (ofArguments as) =
      (ofStrings (as.findSome? file?).isSome arguments).map fun bs => ofArguments (as ++ bs) := by
  induction arguments generalizing as with
  | nil =>
    simp only [List.foldlM_nil, ofStrings, Except.map, List.append_nil]
    rfl
  | cons argument arguments ih =>
    rw [List.foldlM_cons, read]
    cases understood : ofString argument with
    | error e =>
      rw [ofStrings_cons_error _ understood]
      rfl
    | ok a =>
      change ((ofArguments as).add a >>= _) = _
      rw [ofStrings_cons _ understood, add_ofArguments]
      split
      · rfl
      · have given : ((as ++ [a]).findSome? file?).isSome =
            ((as.findSome? file?).isSome || a.file?.isSome) := by
          rw [List.findSome?_append, List.findSome?_singleton, Option.isSome_or]
        change arguments.foldlM read (ofArguments (as ++ [a])) = _
        rw [ih, given]
        cases ofStrings ((as.findSome? file?).isSome || a.file?.isSome) arguments with
        | error e => rfl
        | ok bs =>
          have whole : as ++ [a] ++ bs = as ++ a :: bs := by simp
          exact congrArg (Except.ok ∘ ofArguments) whole

end Seen

namespace Options

variable {a : Argument} {left right as : List Argument}

/-- The options are those that the arguments say together. -/
theorem parse_eq (arguments : List String) :
    parse arguments = (do let as ← ofStrings false arguments; ofArguments as) := by
  have seen : arguments.foldlM Seen.read {} =
      (ofStrings false arguments).map Seen.ofArguments :=
    Seen.foldlM_ofArguments [] arguments
  rw [parse, seen]
  cases ofStrings false arguments <;> rfl

theorem ofArguments_verbose (left right : List Argument) :
    ofArguments (left ++ .verbose :: right) =
      (ofArguments (left ++ right)).map fun o => { o with verbose := true } := by
  have mode : Mode.ofArguments (left ++ .verbose :: right) = Mode.ofArguments (left ++ right) :=
    mode_insert ⟨by decide, by decide, by decide⟩
  have input : (Seen.ofArguments (left ++ .verbose :: right)).input? =
      (Seen.ofArguments (left ++ right)).input? := by
    have member : (.stdin ∈ left ++ .verbose :: right) ↔ .stdin ∈ left ++ right := by simp
    rw [Seen.input?_ofArguments, Seen.input?_ofArguments, findSome?_file?_insert rfl,
      decide_eq_decide.2 member]
  rw [ofArguments_eq, ofArguments_eq, mode, input]
  cases (Seen.ofArguments (left ++ right)).input? with
  | error e => rfl
  | ok input =>
    simp only
    split
    · rfl
    · simp [Except.map, ofInput, mode, output?]

/-- What says where the source comes from, if nothing else does, leaves all other options as they
are. -/
theorem ofArguments_input {input : Input} (silent : Silent a) (quiet : a ≠ .verbose)
    (plain : a.output? = none)
    (known : (Seen.ofArguments (left ++ a :: right)).input? = .ok (some input)) :
    ofArguments (left ++ a :: right) = .ok (ofInput (left ++ right) (some input)) := by
  have output : (left ++ a :: right).filterMap output? = (left ++ right).filterMap output? := by
    simp [plain]
  rw [ofArguments_eq, known]
  simp [ofInput, mode_insert silent, output, quiet.symm]

section Sourceless

variable (sourceless : ∀ a ∈ left ++ right, a.file? = none ∧ a ≠ .stdin)

include sourceless

theorem ofArguments_file (path : String) : ofArguments (left ++ .file path :: right) =
    .ok (ofInput (left ++ right) (some (.file path))) := by
  have stdin : .stdin ∉ left ++ .file path :: right := by
    intro member
    have inside : .stdin ∈ left ++ right := by simpa using member
    exact (sourceless _ inside).2 rfl
  have before : left.findSome? file? = none :=
    List.findSome?_eq_none_iff.2 fun a member => (sourceless a (by simp [member])).1
  have file : (left ++ .file path :: right).findSome? file? = some path := by
    rw [List.findSome?_append, before]
    rfl
  refine ofArguments_input ⟨by simp, by simp, by simp⟩ (by simp) rfl ?_
  rw [Seen.input?_ofArguments, decide_eq_false stdin, file]

theorem ofArguments_stdin : ofArguments (left ++ .stdin :: right) =
    .ok (ofInput (left ++ right) (some .stdin)) := by
  have file : (left ++ .stdin :: right).findSome? file? = none := by
    rw [findSome?_file?_insert rfl]
    exact List.findSome?_eq_none_iff.2 fun a member => (sourceless a member).1
  refine ofArguments_input ⟨by simp, by simp, by simp⟩ (by simp) rfl ?_
  rw [Seen.input?_ofArguments, decide_eq_true (by simp), file]

end Sourceless

theorem findSome?_file?_filter {q : Argument → Bool} (keeps : ∀ a, q a = false → a.file? = none)
    (as : List Argument) : (as.filter q).findSome? file? = as.findSome? file? := by
  induction as with
  | nil => rfl
  | cons a as ih =>
    cases kept : q a with
    | true => rw [List.filter_cons_of_pos kept, List.findSome?_cons, List.findSome?_cons, ih]
    | false =>
      rw [List.filter_cons_of_neg (by simp [kept]), List.findSome?_cons, keeps a kept, ih]

theorem ofArguments_withoutOutput (as : List Argument) :
    ofArguments (as.filter fun a => a.output?.isNone) =
      (ofArguments as).map fun o => { o with output := none } := by
  have keeps : ∀ a : Argument, a.output?.isNone = false → a.file? = none := by
    intro a said
    cases a with
    | output => rfl
    | _ => simp [output?] at said
  have mode : Mode.ofArguments (as.filter fun a => a.output?.isNone) = Mode.ofArguments as := by
    simp [Mode.ofArguments, List.mem_filter, output?]
  have input : (Seen.ofArguments (as.filter fun a => a.output?.isNone)).input? =
      (Seen.ofArguments as).input? := by
    have member : (.stdin ∈ as.filter fun a => a.output?.isNone) ↔ .stdin ∈ as := by
      simp [List.mem_filter, output?]
    rw [Seen.input?_ofArguments, Seen.input?_ofArguments, findSome?_file?_filter keeps,
      decide_eq_decide.2 member]
  have verbose : (.verbose ∈ as.filter fun a => a.output?.isNone) ↔ .verbose ∈ as := by
    simp [List.mem_filter, output?]
  have outputs : (as.filter fun a => a.output?.isNone).filterMap output? = [] := by
    simp [List.filterMap_eq_nil_iff]
  rw [ofArguments_eq, ofArguments_eq, mode, input]
  cases (Seen.ofArguments as).input? with
  | error e => rfl
  | ok input =>
    simp only
    split
    · rfl
    · simp only [Except.map, ofInput, mode, decide_eq_decide.2 verbose, outputs, List.getLast?_nil]

theorem output_mem {o : Options} (ok : ofArguments as = .ok o) {path : String}
    (said : o.output = some path) : ∃ a ∈ as, a.output? = some path := by
  rw [ofArguments_eq] at ok
  split at ok
  · cases ok
  · split at ok
    · cases ok
    · obtain rfl := Except.ok.inj ok
      exact List.mem_filterMap.1 (List.mem_of_getLast? said)

end Options

end Command

end ShaderDef
