import Mathlib.Data.List.Forall2
import ShaderDef.Proofs.Command.Arguments

/-! Command lines. Main statement: which lists of arguments are accepted and what they say can be told
without reading them in order. Only the last output counts, so the arguments may be given in any
order that keeps the order of the outputs. -/

namespace ShaderDef

namespace Command

open Argument

variable {a : Argument} {argument path : String} {arguments others : List String}
  {as : List Argument} {given : Bool} {o : Options}

def isPath (argument : String) : Bool :=
  argument.toList.head? != some '-'

def plainOptions : List String :=
  ["-help", "-h", "-?", "-version", "-verbose", "-stdin", "-tokens"]

def helpOptions : List String :=
  ["-help", "-h", "-?"]

def outputPath? (argument : String) : Option String :=
  if saysOutput argument then some (String.ofList (argument.toList.drop 3)) else none

/-- A command line that can be acted on: every option is known, there is one input at most, and there
is one if it is needed. -/
structure Accepted (arguments : List String) : Prop where
  known : ∀ argument ∈ arguments, isPath argument = false →
    argument ∈ plainOptions ∨ ∃ path, path ≠ "" ∧ argument = "-o=" ++ path
  single : (arguments.filter isPath).length ≤ 1
  either : ¬("-stdin" ∈ arguments ∧ ∃ argument ∈ arguments, isPath argument = true)
  enough : "-stdin" ∈ arguments ∨ (∃ argument ∈ arguments, isPath argument = true) ∨
    "-version" ∈ arguments ∨ ∃ argument ∈ arguments, argument ∈ helpOptions

def describedMode (arguments : List String) : Mode :=
  if ∃ argument ∈ arguments, argument ∈ helpOptions then .help
  else if "-version" ∈ arguments then .version
  else if "-tokens" ∈ arguments then .tokens
  else .compile

def describedInput (arguments : List String) : Option Input :=
  if "-stdin" ∈ arguments then some .stdin else (arguments.find? isPath).map .file

def described (arguments : List String) : Options where
  mode := describedMode arguments
  verbose := decide ("-verbose" ∈ arguments)
  input := describedInput arguments
  output := (arguments.filterMap outputPath?).getLast?

inductive Written : Argument → String → Prop
  | flag {name : String} {a : Argument} (listed : (name, a) ∈ flags) : Written a ("-" ++ name)
  | output {path : String} (some : path ≠ "") : Written (.output path) ("-o=" ++ path)
  | file {path : String} (plain : ¬IsOption path) : Written (.file path) path

theorem isPath_iff : isPath argument = true ↔ ¬IsOption argument := by
  unfold isPath IsOption
  cases argument.toList with
  | nil => simp
  | cons c cs => simp

theorem ofString_output (some : path ≠ "") : ofString ("-o=" ++ path) = .ok (.output path) := by
  have parts : divide ('o' :: '=' :: path.toList) = ("o", .some path) := divide_output.2 rfl
  simp [ofString, ofOption, parts, some]

/-- An argument is understood exactly as it is written. -/
theorem ofString_eq_ok : ofString argument = .ok a ↔ Written a argument := by
  constructor
  · intro ok
    by_cases option : IsOption argument
    · obtain ⟨option, starts⟩ := option
      unfold ofString at ok
      rw [starts] at ok
      rcases ofOption_eq_ok ok with ⟨path, parts, rfl⟩ | ⟨name, parts, listed⟩
      · have spelled := divide_output.1 parts
        have whole : argument = "-o=" ++ path := by
          rw [← String.toList_inj, starts, spelled, String.toList_append]
          rfl
        have some : path ≠ "" := by
          rintro rfl
          rw [spelled] at ok
          cases ok
        exact whole ▸ .output some
      · have whole : argument = "-" ++ name := by
          rw [← String.toList_inj, starts, divide_plain parts, String.toList_append]
          rfl
        exact whole ▸ .flag listed
    · rw [ofString_file option] at ok
      obtain rfl := Except.ok.inj ok
      exact .file option
  · intro written
    have flags : ∀ entry ∈ flags, ofString ("-" ++ entry.1) = .ok entry.2 := by decide
    cases written with
    | @flag name a listed => exact flags (name, a) listed
    | output some => exact ofString_output some
    | file plain => exact ofString_file plain

theorem Written.file? (written : Written a argument) :
    a.file? = if isPath argument then some argument else none := by
  have flags : ∀ entry ∈ flags, entry.2.file? = none ∧ isPath ("-" ++ entry.1) = false := by decide
  cases written with
  | flag listed =>
    obtain ⟨none, option⟩ := flags _ listed
    simp only [none, option, Bool.false_eq_true, if_false]
  | @output path some =>
    have option : isPath ("-o=" ++ path) = false := by simp [isPath]
    rw [option]
    rfl
  | file plain =>
    rw [isPath_iff.2 plain]
    rfl

theorem Written.output? (written : Written a argument) : a.output? = outputPath? argument := by
  have flags : ∀ entry ∈ flags, entry.2.output? = none ∧ outputPath? ("-" ++ entry.1) = none := by
    decide
  cases written with
  | flag listed =>
    obtain ⟨none, silent⟩ := flags _ listed
    rw [none, silent]
  | output some => simp [outputPath?, saysOutput, Argument.output?]
  | file plain =>
    simp [outputPath?, saysOutput_of_file plain, Argument.output?]

theorem paths_cons (given : Bool) (argument : String) (arguments : List String) :
    given.toNat + ((argument :: arguments).filter isPath).length ≤ 1 ↔
      (given && isPath argument) = false ∧
        (given || isPath argument).toNat + (arguments.filter isPath).length ≤ 1 := by
  cases path : isPath argument <;> cases given <;> simp [path, Nat.add_comm]

/-- All arguments are understood if each one is and at most one of them is a file. -/
theorem ofStrings_eq_ok : ofStrings given arguments = .ok as ↔
    List.Forall₂ Written as arguments ∧ given.toNat + (arguments.filter isPath).length ≤ 1 := by
  induction arguments generalizing given as with
  | nil =>
    rw [ofStrings, List.forall₂_nil_right_iff]
    constructor
    · intro ok
      exact ⟨(Except.ok.inj ok).symm, Bool.toNat_le given⟩
    · rintro ⟨rfl, _⟩
      rfl
  | cons argument arguments ih =>
    have isSome {first : Argument} (written : Written first argument) :
        first.file?.isSome = isPath argument := by
      rw [written.file?]
      cases isPath argument <;> rfl
    rw [paths_cons]
    constructor
    · intro ok
      obtain ⟨first, others, understood, single, rest, rfl⟩ := ofStrings_cons_eq_ok ok
      have written := ofString_eq_ok.1 understood
      rw [isSome written] at single rest
      obtain ⟨all, count⟩ := ih.1 rest
      exact ⟨.cons written all, single, count⟩
    · rintro ⟨all, single, count⟩
      cases all with
      | cons written all =>
        rw [ofStrings_cons given (ofString_eq_ok.2 written), isSome written, single,
          ih.2 ⟨all, count⟩]
        rfl

theorem Written.unique {b : Argument} (first : Written a argument) (second : Written b argument) :
    a = b :=
  Except.ok.inj ((ofString_eq_ok.2 first).symm.trans (ofString_eq_ok.2 second))

def spellings (a : Argument) : List String :=
  (flags.filter (·.2 = a)).map ("-" ++ ·.1)

theorem written_iff_spelled (flag : a.file? = none ∧ a.output? = none) :
    Written a argument ↔ argument ∈ spellings a := by
  rw [spellings, List.mem_map]
  constructor
  · intro written
    cases written with
    | flag listed => exact ⟨_, List.mem_filter.2 ⟨listed, decide_eq_true rfl⟩, rfl⟩
    | output some => cases flag.2
    | file plain => cases flag.1
  · rintro ⟨⟨name, b⟩, member, rfl⟩
    obtain ⟨listed, same⟩ := List.mem_filter.1 member
    obtain rfl : b = a := of_decide_eq_true same
    exact .flag listed

theorem exists_written (known : isPath argument = false →
    argument ∈ plainOptions ∨ ∃ path, path ≠ "" ∧ argument = "-o=" ++ path) :
    ∃ a, Written a argument := by
  have flags : ∀ option ∈ plainOptions, ∃ entry ∈ flags, option = "-" ++ entry.1 := by decide
  by_cases plain : isPath argument = true
  · exact ⟨.file argument, .file (isPath_iff.1 plain)⟩
  · rcases known (by simpa using plain) with listed | ⟨path, some, rfl⟩
    · obtain ⟨entry, member, rfl⟩ := flags argument listed
      exact ⟨entry.2, .flag member⟩
    · exact ⟨.output path, .output some⟩

theorem Written.known (written : Written a argument) (option : isPath argument = false) :
    argument ∈ plainOptions ∨ ∃ path, path ≠ "" ∧ argument = "-o=" ++ path := by
  have flags : ∀ entry ∈ flags, "-" ++ entry.1 ∈ plainOptions := by decide
  cases written with
  | flag listed => exact .inl (flags _ listed)
  | @output path some => exact .inr ⟨path, some, rfl⟩
  | file plain =>
    rw [isPath_iff.2 plain] at option
    cases option

theorem exists_all_written
    (each : ∀ argument ∈ arguments, ∃ a, Written a argument) :
    ∃ as, List.Forall₂ Written as arguments := by
  induction arguments with
  | nil => exact ⟨[], .nil⟩
  | cons argument arguments ih =>
    obtain ⟨a, written⟩ := each argument List.mem_cons_self
    obtain ⟨as, all⟩ := ih fun other inside => each other (List.mem_cons_of_mem argument inside)
    exact ⟨a :: as, .cons written all⟩

section AllWritten

variable (all : List.Forall₂ Written as arguments)

include all

theorem mem_iff_written : a ∈ as ↔ ∃ argument ∈ arguments, Written a argument := by
  induction all with
  | nil => simp
  | @cons b argument as arguments written _ ih =>
    have first : a = b ↔ Written a argument :=
      ⟨fun same => same ▸ written, fun other => other.unique written⟩
    rw [List.mem_cons, ih, first]
    simp

theorem mem_iff_spelled (flag : a.file? = none ∧ a.output? = none) :
    a ∈ as ↔ ∃ argument ∈ arguments, argument ∈ spellings a := by
  rw [mem_iff_written all]
  exact exists_congr fun argument => and_congr_right fun _ => written_iff_spelled flag

/-- A flag with one spelling is given just if it is written. -/
theorem mem_iff_mem {spelling : String} (flag : a.file? = none ∧ a.output? = none)
    (only : spellings a = [spelling]) : a ∈ as ↔ spelling ∈ arguments := by
  rw [mem_iff_spelled all flag, only]
  simp

theorem known_of_written : ∀ argument ∈ arguments, ∃ a, Written a argument := by
  induction all with
  | nil => simp
  | cons written _ ih => simpa using ⟨⟨_, written⟩, ih⟩

theorem findSome?_file?_eq : as.findSome? file? = arguments.find? isPath := by
  induction all with
  | nil => rfl
  | @cons a argument as arguments written _ ih =>
    rw [List.findSome?_cons, List.find?_cons, written.file?, ih]
    cases isPath argument <;> rfl

theorem filterMap_output?_eq : as.filterMap output? = arguments.filterMap outputPath? := by
  induction all with
  | nil => rfl
  | cons written _ ih => rw [List.filterMap_cons, List.filterMap_cons, written.output?, ih]

theorem mode_eq : Mode.ofArguments as = describedMode arguments := by
  simp only [Mode.ofArguments, describedMode, mem_iff_spelled all (a := .help) ⟨rfl, rfl⟩,
    mem_iff_mem all (a := .version) ⟨rfl, rfl⟩ rfl, mem_iff_mem all (a := .tokens) ⟨rfl, rfl⟩ rfl]
  rfl

theorem stdin_iff : .stdin ∈ as ↔ "-stdin" ∈ arguments :=
  mem_iff_mem all ⟨rfl, rfl⟩ rfl

theorem input_of_either
    (either : ¬("-stdin" ∈ arguments ∧ ∃ argument ∈ arguments, isPath argument = true)) :
    (Seen.ofArguments as).input? = .ok (describedInput arguments) := by
  rw [Seen.input?_ofArguments, findSome?_file?_eq all, describedInput,
    decide_eq_decide.2 (stdin_iff all)]
  by_cases given : "-stdin" ∈ arguments
  · have none : arguments.find? isPath = none := by
      rw [List.find?_eq_none]
      exact fun argument member plain => either ⟨given, argument, member, plain⟩
    rw [decide_eq_true given, none, if_pos given]
  · rw [decide_eq_false given, if_neg given]
    cases arguments.find? isPath <;> rfl

theorem input_of_both
    (both : "-stdin" ∈ arguments ∧ ∃ argument ∈ arguments, isPath argument = true) :
    ∃ path, (Seen.ofArguments as).input? = .error (.stdinAndFile path) := by
  obtain ⟨path, found⟩ := Option.isSome_iff_exists.1 (List.find?_isSome.2 both.2)
  refine ⟨path, ?_⟩
  rw [Seen.input?_ofArguments, findSome?_file?_eq all,
    decide_eq_true ((stdin_iff all).2 both.1), found]

theorem ofInput_eq : Options.ofInput as (describedInput arguments) = described arguments := by
  have verbose : .verbose ∈ as ↔ "-verbose" ∈ arguments := mem_iff_mem all ⟨rfl, rfl⟩ rfl
  rw [Options.ofInput, mode_eq all, filterMap_output?_eq all, decide_eq_decide.2 verbose]
  rfl

theorem ofArguments_of_either
    (either : ¬("-stdin" ∈ arguments ∧ ∃ argument ∈ arguments, isPath argument = true)) :
    Options.ofArguments as =
      if (describedMode arguments).needsInput && (describedInput arguments).isNone
      then .error .noInput
      else .ok (described arguments) := by
  rw [Options.ofArguments_eq, input_of_either all either]
  simp only [mode_eq all, ofInput_eq all]

end AllWritten

/-- What to do needs an input unless help or the version is asked for. -/
theorem needsInput_describedMode : (describedMode arguments).needsInput = false ↔
    "-version" ∈ arguments ∨ ∃ argument ∈ arguments, argument ∈ helpOptions := by
  unfold describedMode
  split_ifs with help version tokens
  · simp only [Mode.needsInput, help, or_true]
  · simp only [Mode.needsInput, version, true_or]
  · simp only [Mode.needsInput, help, version, or_self, Bool.true_eq_false]
  · simp only [Mode.needsInput, help, version, or_self, Bool.true_eq_false]

theorem isNone_describedInput : (describedInput arguments).isNone = false ↔
    "-stdin" ∈ arguments ∨ ∃ argument ∈ arguments, isPath argument = true := by
  unfold describedInput
  split_ifs with stdin
  · simp only [Option.isNone_some, stdin, true_or]
  · rw [Option.isNone_map, ← Option.not_isSome, Bool.not_eq_false', List.find?_isSome]
    simp only [stdin, false_or]

theorem enough_iff :
    ((describedMode arguments).needsInput && (describedInput arguments).isNone) = false ↔
      "-stdin" ∈ arguments ∨ (∃ argument ∈ arguments, isPath argument = true) ∨
        "-version" ∈ arguments ∨ ∃ argument ∈ arguments, argument ∈ helpOptions := by
  rw [Bool.and_eq_false_iff, needsInput_describedMode, isNone_describedInput, or_comm, or_assoc]

/-- A command line is accepted exactly if it can be acted on, and then for what it says. -/
theorem parse_eq_ok :
    Options.parse arguments = .ok o ↔ Accepted arguments ∧ o = described arguments := by
  rw [Options.parse_eq]
  constructor
  · intro ok
    cases understood : ofStrings false arguments with
    | error e =>
      rw [understood] at ok
      cases ok
    | ok as =>
      rw [understood] at ok
      replace ok : Options.ofArguments as = .ok o := ok
      obtain ⟨all, single⟩ := ofStrings_eq_ok.1 understood
      rw [Bool.toNat_false, Nat.zero_add] at single
      have known : ∀ argument ∈ arguments, isPath argument = false →
          argument ∈ plainOptions ∨ ∃ path, path ≠ "" ∧ argument = "-o=" ++ path := by
        intro argument member option
        obtain ⟨a, written⟩ := known_of_written all argument member
        exact written.known option
      have either : ¬("-stdin" ∈ arguments ∧ ∃ argument ∈ arguments, isPath argument = true) := by
        intro both
        obtain ⟨path, refused⟩ := input_of_both all both
        rw [Options.ofArguments_eq, refused] at ok
        cases ok
      rw [ofArguments_of_either all either] at ok
      split_ifs at ok with lacking
      exact ⟨⟨known, single, either, enough_iff.1 (Bool.eq_false_iff.2 lacking)⟩,
        (Except.ok.inj ok).symm⟩
  · rintro ⟨accepted, rfl⟩
    obtain ⟨as, all⟩ := exists_all_written fun argument member =>
      exists_written (accepted.known argument member)
    have understood : ofStrings false arguments = .ok as :=
      ofStrings_eq_ok.2 ⟨all, by simpa using accepted.single⟩
    rw [understood]
    change Options.ofArguments as = _
    rw [ofArguments_of_either all accepted.either, enough_iff.2 accepted.enough]
    rfl

section Order

variable (reordered : arguments.Perm others)

include reordered

theorem accepted_perm (accepted : Accepted arguments) : Accepted others where
  known argument member := accepted.known argument (reordered.mem_iff.2 member)
  single := (reordered.filter isPath).length_eq ▸ accepted.single
  either := by simpa only [reordered.mem_iff] using accepted.either
  enough := by simpa only [reordered.mem_iff] using accepted.enough

/-- One path at most is the same one in any order. -/
theorem find?_isPath_perm (single : (arguments.filter isPath).length ≤ 1) :
    arguments.find? isPath = others.find? isPath := by
  have paths := reordered.filter isPath
  rw [← List.head?_filter, ← List.head?_filter]
  cases first : arguments.filter isPath with
  | nil =>
    rw [first, List.nil_perm] at paths
    rw [paths]
  | cons path rest =>
    rw [first, List.length_cons] at single
    obtain rfl : rest = [] := List.length_eq_zero_iff.1 (by omega)
    rw [first, List.singleton_perm] at paths
    rw [paths]

/-- Of the order only that of the outputs counts. -/
theorem described_perm (single : (arguments.filter isPath).length ≤ 1)
    (outputs : arguments.filter saysOutput = others.filter saysOutput) :
    described arguments = described others := by
  have paths (arguments : List String) : arguments.filterMap outputPath? =
      (arguments.filter saysOutput).filterMap
        fun argument => some (String.ofList (argument.toList.drop 3)) :=
    List.filterMap_filter.symm
  have last : arguments.filterMap outputPath? = others.filterMap outputPath? := by
    rw [paths arguments, paths others, outputs]
  simp only [described, describedMode, describedInput, find?_isPath_perm reordered single,
    reordered.mem_iff, last]

theorem parse_perm (outputs : arguments.filter saysOutput = others.filter saysOutput)
    (parsed : Options.parse arguments = .ok o) : Options.parse others = .ok o := by
  obtain ⟨accepted, rfl⟩ := parse_eq_ok.1 parsed
  exact parse_eq_ok.2 ⟨accepted_perm reordered accepted,
    described_perm reordered accepted.single outputs⟩

end Order

/-- Which command lines are accepted, and for what; and any order of the arguments that keeps the
order of the outputs is accepted alike, for the same. -/
theorem parse_exact (arguments : List String) :
    (∀ o, Options.parse arguments = .ok o ↔ Accepted arguments ∧ o = described arguments) ∧
      ∀ others, arguments.Perm others → arguments.filter saysOutput = others.filter saysOutput →
        ∀ o, Options.parse arguments = .ok o ↔ Options.parse others = .ok o := by
  refine ⟨fun o => parse_eq_ok, fun others reordered outputs o => ?_⟩
  exact ⟨parse_perm reordered outputs, parse_perm reordered.symm outputs.symm⟩

/-- Two outputs that keep their order, and all else the other way round. -/
theorem parse_exact_reversed :
    let arguments := ["-o=a=b", "-tokens", "shader", "-version", "-o=c", "-verbose"]
    let others := ["-verbose", "-version", "-o=a=b", "shader", "-o=c", "-tokens"]
    arguments.Perm others ∧ arguments.filter saysOutput = others.filter saysOutput ∧
      Options.parse arguments = .ok ⟨.version, true, some (.file "shader"), some "c"⟩ ∧
      Options.parse others = .ok ⟨.version, true, some (.file "shader"), some "c"⟩ := by
  intro arguments others
  have reordered : arguments.Perm others := by decide
  have outputs : arguments.filter saysOutput = others.filter saysOutput := by decide
  have parsed : Options.parse arguments = .ok ⟨.version, true, some (.file "shader"), some "c"⟩ := by
    decide
  exact ⟨reordered, outputs, parsed,
    ((parse_exact arguments).2 others reordered outputs _).1 parsed⟩

end Command

end ShaderDef
