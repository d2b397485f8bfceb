import ShaderDef.Proofs.Command.Arguments
import ShaderDef.Proofs.Command.Outcome

/-! Runs compared with each other. Main statement: a run that fails leaves nothing behind but its
message, a file holds what would have been printed, the same source counts the same wherever it
comes from, and to be verbose changes nothing else. -/

namespace ShaderDef

namespace Report

def named (r : Report) (name : String) : Report :=
  { r with filename := name }

theorem placeLine_named (r : Report) (name : String) : (r.named name).placeLine =
    " --> ".toList ++ name.toList ++ [':'] ++ r.number ++ [':']
      ++ (toString r.location.column).toList :=
  rfl

theorem lines_named (r : Report) (name : String) :
    (r.named name).lines = r.headLine :: (r.named name).placeLine ::
      ([r.gapLine, r.sourceLine, r.caretLine] ++ r.helpLine) :=
  rfl

/-- A report names its file in one place. -/
theorem render_named (r : Report) :
    (∃ e, ∀ name, (r.named name).render = .error e) ∨
      ∃ head tail, ∀ name, (r.named name).render = .ok (head ++ name ++ tail) := by
  -- Neither of the limits depends on the name.
  by_cases row : rowLimit < r.row
  · exact .inl ⟨.row, fun _ => if_pos row⟩
  by_cases caret : caretLimit < r.caret
  · exact .inl ⟨.caret, fun _ => (if_neg row).trans (if_pos caret)⟩
  · refine .inr ⟨String.ofList (r.headLine ++ '\n' :: " --> ".toList),
      String.ofList ([':'] ++ r.number ++ [':'] ++ (toString r.location.column).toList ++ '\n' ::
        ([r.gapLine, r.sourceLine, r.caretLine] ++ r.helpLine).flatMap (· ++ ['\n'])),
      fun name => ?_⟩
    refine ((if_neg row).trans (if_neg caret)).trans (congrArg Except.ok ?_)
    rw [lines_named, placeLine_named, ← String.toList_inj]
    simp only [String.toList_ofList, String.toList_append, List.flatMap_cons, List.append_assoc,
      List.cons_append, List.nil_append]

end Report

namespace Command

open Argument

variable {arguments us vs us' vs' : List String} {o : Options} {path text source : String}

/-- An option may be given anywhere, and so may the one to be verbose. -/
theorem parse_verbose (us vs : List String) :
    Options.parse (us ++ "-verbose" :: vs) =
      (Options.parse (us ++ vs)).map fun o => { o with verbose := true } := by
  have inserted : Inserted .verbose (ofStrings false (us ++ vs))
      (ofStrings false (us ++ "-verbose" :: vs)) := ofStrings_insert rfl rfl false us vs
  rw [Options.parse_eq, Options.parse_eq]
  generalize ofStrings false (us ++ vs) = r at inserted
  generalize ofStrings false (us ++ "-verbose" :: vs) = s at inserted
  cases inserted with
  | error e => rfl
  | ok left right => exact Options.ofArguments_verbose left right

theorem parse_withoutOutput (ok : Options.parse arguments = .ok o) :
    Options.parse (arguments.filter fun u => !saysOutput u) = .ok { o with output := none } := by
  rw [Options.parse_eq] at ok ⊢
  cases understood : ofStrings false arguments with
  | error e =>
    rw [understood] at ok
    cases ok
  | ok as =>
    rw [understood] at ok
    replace ok : Options.ofArguments as = .ok o := ok
    rw [ofStrings_withoutOutput understood]
    exact (Options.ofArguments_withoutOutput as).trans (congrArg _ ok)

theorem output_of_parse (ok : Options.parse arguments = .ok o) (given : o.output = some path) :
    "-o=" ++ path ∈ arguments := by
  rw [Options.parse_eq] at ok
  cases understood : ofStrings false arguments with
  | error e =>
    rw [understood] at ok
    cases ok
  | ok as =>
    rw [understood] at ok
    obtain ⟨a, member, output⟩ := Options.output_mem ok given
    obtain ⟨argument, inside, same⟩ := exists_of_mem_ofStrings understood member
    rwa [← (output?_of_ofString same).2 path output]

/-- Arguments that leave it to another one where the source comes from. -/
def Sourceless (arguments : List String) : Prop :=
  ∀ argument ∈ arguments, IsOption argument ∧ argument ≠ "-stdin"

/-- A file or the standard input, wherever it is given among the same arguments, is the input, and
for all else only these arguments count. -/
theorem parse_input (plain : ¬IsOption path) (same : us ++ vs = us' ++ vs')
    (sourceless : Sourceless (us ++ vs)) :
    (∃ e, Options.parse (us ++ path :: vs) = .error e ∧
      Options.parse (us' ++ "-stdin" :: vs') = .error e) ∨
    ∃ o : Options, Options.parse (us ++ path :: vs) = .ok { o with input := some (.file path) } ∧
      Options.parse (us' ++ "-stdin" :: vs') = .ok { o with input := some .stdin } := by
  have file := ofStrings_insert_file plain us vs fun v inside => (sourceless v inside).1
  have stdin : Inserted .stdin (ofStrings false (us' ++ vs'))
      (ofStrings false (us' ++ "-stdin" :: vs')) := ofStrings_insert rfl rfl false us' vs'
  rw [← same] at stdin
  rw [Options.parse_eq, Options.parse_eq]
  generalize ofStrings false (us ++ path :: vs) = r at file
  generalize ofStrings false (us' ++ "-stdin" :: vs') = s at stdin
  cases understood : ofStrings false (us ++ vs) with
  | error e =>
    rw [understood] at file stdin
    cases file
    cases stdin
    exact .inl ⟨e, rfl, rfl⟩
  | ok as =>
    rw [understood] at file stdin
    obtain ⟨left, right, rfl, rfl⟩ := file.split
    obtain ⟨left', right', split, rfl⟩ := stdin.split
    -- The other arguments are understood alike on both sides, and none of them is an input.
    have known : ∀ a ∈ left ++ right, a.file? = none ∧ a ≠ .stdin := by
      intro a member
      obtain ⟨argument, inside, reads⟩ := exists_of_mem_ofStrings understood member
      obtain ⟨⟨option, starts⟩, other⟩ := sourceless argument inside
      refine ⟨(ofString_option starts reads).1, ?_⟩
      rintro rfl
      exact other (eq_of_ofString_stdin reads)
    refine .inr ⟨Options.ofInput (left ++ right) none, ?_, ?_⟩
    · exact Options.ofArguments_file known path
    · rw [split] at known ⊢
      exact Options.ofArguments_stdin known

def Outcome.Clean (r : Outcome) : Prop :=
  r.exit = 1 → r.stdout = "" ∧ r.written = none

structure Outcome.Same (r s : Outcome) : Prop where
  exit : r.exit = s.exit
  stdout : r.stdout = s.stdout
  written : r.written = s.written

theorem Outcome.Same.refl (r : Outcome) : r.Same r :=
  ⟨rfl, rfl, rfl⟩

namespace Options

variable {contents : Except Failure ByteArray} {refused : Option Failure} {d : Definition}
  {f : Fault}

theorem deliver_verbose (o : Options) (verbose : Bool) (text log log' : String)
    (refused : Option Failure) :
    (({ o with verbose } : Options).deliver text log refused).Same
      (o.deliver text log' refused) := by
  unfold deliver
  cases o.output <;> cases refused <;> exact ⟨rfl, rfl, rfl⟩

theorem compile_verbose (o : Options) (verbose : Bool) (source : String)
    (refused : Option Failure) :
    (({ o with verbose } : Options).compile source refused).Same (o.compile source refused) := by
  cases result : ShaderDef.compile source with
  | ok d =>
    rw [compile_of_ok result, compile_of_ok result]
    exact deliver_verbose ..
  | error f =>
    rw [compile_of_error result, compile_of_error result]
    exact .refl _

theorem execute_verbose (o : Options) (verbose : Bool) (contents : Except Failure ByteArray)
    (refused : Option Failure) :
    (({ o with verbose } : Options).execute contents refused).Same
      (o.execute contents refused) := by
  rw [execute_eq, execute_eq]
  cases o.mode with
  | help => exact .refl _
  | version => exact .refl _
  | tokens => cases decode contents <;> exact .refl _
  | compile =>
    cases decode contents with
    | error cause => exact .refl _
    | ok source => exact compile_verbose ..

end Options

/-- Two runs on a source under two names: they differ in how a report of the source names it, if in
anything. -/
structure Outcome.SameBut (source name name' : String) (r s : Outcome) : Prop extends r.Same s where
  stderr : r.stderr = s.stderr ∨ ∃ f head tail, ShaderDef.compile source = .error f ∧
    r.stderr = head ++ name ++ tail ∧ s.stderr = head ++ name' ++ tail

theorem Outcome.SameBut.refl {source name name' : String} (r : Outcome) :
    r.SameBut source name name' r :=
  ⟨.refl r, .inl rfl⟩

namespace Options

variable {contents : Except Failure ByteArray} {bytes : ByteArray}

theorem compile_input (o : Options) (path source : String) (refused : Option Failure) :
    (({ o with input := some (.file path) } : Options).compile source refused).SameBut source path
      "<stdin>" (({ o with input := some .stdin } : Options).compile source refused) := by
  cases result : ShaderDef.compile source with
  | ok d =>
    rw [compile_of_ok result, compile_of_ok result]
    exact .refl _
  | error f =>
    rw [compile_of_error result, compile_of_error result]
    rcases (f.diagnostic.report source "").render_named with ⟨e, report⟩ | ⟨head, tail, report⟩
    · have first : (Compiler.ofSource source).explain f.diagnostic path = .error e := report path
      have second : (Compiler.ofSource source).explain f.diagnostic "<stdin>" = .error e :=
        report "<stdin>"
      rw [displayName, displayName, first, second]
      exact .refl _
    · have first : (Compiler.ofSource source).explain f.diagnostic path =
          .ok (head ++ path ++ tail) := report path
      have second : (Compiler.ofSource source).explain f.diagnostic "<stdin>" =
          .ok (head ++ "<stdin>" ++ tail) := report "<stdin>"
      rw [displayName, displayName, first, second]
      exact ⟨⟨rfl, rfl, rfl⟩, .inr ⟨f, head, tail, result, rfl, rfl⟩⟩

theorem execute_input (o : Options) (path : String) (text : String.fromUTF8? bytes = some source)
    (refused : Option Failure) :
    (({ o with input := some (.file path) } : Options).execute (.ok bytes) refused).SameBut source
      path "<stdin>" (({ o with input := some .stdin } : Options).execute (.ok bytes) refused) := by
  rw [execute_eq, execute_eq, decode_ok text]
  cases o.mode with
  | compile => exact compile_input ..
  | _ => exact .refl _

end Options

variable {stdin bytes : ByteArray} {files : Files}

theorem RunsTo.clean {r : Outcome} (runs : RunsTo arguments stdin files r) : r.Clean := by
  cases runs with
  | misused | unread | refused | unwritten => exact fun _ => ⟨rfl, rfl⟩
  | help | version | tokens | aborted | printed | written =>
    exact fun failed => absurd failed (by simp)

theorem runOn_verbose (us vs : List String) (stdin : ByteArray) (files : Files) :
    (runOn (us ++ "-verbose" :: vs) stdin files).Same (runOn (us ++ vs) stdin files) := by
  unfold runOn
  rw [parse_verbose]
  cases Options.parse (us ++ vs) with
  | error e => exact .refl _
  | ok o => exact Options.execute_verbose o true _ _

theorem runOn_input (plain : ¬IsOption path) (same : us ++ vs = us' ++ vs')
    (sourceless : Sourceless (us ++ vs)) (holds : files.read path = .ok bytes)
    (text : String.fromUTF8? bytes = some source) :
    (runOn (us ++ path :: vs) stdin files).SameBut source path "<stdin>"
      (runOn (us' ++ "-stdin" :: vs') bytes files) := by
  rcases parse_input plain same sourceless with ⟨e, file, input⟩ | ⟨o, file, input⟩
  · rw [runOn, runOn, file, input]
    exact .refl _
  · rw [runOn_of_parse file, runOn_of_parse input]
    simp only [Options.read, holds]
    exact Options.execute_input o path text _

/-- A file that a run has written, and the run that is asked to print instead. -/
structure Stored (arguments : List String) (stdin : ByteArray) (files : Files)
    (path text : String) (o : Options) (source : String) (d : Definition) : Prop where
  parsed : Options.parse arguments = .ok o
  mode : o.mode = .compile
  output : o.output = some path
  asked : "-o=" ++ path ∈ arguments
  decoded : decode (o.read stdin files) = .ok source
  compiled : ShaderDef.compile source = .ok d
  json : text = d.toJson.pretty ++ "\n"
  exit : (runOn arguments stdin files).exit = 0
  stdout : (runOn arguments stdin files).stdout = ""
  printed : runOn (arguments.filter fun u => !saysOutput u) stdin files =
    { stdout := text, stderr := if o.verbose then progress source else "" }

theorem stored_of_written (written : (runOn arguments stdin files).written = some (path, text)) :
    ∃ o source d, Stored arguments stdin files path text o source d := by
  have runs := runOn_runsTo arguments stdin files
  generalize ran : runOn arguments stdin files = r at runs written
  cases runs with
  | @written o source path d compiles compiled output free =>
    obtain ⟨rfl, rfl⟩ := Prod.mk.inj (Option.some.inj written)
    obtain ⟨parsed, mode, holds⟩ := compiles
    have without : Compiles (arguments.filter fun u => !saysOutput u) stdin files
        { o with output := none } source := ⟨parse_withoutOutput parsed, mode, holds⟩
    exact ⟨o, source, d, parsed, mode, output, output_of_parse parsed output, holds, compiled, rfl,
      by rw [ran], by rw [ran], (RunsTo.printed without compiled rfl).eq⟩
  | _ => cases written

/-- The laws of a run: what it leaves behind when it fails, what it writes, and how it compares with
runs that are told their source or to be verbose in another way. -/
structure Lawful (arguments : List String) (stdin : ByteArray) (files : Files) : Prop where
  failed : (runOn arguments stdin files).exit = 1 →
    (runOn arguments stdin files).stdout = "" ∧ (runOn arguments stdin files).written = none
  written : ∀ path text, (runOn arguments stdin files).written = some (path, text) →
    ∃ o source d, Stored arguments stdin files path text o source d
  input : ∀ us path vs us' vs' bytes source, arguments = us ++ path :: vs →
    us ++ vs = us' ++ vs' → ¬IsOption path → Sourceless (us ++ vs) →
    files.read path = .ok bytes → String.fromUTF8? bytes = some source →
    (runOn arguments stdin files).SameBut source path "<stdin>"
      (runOn (us' ++ "-stdin" :: vs') bytes files)
  verbose : ∀ us vs, arguments = us ++ vs →
    (runOn (us ++ "-verbose" :: vs) stdin files).Same (runOn arguments stdin files)

theorem runOn_lawful (arguments : List String) (stdin : ByteArray) (files : Files) :
    Lawful arguments stdin files where
  failed := (runOn_runsTo arguments stdin files).clean
  written _ _ := stored_of_written
  input := by
    rintro us path vs us' vs' bytes source rfl same plain sourceless holds text
    exact runOn_input plain same sourceless holds text
  verbose := by
    rintro us vs rfl
    exact runOn_verbose us vs stdin files

/-- A lone brace is refused under the name of its file and under that of the standard input. A
definition without declarations is written to a file as it would be printed. -/
theorem runOn_lawful_brace :
    let files : Files := ⟨fun path => .ok ⟨if path = "a" then #[125] else #[47, 47]⟩, fun _ => none⟩
    let refused := runOn ["a"] ⟨#[]⟩ files
    let stored := runOn ["-o=c", "b"] ⟨#[]⟩ files
    (refused.exit = 1 ∧ refused.stdout = "" ∧ refused.written = none) ∧
      (∃ f head tail, compile "\x7d" = .error f ∧ refused.stderr = head ++ "a" ++ tail ∧
        (runOn ["-stdin"] ⟨#[125]⟩ files).stderr = head ++ "<stdin>" ++ tail) ∧
      ∃ text, stored.written = some ("c", text) ∧ (runOn ["b"] ⟨#[]⟩ files).stdout = text := by
  intro files refused stored
  have exit : refused.exit = 1 := by decide +kernel
  obtain ⟨stdout, unwritten⟩ := (runOn_lawful ["a"] ⟨#[]⟩ files).failed exit
  refine ⟨⟨exit, stdout, unwritten⟩, ?_, ?_⟩
  · have plain : ¬IsOption "a" := by
      rintro ⟨option, starts⟩
      simp at starts
    have named := ((runOn_lawful ["a"] ⟨#[]⟩ files).input [] "a" [] [] [] ⟨#[125]⟩ "\x7d" rfl rfl
      plain (by simp [Sourceless]) rfl (by decide +kernel)).stderr
    exact named.resolve_left (by decide +kernel)
  · obtain ⟨text, written⟩ : ∃ text, stored.written = some ("c", text) :=
      ⟨(runOn ["b"] ⟨#[]⟩ files).stdout, by decide +kernel⟩
    obtain ⟨o, source, d, same⟩ := (runOn_lawful ["-o=c", "b"] ⟨#[]⟩ files).written "c" text written
    have kept : ["-o=c", "b"].filter (fun u => !saysOutput u) = ["b"] := by decide
    have printed := same.printed
    rw [kept] at printed
    exact ⟨text, written, congrArg Outcome.stdout printed⟩

end Command

end ShaderDef
