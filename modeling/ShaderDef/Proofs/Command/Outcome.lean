import ShaderDef.Command.Run

/-! Outcomes of the command. Main statement: a run ends in one of ten ways, and what it is told and
what it reads settle which one, with all that it prints and writes. -/

namespace ShaderDef

namespace Command

variable {arguments : List String} {stdin : ByteArray} {files : Files} {o : Options}
  {source : String} {d : Definition} {f : Fault} {cause : Failure} {r : Outcome}

def decode (contents : Except Failure ByteArray) : Except Failure String := do
  let bytes ← contents
  match String.fromUTF8? bytes with
  | none => .error .encoding
  | some source => .ok source

theorem decode_ok {bytes : ByteArray} (text : String.fromUTF8? bytes = some source) :
    decode (.ok bytes) = .ok source := by
  change (match String.fromUTF8? bytes with | none => _ | some source => _) = _
  rw [text]

namespace Options

theorem execute_eq (o : Options) (contents : Except Failure ByteArray)
    (refused : Option Failure) : o.execute contents refused =
      match o.mode, decode contents with
      | .help, _ => { stdout := usage }
      | .version, _ => { stdout := version ++ "\n" }
      | .tokens, .ok source => printTokens source
      | .compile, .ok source => o.compile source refused
      | _, .error cause => .failure s!"read {o.inputName}" cause := by
  unfold execute decode
  rcases contents with cause | bytes
  · cases o.mode <;> rfl
  · simp only [bind, Except.bind]
    cases String.fromUTF8? bytes <;> cases o.mode <;> rfl

theorem compile_of_ok (ok : ShaderDef.compile source = .ok d) (o : Options)
    (refused : Option Failure) : o.compile source refused =
      o.deliver (d.toJson.pretty ++ "\n") (if o.verbose then progress source else "") refused := by
  simp only [compile, Compiler.compile, Compiler.ofSource, ok]

theorem compile_of_error (stopped : ShaderDef.compile source = .error f) (o : Options)
    (refused : Option Failure) : o.compile source refused =
      .refusal ((Compiler.ofSource source).explain f.diagnostic o.displayName) := by
  simp only [compile, Compiler.compile, Compiler.ofSource, stopped, Compiler.explain]

end Options

structure Compiles (arguments : List String) (stdin : ByteArray) (files : Files) (o : Options)
    (source : String) : Prop where
  parsed : Options.parse arguments = .ok o
  mode : o.mode = .compile
  holds : decode (o.read stdin files) = .ok source

inductive RunsTo (arguments : List String) (stdin : ByteArray) (files : Files) : Outcome → Prop
  | misused {e : UsageError} (refused : Options.parse arguments = .error e) :
      RunsTo arguments stdin files { exit := 1, stderr := s!"error: {e.message}\n\n{usage}\n" }
  | help {o : Options} (parsed : Options.parse arguments = .ok o) (mode : o.mode = .help) :
      RunsTo arguments stdin files { stdout := usage }
  | version {o : Options} (parsed : Options.parse arguments = .ok o) (mode : o.mode = .version) :
      RunsTo arguments stdin files { stdout := version ++ "\n" }
  | unread {o : Options} {cause : Failure} (parsed : Options.parse arguments = .ok o)
      (needed : o.mode.needsInput = true) (fails : decode (o.read stdin files) = .error cause) :
      RunsTo arguments stdin files (.failure s!"read {o.inputName}" cause)
  | tokens {o : Options} {source : String} (parsed : Options.parse arguments = .ok o)
      (mode : o.mode = .tokens) (holds : decode (o.read stdin files) = .ok source) :
      RunsTo arguments stdin files
        { stdout := "".intercalate ((Token.ofSource source).map fun t => t.display ++ "\n") }
  | refused {o : Options} {source : String} {f : Fault} {report : String}
      (compiles : Compiles arguments stdin files o source)
      (stopped : ShaderDef.compile source = .error f)
      (laid : (f.diagnostic.report source o.displayName).render = .ok report) :
      RunsTo arguments stdin files { exit := 1, stderr := report }
  | aborted {o : Options} {source : String} {f : Fault} {e : Report.Overflow}
      (compiles : Compiles arguments stdin files o source)
      (stopped : ShaderDef.compile source = .error f)
      (lost : (f.diagnostic.report source o.displayName).render = .error e) :
      RunsTo arguments stdin files { exit := 101 }
  | printed {o : Options} {source : String} {d : Definition}
      (compiles : Compiles arguments stdin files o source)
      (compiled : ShaderDef.compile source = .ok d) (output : o.output = none) :
      RunsTo arguments stdin files
        { stdout := d.toJson.pretty ++ "\n", stderr := if o.verbose then progress source else "" }
  | written {o : Options} {source path : String} {d : Definition}
      (compiles : Compiles arguments stdin files o source)
      (compiled : ShaderDef.compile source = .ok d) (output : o.output = some path)
      (free : files.refuses? path = none) :
      RunsTo arguments stdin files
        { stderr := if o.verbose then progress source ++ logLine "nslc" ⟨.info, s!"wrote {path}"⟩
            else ""
          written := some (path, d.toJson.pretty ++ "\n") }
  | unwritten {o : Options} {source path : String} {d : Definition} {cause : Failure}
      (compiles : Compiles arguments stdin files o source)
      (compiled : ShaderDef.compile source = .ok d) (output : o.output = some path)
      (full : files.refuses? path = some cause) :
      RunsTo arguments stdin files
        { exit := 1
          stderr := (if o.verbose then progress source else "") ++
            (Outcome.failure s!"write {path}" cause).stderr }

theorem runOn_of_parse (ok : Options.parse arguments = .ok o) (stdin : ByteArray) (files : Files) :
    runOn arguments stdin files =
      o.execute (o.read stdin files) (o.output.bind files.refuses?) := by
  rw [runOn, ok]

theorem runOn_of_error (parsed : Options.parse arguments = .ok o)
    (needed : o.mode.needsInput = true) (fails : decode (o.read stdin files) = .error cause) :
    runOn arguments stdin files = .failure s!"read {o.inputName}" cause := by
  rw [runOn_of_parse parsed, Options.execute_eq, fails]
  cases mode : o.mode with
  | help | version =>
    rw [mode] at needed
    cases needed
  | tokens | compile => rfl

theorem Compiles.eq (compiles : Compiles arguments stdin files o source) :
    runOn arguments stdin files = o.compile source (o.output.bind files.refuses?) := by
  rw [runOn_of_parse compiles.parsed, Options.execute_eq, compiles.mode, compiles.holds]

theorem Compiles.eq_refusal (compiles : Compiles arguments stdin files o source)
    (stopped : ShaderDef.compile source = .error f) :
    runOn arguments stdin files = .refusal (f.diagnostic.report source o.displayName).render :=
  compiles.eq.trans (Options.compile_of_error stopped o _)

theorem Compiles.eq_deliver (compiles : Compiles arguments stdin files o source)
    (compiled : ShaderDef.compile source = .ok d) :
    runOn arguments stdin files =
      o.deliver (d.toJson.pretty ++ "\n") (if o.verbose then progress source else "")
        (o.output.bind files.refuses?) :=
  compiles.eq.trans (Options.compile_of_ok compiled o _)

theorem RunsTo.eq (runs : RunsTo arguments stdin files r) : runOn arguments stdin files = r := by
  cases runs with
  | misused refused =>
    rw [runOn, refused]
    rfl
  | help parsed mode => rw [runOn_of_parse parsed, Options.execute_eq, mode]
  | version parsed mode => rw [runOn_of_parse parsed, Options.execute_eq, mode]
  | unread parsed needed fails => exact runOn_of_error parsed needed fails
  | tokens parsed mode holds =>
    rw [runOn_of_parse parsed, Options.execute_eq, mode, holds]
    rfl
  | refused compiles stopped laid =>
    rw [compiles.eq_refusal stopped, laid]
    rfl
  | aborted compiles stopped lost =>
    rw [compiles.eq_refusal stopped, lost]
    rfl
  | printed compiles compiled output =>
    rw [compiles.eq_deliver compiled]
    unfold Options.deliver
    rw [output]
  | @written o source path d compiles compiled output free =>
    rw [compiles.eq_deliver compiled]
    unfold Options.deliver
    rw [output, Option.bind_some, free]
    cases o.verbose <;> rfl
  | unwritten compiles compiled output full =>
    rw [compiles.eq_deliver compiled]
    unfold Options.deliver
    rw [output, Option.bind_some, full]
    rfl

/-- Every run ends in one of these ways. -/
theorem runOn_runsTo (arguments : List String) (stdin : ByteArray) (files : Files) :
    RunsTo arguments stdin files (runOn arguments stdin files) := by
  have ends {r : Outcome} (runs : RunsTo arguments stdin files r) :
      RunsTo arguments stdin files (runOn arguments stdin files) := runs.eq.symm ▸ runs
  cases parsed : Options.parse arguments with
  | error e => exact ends (.misused parsed)
  | ok o =>
    cases holds : decode (o.read stdin files) with
    | error cause =>
      cases mode : o.mode with
      | help => exact ends (.help parsed mode)
      | version => exact ends (.version parsed mode)
      | _ => exact ends (.unread parsed (by rw [mode]; rfl) holds)
    | ok source =>
      cases mode : o.mode with
      | help => exact ends (.help parsed mode)
      | version => exact ends (.version parsed mode)
      | tokens => exact ends (.tokens parsed mode holds)
      | compile =>
        have compiles : Compiles arguments stdin files o source := ⟨parsed, mode, holds⟩
        cases result : ShaderDef.compile source with
        | error f =>
          cases report : (f.diagnostic.report source o.displayName).render with
          | ok text => exact ends (.refused compiles result report)
          | error e => exact ends (.aborted compiles result report)
        | ok d =>
          cases output : o.output with
          | none => exact ends (.printed compiles result output)
          | some path =>
            cases refused : files.refuses? path with
            | none => exact ends (.written compiles result output refused)
            | some cause => exact ends (.unwritten compiles result output refused)

/-- What a run comes to is settled by what it is told and what it reads. -/
theorem runOn_eq_iff : runOn arguments stdin files = r ↔ RunsTo arguments stdin files r :=
  ⟨fun ran => ran ▸ runOn_runsTo arguments stdin files, RunsTo.eq⟩

end Command

end ShaderDef
