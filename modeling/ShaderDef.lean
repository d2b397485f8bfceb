import ShaderDef.Text.Class
import ShaderDef.Text.Bytes
import ShaderDef.Text.Shown
import ShaderDef.Token
import ShaderDef.Lexeme
import ShaderDef.Cursor
import ShaderDef.Fault
import ShaderDef.Definition.Basic
import ShaderDef.Definition.Json
import ShaderDef.Outline.Reading
import ShaderDef.Outline.Block
import ShaderDef.Outline.Section
import ShaderDef.Outline.Scope
import ShaderDef.Compile
import ShaderDef.Report
import ShaderDef.Log
import ShaderDef.Compiler
import ShaderDef.Command.Directory
import ShaderDef.Command.Options
import ShaderDef.Command.Run
import ShaderDef.Main
import ShaderDef.Proofs.Lexical.Class
import ShaderDef.Proofs.Lexical.Form
import ShaderDef.Proofs.Lexical.Reading
import ShaderDef.Proofs.Lexical.Scan
import ShaderDef.Proofs.Lexical.Join
import ShaderDef.Proofs.Lexical.Byte
import ShaderDef.Proofs.Lexical.Span
import ShaderDef.Proofs.Lexical.Tiling
import ShaderDef.Proofs.Lexical.Progress
import ShaderDef.Proofs.Lexical.Rule
import ShaderDef.Proofs.Lexical.Foreign
import ShaderDef.Proofs.Lexical.Word
import ShaderDef.Proofs.Outline.Alike
import ShaderDef.Proofs.Outline.Simulation
import ShaderDef.Proofs.Outline.Once
import ShaderDef.Proofs.Outline.Extension
import ShaderDef.Proofs.Outline.Telling
import ShaderDef.Proofs.Outline.Passage
import ShaderDef.Proofs.Outline.Reach
import ShaderDef.Proofs.Outline.Blame
import ShaderDef.Proofs.Outline.Opening
import ShaderDef.Proofs.Outline.Declared
import ShaderDef.Proofs.Grammar.Derivation
import ShaderDef.Proofs.Grammar.Braces
import ShaderDef.Proofs.Grammar.Accept
import ShaderDef.Proofs.Grammar.Recognize
import ShaderDef.Proofs.Grammar.Value
import ShaderDef.Proofs.Grammar.Native
import ShaderDef.Proofs.Trivia
import ShaderDef.Proofs.Composition.Shift
import ShaderDef.Proofs.Composition.Merge
import ShaderDef.Proofs.Composition.Concat
import ShaderDef.Proofs.Composition.FirstFault
import ShaderDef.Proofs.Composition.Locality
import ShaderDef.Proofs.Roundtrip.WellFormed
import ShaderDef.Proofs.Roundtrip.Image
import ShaderDef.Proofs.Roundtrip.Render
import ShaderDef.Proofs.Roundtrip.Spells
import ShaderDef.Proofs.Roundtrip.Canonical
import ShaderDef.Proofs.Output
import ShaderDef.Proofs.Anchor
import ShaderDef.Proofs.Composition.Opaque
import ShaderDef.Proofs.LineEnds.Lexing
import ShaderDef.Proofs.LineEnds.Display
import ShaderDef.Proofs.LineEnds.Invariance
import ShaderDef.Proofs.Malformed
import ShaderDef.Proofs.Assign
import ShaderDef.Proofs.Outline.Course
import ShaderDef.Proofs.SetOnce
import ShaderDef.Proofs.Outline.Division
import ShaderDef.Proofs.Composition.Split
import ShaderDef.Proofs.OnePass.Slice
import ShaderDef.Proofs.OnePass.Pull
import ShaderDef.Proofs.OnePass.Follow
import ShaderDef.Proofs.OnePass.Scope
import ShaderDef.Proofs.OnePass.Section
import ShaderDef.Proofs.OnePass.Compile
import ShaderDef.Proofs.Report.Layout
import ShaderDef.Proofs.Outline.Cause
import ShaderDef.Proofs.Report.Caret
import ShaderDef.Proofs.Session
import ShaderDef.Proofs.Command.Arguments
import ShaderDef.Proofs.Command.Outcome
import ShaderDef.Proofs.Command.Run
import ShaderDef.Proofs.Capture
import ShaderDef.Proofs.Outline.Bindings
import ShaderDef.Proofs.Report.Padding
import ShaderDef.Proofs.Location
import ShaderDef.Proofs.Report.Line
import ShaderDef.Proofs.Report.Excerpt
import ShaderDef.Proofs.Report.Ending
import ShaderDef.Proofs.Command.Parse
import ShaderDef.Proofs.Grammar.Scanned
import ShaderDef.Proofs.OnePass.Nesting
import ShaderDef.Proofs.Outline.Late
import ShaderDef.Proofs.Outline.Placing
import ShaderDef.Proofs.Grammar.Prelude
import ShaderDef.Proofs.Transcript
