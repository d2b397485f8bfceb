import ShaderDef.Compiler
import ShaderDef.Proofs.Lexical.Byte
import ShaderDef.Proofs.LineEnds.Lexing
import Mathlib.Data.List.Induction

/-! Display with other line ends. A location counts rows by line feeds and starts each column anew,
and a report shows one line without its end. So neither tells what ends the lines of a source. -/

namespace ShaderDef

open Text

def crlf (source : String) : String :=
  String.ofList (Text.crlf source.toList)

@[simp] theorem toList_crlf (source : String) : (crlf source).toList = Text.crlf source.toList :=
  String.toList_ofList

variable {source : String} {i j : Nat}

namespace Location

theorem foldl_advance_crlf (l : Location) (cs : List Char) :
    (bytes (Text.crlf cs)).foldl advance l = (bytes cs).foldl advance l := by
  induction cs generalizing l with
  | nil => rfl
  | cons c cs ih =>
    have first : bytes (c :: cs) = String.utf8EncodeChar c ++ bytes cs := rfl
    rw [first, List.foldl_append, ← ih]
    by_cases feed : c = '\n'
    · subst feed
      rfl
    · rw [crlf_cons feed]
      exact List.foldl_append

theorem ofOffset_front {before rest : List Char} (whole : source.toList = before ++ rest) :
    ofOffset source (size before) = (bytes before).foldl advance {} := by
  rw [ofOffset, whole, bytes_append, ← length_bytes before, List.take_left]

theorem ofOffset_crlf (facing : Facing source.toList i j) :
    ofOffset (crlf source) j = ofOffset source i := by
  obtain ⟨before, rest, whole, rfl, rfl, _⟩ := facing
  have whole' : (crlf source).toList = Text.crlf before ++ Text.crlf rest := by
    rw [toList_crlf, whole, crlf_append]
  rw [ofOffset_front whole, ofOffset_front whole', foldl_advance_crlf]

end Location

namespace Report

theorem lastLine_concat (cs : List Char) (c : Char) :
    lastLine (cs ++ [c]) = if c = '\n' then [] else lastLine cs ++ [c] := by
  by_cases feed : c = '\n' <;> simp [lastLine, feed]

theorem lastLine_crlf (cs : List Char) : lastLine (Text.crlf cs) = lastLine cs := by
  induction cs using List.reverseRecOn with
  | nil => rfl
  | append_singleton cs c ih =>
    rw [crlf_append, lastLine_concat]
    by_cases feed : c = '\n'
    · subst feed
      have ended := lastLine_concat (Text.crlf cs ++ ['\r']) '\n'
      rw [List.append_assoc] at ended
      exact ended
    · rw [if_neg feed, ← ih, crlf_cons feed]
      exact (lastLine_concat _ c).trans (if_neg feed)

theorem takeWhile_inline_crlf (cs : List Char) :
    ((Text.crlf cs).takeWhile fun c => !isBreak c) = cs.takeWhile fun c => !isBreak c := by
  induction cs with
  | nil => rfl
  | cons c cs ih =>
    by_cases feed : c = '\n'
    · subst feed
      rfl
    · rw [crlf_cons feed, List.takeWhile_cons, List.takeWhile_cons, ih]

structure Agree (r s : Report) : Prop where
  message : r.message = s.message
  filename : r.filename = s.filename
  lineOffset : r.lineOffset = s.lineOffset
  annotation : r.annotation = s.annotation
  help : r.help = s.help
  before : r.lineBefore = s.lineBefore
  after : r.lineAfter = s.lineAfter
  overhang : r.overhang = s.overhang
  location : r.location = s.location

section Agree

variable {r s : Report}

theorem Agree.line (agree : r.Agree s) : r.line = s.line := by
  unfold Report.line
  rw [agree.before, agree.after]

theorem Agree.column (agree : r.Agree s) : r.column = s.column := by
  unfold Report.column
  rw [agree.before, agree.overhang, agree.line]

theorem Agree.trimmedLine (agree : r.Agree s) : r.trimmedLine = s.trimmedLine := by
  unfold Report.trimmedLine
  rw [agree.line]

theorem Agree.window (agree : r.Agree s) : r.window = s.window := by
  unfold Report.window
  rw [agree.trimmedLine, agree.column]

theorem Agree.leftMark (agree : r.Agree s) : r.leftMark = s.leftMark := by
  unfold Report.leftMark
  rw [agree.window]

theorem Agree.shownLine (agree : r.Agree s) : r.shownLine = s.shownLine := by
  simp only [Report.shownLine, rightMark, snippet, agree.leftMark, agree.window, agree.trimmedLine]

theorem Agree.caret (agree : r.Agree s) : r.caret = s.caret := by
  unfold Report.caret
  rw [agree.column, agree.window, agree.leftMark]

theorem Agree.row (agree : r.Agree s) : r.row = s.row := by
  unfold Report.row
  rw [agree.location, agree.lineOffset]

theorem Agree.number (agree : r.Agree s) : r.number = s.number := by
  unfold Report.number
  rw [agree.row]

theorem Agree.lines (agree : r.Agree s) : r.lines = s.lines := by
  unfold Report.lines Report.headLine Report.placeLine Report.gapLine Report.sourceLine
    Report.caretLine Report.helpLine Report.margin
  rw [agree.message, agree.filename, agree.number, agree.location, agree.shownLine, agree.caret,
    agree.annotation, agree.help]

theorem Agree.render (agree : r.Agree s) : r.render = s.render := by
  simp only [Report.render, agree.row, agree.caret, agree.lines]

end Agree

end Report

namespace Diagnostic

/-- What a report shows of a source at the end of its front. -/
theorem report_front {d : Diagnostic} {before rest : List Char}
    (whole : source.toList = before ++ rest) (place : d.index = size before) (filename : String) :
    (d.report source filename).lineBefore = Report.lastLine before ∧
      (d.report source filename).lineAfter = (rest.takeWhile fun c => !isBreak c) ∧
      (d.report source filename).overhang = 0 := by
  refine ⟨?_, ?_, ?_⟩
  · simp only [Report.lineBefore, report, place, whole, takeBytes_size_append]
  · simp only [Report.lineAfter, report, place, whole, dropBytes_size_append]
  · simp only [Report.overhang, report, place, whole, takeBytes_size_append]
    omega

theorem report_crlf {d d' : Diagnostic} (kind : d'.kind = d.kind) (message : d'.message = d.message)
    (facing : Facing source.toList d.index d'.index) (filename : String) :
    (d'.report (crlf source) filename).Agree (d.report source filename) := by
  have location := Location.ofOffset_crlf facing
  obtain ⟨front, rest, whole, place, place', _⟩ := facing
  have whole' : (crlf source).toList = Text.crlf front ++ Text.crlf rest := by
    rw [toList_crlf, whole, crlf_append]
  obtain ⟨before, after, overhang⟩ := report_front whole place.symm filename
  obtain ⟨before', after', overhang'⟩ := report_front whole' place'.symm filename
  exact {
    message := message
    filename := rfl
    lineOffset := rfl
    annotation := by simp only [report, kind]
    help := by simp only [report, kind]
    before := by rw [before, before', Report.lastLine_crlf]
    after := by rw [after, after', Report.takeWhile_inline_crlf]
    overhang := by rw [overhang, overhang']
    location := location }

end Diagnostic

end ShaderDef
