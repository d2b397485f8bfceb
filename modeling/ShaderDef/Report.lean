import ShaderDef.Text.Bytes
import ShaderDef.Text.Class

/-! Reports: a message with the source line it is about and a caret under the place. A location is a
row and a column, both counted from one; a line feed ends a row, and a column is a byte. In a report
tabs count as four columns, the line is trimmed, and of a long line only a window around the place
is shown. -/

namespace ShaderDef

structure Location where
  row : Nat := 1
  column : Nat := 1
deriving DecidableEq, Repr

namespace Location

def advance (l : Location) (byte : UInt8) : Location :=
  if byte = 10 then ⟨l.row + 1, 1⟩ else ⟨l.row, l.column + 1⟩

def ofOffset (source : String) (offset : Nat) : Location :=
  ((Text.bytes source.toList).take offset).foldl advance {}

end Location

open Text

structure Report where
  message : String
  source : String
  position : Nat
  filename : String := "input"
  /-- The number of rows above the source in the file that it is embedded in. -/
  lineOffset : Nat := 0
  annotation : Option String := none
  help : Option String := none
deriving DecidableEq, Repr

namespace Report

inductive Overflow where
  | row | caret
deriving DecidableEq, Repr

def fullLimit : Nat := 80

def context : Nat := 30

def rowLimit : Nat := UInt64.size - 1

def caretLimit : Nat := 65535

def ellipsis : List Char := ['.', '.', '.']

def lastLine (cs : List Char) : List Char :=
  (cs.reverse.takeWhile (· != '\n')).reverse

def expandTabs (cs : List Char) : List Char :=
  cs.flatMap fun c => if c = '\t' then [' ', ' ', ' ', ' '] else [c]

def lineBefore (r : Report) : List Char :=
  lastLine (takeBytes r.position r.source.toList)

def lineAfter (r : Report) : List Char :=
  (dropBytes r.position r.source.toList).takeWhile fun c => !isBreak c

/-- The bytes by which the position stands inside a character. -/
def overhang (r : Report) : Nat :=
  min r.position (size r.source.toList) - size (takeBytes r.position r.source.toList)

def line (r : Report) : List Char :=
  expandTabs (r.lineBefore ++ r.lineAfter)

def trimmedLine (r : Report) : List Char :=
  trim r.line

def column (r : Report) : Nat :=
  size (expandTabs r.lineBefore) + r.overhang - size (r.line.takeWhile isBlank)

structure Window where
  start : Nat
  stop : Nat
deriving DecidableEq, Repr

def window (r : Report) : Window :=
  let length := r.trimmedLine.length
  if size r.trimmedLine ≤ fullLimit then ⟨0, length⟩
  else ⟨min (r.column - context) length, min (r.column + context) length⟩

def leftMark (r : Report) : List Char :=
  if 0 < r.window.start then ellipsis else []

def rightMark (r : Report) : List Char :=
  if r.window.stop < r.trimmedLine.length then ellipsis else []

def snippet (r : Report) : List Char :=
  (r.trimmedLine.drop r.window.start).take (r.window.stop - r.window.start)

def shownLine (r : Report) : List Char :=
  r.leftMark ++ r.snippet ++ r.rightMark

def caret (r : Report) : Nat :=
  r.column - r.window.start + size r.leftMark

def location (r : Report) : Location :=
  .ofOffset r.source r.position

def row (r : Report) : Nat :=
  r.location.row + r.lineOffset

def number (r : Report) : List Char :=
  (toString r.row).toList

def spaces (n : Nat) : List Char :=
  List.replicate n ' '

def margin (r : Report) : List Char :=
  spaces r.number.length

def headLine (r : Report) : List Char :=
  "error: ".toList ++ r.message.toList

def placeLine (r : Report) : List Char :=
  " --> ".toList ++ r.filename.toList ++ [':'] ++ r.number ++ [':']
    ++ (toString r.location.column).toList

def gapLine (r : Report) : List Char :=
  r.margin ++ [' ', '|']

def sourceLine (r : Report) : List Char :=
  r.number ++ [' ', '|', ' '] ++ r.shownLine

def caretLine (r : Report) : List Char :=
  trimEnd (r.margin ++ [' ', '|', ' '] ++ spaces r.caret ++ ['^', ' ']
    ++ (r.annotation.getD "").toList)

def helpLine (r : Report) : List (List Char) :=
  r.help.toList.map fun text => "help: ".toList ++ text.toList

def lines (r : Report) : List (List Char) :=
  [r.headLine, r.placeLine, r.gapLine, r.sourceLine, r.caretLine] ++ r.helpLine

def render (r : Report) : Except Overflow String :=
  if rowLimit < r.row then .error .row
  else if caretLimit < r.caret then .error .caret
  else .ok (String.ofList (r.lines.flatMap (· ++ ['\n'])))

end Report

end ShaderDef
