/-! Texts as they are shown: in double quotes, and on terminals. Log messages write control
characters by their code points; JSON writes them by four digits. All else stands for itself.
Terminals show text without control sequences. A sequence starts with an escape and runs to its
final character; a command string runs to a bell, any other string to the byte 9C. Escape, cancel
and substitute cut a sequence short, and so does white space where it is not part of one. -/

namespace ShaderDef.Text

def hexDigits (n : Nat) : List Char :=
  Nat.toDigits 16 n

def escapeLogged (c : Char) : List Char :=
  match c with
  | '"' => ['\\', '"']
  | '\\' => ['\\', '\\']
  | '\n' => ['\\', 'n']
  | '\r' => ['\\', 'r']
  | '\t' => ['\\', 't']
  | '\x00' => ['\\', '0']
  | _ =>
    if c < ' ' || c == '\x7f' then ['\\', 'u', '\x7b'] ++ hexDigits c.toNat ++ ['\x7d'] else [c]

def escapeJson (c : Char) : List Char :=
  match c with
  | '"' => ['\\', '"']
  | '\\' => ['\\', '\\']
  | '\x08' => ['\\', 'b']
  | '\x0c' => ['\\', 'f']
  | '\n' => ['\\', 'n']
  | '\r' => ['\\', 'r']
  | '\t' => ['\\', 't']
  | _ =>
    if c < ' ' then
      let digits := hexDigits c.toNat
      ['\\', 'u'] ++ List.replicate (4 - digits.length) '0' ++ digits
    else [c]

def quoteWith (escape : Char → List Char) (s : String) : String :=
  String.ofList ('"' :: s.toList.flatMap escape ++ ['"'])

def quoteLogged : String → String :=
  quoteWith escapeLogged

def quoteJson : String → String :=
  quoteWith escapeJson

inductive Sequence where
  | closed | escape | intermediate | control | device | deviceParameters | deviceIntermediate
  | string | command
deriving DecidableEq, Repr

namespace Sequence

def isLayout (c : Char) : Bool :=
  c == '\t' || c == '\n' || c == '\x0c' || c == '\r'

def between (first last c : Char) : Bool :=
  first ≤ c && c ≤ last

/-- The byte 9C counts also inside the encoding of a character. -/
def endsString (c : Char) : Bool :=
  (String.utf8EncodeChar c).contains 0x9c

def shows : Sequence → Char → Bool
  | closed, c => isLayout c || (' ' ≤ c && c != '\x7f')
  | escape, c | intermediate, c | control, c => isLayout c
  | _, _ => false

def extend : Sequence → Char → Sequence
  | closed, _ => closed
  | escape, c =>
    if c = '[' then control
    else if c = ']' then command
    else if c = 'P' then device
    else if c = 'X' ∨ c = '^' ∨ c = '_' then string
    else if between ' ' '/' c then intermediate
    else if between '0' '~' c then closed
    else escape
  | intermediate, c => if between '0' '~' c then closed else intermediate
  | control, c => if between '@' '~' c then closed else control
  | device, c =>
    if between ' ' '/' c then deviceIntermediate
    else if between '0' '?' c then deviceParameters
    else if between '@' '~' c then string
    else device
  | deviceParameters, c =>
    if between ' ' '/' c then deviceIntermediate
    else if between '<' '~' c then string
    else deviceParameters
  | deviceIntermediate, c => if between '0' '~' c then string else deviceIntermediate
  | string, c => if endsString c then closed else string
  | command, c => if c = '\x07' then closed else command

def next (s : Sequence) (c : Char) : Sequence :=
  if c = '\x1b' then escape
  else if c = '\x18' ∨ c = '\x1a' ∨ s.shows c then closed
  else s.extend c

def plain (s : Sequence) : List Char → List Char
  | [] => []
  | c :: cs => if s.shows c then c :: plain (s.next c) cs else plain (s.next c) cs

end Sequence

def plain (cs : List Char) : List Char :=
  Sequence.closed.plain cs

theorem Sequence.plain_sublist (s : Sequence) (cs : List Char) : (s.plain cs).Sublist cs := by
  induction cs generalizing s with
  | nil => exact .slnil
  | cons c cs ih =>
    unfold plain
    split
    · exact (ih _).cons_cons c
    · exact (ih _).cons c

theorem Sequence.next_closed {c : Char} (shown : closed.shows c = true) :
    closed.next c = closed := by
  have opens : c ≠ '\x1b' := by
    rintro rfl
    simp [shows, isLayout] at shown
  simp [next, opens, shown]

/-- Text that holds no control characters but white space is plain. -/
theorem plain_eq_self {cs : List Char} (shown : ∀ c ∈ cs, Sequence.closed.shows c = true) :
    plain cs = cs := by
  induction cs with
  | nil => rfl
  | cons c cs ih =>
    have first := shown c List.mem_cons_self
    have others := ih fun d inside => shown d (List.mem_cons_of_mem c inside)
    unfold plain at others ⊢
    rw [Sequence.plain, if_pos first, Sequence.next_closed first, others]

end ShaderDef.Text
