/-! Character classes of shader definitions. A character is printable ASCII, ASCII white space, or
foreign: neither of the two. Lines of reports are trimmed by white space as Unicode defines it. -/

namespace ShaderDef.Text

def isSpace (c : Char) : Bool :=
  c == ' ' || c == '\t' || c == '\n' || c == '\x0b' || c == '\x0c' || c == '\r'

def isPrintable (c : Char) : Bool :=
  ' ' ≤ c && c ≤ '~'

def isForeign (c : Char) : Bool :=
  !isPrintable c && !isSpace c

def isGraphic (c : Char) : Bool :=
  isPrintable c && !isSpace c

def isBreak (c : Char) : Bool :=
  c == '\n' || c == '\r'

def isWordPart (c : Char) : Bool :=
  c.isAlphanum || c == '_'

theorem isForeign_eq_false_of_isSpace {c : Char} (h : isSpace c = true) : isForeign c = false := by
  simp [isForeign, h]

theorem isForeign_eq_false_of_isPrintable {c : Char} (h : isPrintable c = true) :
    isForeign c = false := by
  simp [isForeign, h]

theorem isSpace_eq_false_of_isForeign {c : Char} (h : isForeign c = true) : isSpace c = false := by
  simp only [isForeign, Bool.and_eq_true, Bool.not_eq_true'] at h
  exact h.2

def blankRanges : List (Nat × Nat) :=
  [(0x0009, 0x000d), (0x0020, 0x0020), (0x0085, 0x0085), (0x00a0, 0x00a0), (0x1680, 0x1680),
   (0x2000, 0x200a), (0x2028, 0x2029), (0x202f, 0x202f), (0x205f, 0x205f), (0x3000, 0x3000)]

def isBlank (c : Char) : Bool :=
  blankRanges.any fun range => range.1 ≤ c.toNat && c.toNat ≤ range.2

def trimStart (cs : List Char) : List Char :=
  cs.dropWhile isBlank

def trimEnd (cs : List Char) : List Char :=
  (cs.reverse.dropWhile isBlank).reverse

def trim (cs : List Char) : List Char :=
  trimEnd (trimStart cs)

theorem trimEnd_isPrefix (cs : List Char) : trimEnd cs <+: cs := by
  have tail := List.dropWhile_suffix (l := cs.reverse) isBlank
  simpa [trimEnd] using List.reverse_prefix.2 tail

theorem trim_isInfix (cs : List Char) : trim cs <:+: cs :=
  (trimEnd_isPrefix _).isInfix.trans (List.dropWhile_suffix isBlank).isInfix

end ShaderDef.Text
