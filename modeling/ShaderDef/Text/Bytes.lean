/-! Byte offsets into text. Positions count the bytes of the UTF-8 encoding; text itself is a list
of characters, so a cut never falls inside one: a character that does not fit is left out. -/

namespace ShaderDef.Text

def size : List Char → Nat
  | [] => 0
  | c :: cs => c.utf8Size + size cs

def takeBytes (n : Nat) : List Char → List Char
  | [] => []
  | c :: cs => if c.utf8Size ≤ n then c :: takeBytes (n - c.utf8Size) cs else []

def dropBytes (n : Nat) : List Char → List Char
  | [] => []
  | c :: cs => if c.utf8Size ≤ n then dropBytes (n - c.utf8Size) cs else c :: cs

def slice (start stop : Nat) (cs : List Char) : List Char :=
  takeBytes (stop - start) (dropBytes start cs)

def bytes (cs : List Char) : List UInt8 :=
  cs.flatMap String.utf8EncodeChar

@[simp] theorem size_nil : size [] = 0 := rfl

@[simp] theorem size_cons (c : Char) (cs : List Char) : size (c :: cs) = c.utf8Size + size cs := rfl

@[simp] theorem size_append (as bs : List Char) : size (as ++ bs) = size as + size bs := by
  induction as with
  | nil => simp
  | cons c as ih => simp [ih, Nat.add_assoc]

theorem length_le_size (cs : List Char) : cs.length ≤ size cs := by
  induction cs with
  | nil => simp
  | cons c cs ih =>
    have width := c.utf8Size_pos
    simp only [List.length_cons, size_cons]
    omega

theorem size_pos {cs : List Char} (nonempty : cs ≠ []) : 0 < size cs := by
  cases cs with
  | nil => exact absurd rfl nonempty
  | cons c cs => exact Nat.lt_of_lt_of_le c.utf8Size_pos (Nat.le_add_right _ _)

@[simp] theorem takeBytes_append_dropBytes (n : Nat) (cs : List Char) :
    takeBytes n cs ++ dropBytes n cs = cs := by
  induction cs generalizing n with
  | nil => rfl
  | cons c cs ih =>
    simp only [takeBytes, dropBytes]
    split
    · simp [ih]
    · rfl

theorem size_takeBytes_le (n : Nat) (cs : List Char) : size (takeBytes n cs) ≤ n := by
  induction cs generalizing n with
  | nil => simp [takeBytes]
  | cons c cs ih =>
    simp only [takeBytes]
    split
    · have rest := ih (n - c.utf8Size)
      simp only [size_cons]
      omega
    · simp

@[simp] theorem dropBytes_zero (cs : List Char) : dropBytes 0 cs = cs := by
  cases cs with
  | nil => rfl
  | cons c cs => simp [dropBytes, Nat.not_le.2 c.utf8Size_pos]

@[simp] theorem takeBytes_zero (cs : List Char) : takeBytes 0 cs = [] := by
  cases cs with
  | nil => rfl
  | cons c cs => simp [takeBytes, Nat.not_le.2 c.utf8Size_pos]

/-- A cut at a character boundary splits the text there. -/
@[simp] theorem dropBytes_size_append (as bs : List Char) : dropBytes (size as) (as ++ bs) = bs := by
  induction as with
  | nil => simp
  | cons c as ih => simp [dropBytes, ih]

@[simp] theorem takeBytes_size_append (as bs : List Char) : takeBytes (size as) (as ++ bs) = as := by
  induction as with
  | nil => simp
  | cons c as ih => simp [takeBytes, ih]

theorem slice_append (as bs cs : List Char) :
    slice (size as) (size as + size bs) (as ++ (bs ++ cs)) = bs := by
  rw [slice, dropBytes_size_append, Nat.add_sub_cancel_left, takeBytes_size_append]

@[simp] theorem length_bytes (cs : List Char) : (bytes cs).length = size cs := by
  induction cs with
  | nil => rfl
  | cons c cs ih => simpa [bytes] using ih

end ShaderDef.Text
