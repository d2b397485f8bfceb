import ShaderDef.Text.Class
import ShaderDef.Token
import Mathlib.Data.List.TakeWhile

/-! How the character classes exclude each other. All letters, digits and graphic characters are
among the first 128 characters, where a look at each of them decides. -/

namespace ShaderDef.Text

/-- What holds of the first 128 characters holds of every character that is one of them. -/
theorem of_ascii {P : Char → Prop} (all : ∀ n < 128, P (Char.ofNat n)) :
    ∀ c : Char, c.toNat < 128 → P c := by
  intro c ascii
  have known := all c.toNat ascii
  rwa [Char.ofNat_toNat] at known

theorem toNat_lt_of_isPrintable {c : Char} (printable : isPrintable c = true) : c.toNat < 128 := by
  simp only [isPrintable, Bool.and_eq_true, decide_eq_true_eq] at printable
  exact Nat.lt_of_le_of_lt (UInt32.le_iff_toNat_le.1 printable.2) (by decide)

theorem toNat_lt_of_isAlpha {c : Char} (letter : c.isAlpha = true) : c.toNat < 128 := by
  rcases (Bool.or_eq_true _ _).mp letter with upper | lower
  · have bounds : 'A'.val ≤ c.val ∧ c.val ≤ 'Z'.val := of_decide_eq_true upper
    exact Nat.lt_of_le_of_lt (UInt32.le_iff_toNat_le.1 bounds.2) (by decide)
  · have bound : decide (c.val ≤ 'z'.val) = true := ((Bool.and_eq_true _ _).mp lower).2
    exact Nat.lt_of_le_of_lt (UInt32.le_iff_toNat_le.1 (of_decide_eq_true bound)) (by decide)

theorem toNat_lt_of_isDigit {c : Char} (digit : c.isDigit = true) : c.toNat < 128 := by
  simp only [Char.isDigit, Bool.and_eq_true, decide_eq_true_eq] at digit
  exact Nat.lt_of_le_of_lt (UInt32.le_iff_toNat_le.1 digit.2) (by decide)

theorem class_of_isAlpha {c : Char} (letter : c.isAlpha = true) :
    isForeign c = false ∧ isSpace c = false ∧ c ≠ '"' ∧ c.isDigit = false := by
  have all : ∀ c : Char, c.toNat < 128 → c.isAlpha = true →
      isForeign c = false ∧ isSpace c = false ∧ c ≠ '"' ∧ c.isDigit = false :=
    of_ascii (by decide)
  exact all c (toNat_lt_of_isAlpha letter) letter

theorem class_of_isDigit {c : Char} (digit : c.isDigit = true) :
    isForeign c = false ∧ isSpace c = false ∧ c ≠ '"' := by
  have all : ∀ c : Char, c.toNat < 128 → c.isDigit = true →
      isForeign c = false ∧ isSpace c = false ∧ c ≠ '"' :=
    of_ascii (by decide)
  exact all c (toNat_lt_of_isDigit digit) digit

/-- Every graphic character that opens no string, number or word is punctuation. -/
theorem mem_punctuation {c : Char} (native : isForeign c = false) (solid : isSpace c = false)
    (other : c ≠ '"' ∧ c.isDigit = false ∧ c.isAlpha = false) :
    [c] ∈ Token.Kind.punctuation.map Prod.fst := by
  have printable : isPrintable c = true := by
    simpa [isForeign, solid] using native
  have all : ∀ c : Char, c.toNat < 128 →
      isSpace c = false ∧ isPrintable c = true ∧ c ≠ '"' ∧ c.isDigit = false ∧ c.isAlpha = false →
        [c] ∈ Token.Kind.punctuation.map Prod.fst :=
    of_ascii (by decide)
  exact all c (toNat_lt_of_isPrintable printable) ⟨solid, printable, other⟩

section Runs

variable {p : Char → Bool}

theorem stops_dropWhile (cs : List Char) : ∀ d ∈ (cs.dropWhile p).head?, p d = false := by
  intro d first
  have stop := List.head?_dropWhile_not p cs
  rw [Option.mem_def.1 first] at stop
  exact stop

theorem span_append {body rest : List Char} (inside : ∀ c ∈ body, p c = true)
    (stops : ∀ d ∈ rest.head?, p d = false) :
    (body ++ rest).takeWhile p = body ∧ (body ++ rest).dropWhile p = rest := by
  rw [List.takeWhile_append_of_pos inside, List.dropWhile_append_of_pos inside]
  cases rest with
  | nil => simp
  | cons d rest => simp [stops d rfl]

end Runs

end ShaderDef.Text
