import ShaderDef.Text.Bytes
import ShaderDef.Proofs.Lexical.Class

/-! The classes of bytes. Beyond ASCII every byte of a character is foreign, so a byte is white
space, or foreign, exactly if the character is that it belongs to. -/

namespace ShaderDef.Text

def isPrintableByte (b : UInt8) : Bool :=
  0x20 ≤ b && b ≤ 0x7e

def isSpaceByte (b : UInt8) : Bool :=
  b == 0x20 || 0x09 ≤ b && b ≤ 0x0d

def isForeignByte (b : UInt8) : Bool :=
  !isPrintableByte b && !isSpaceByte b

theorem isForeignByte_eq_false_iff {b : UInt8} :
    isForeignByte b = false ↔ isPrintableByte b = true ∨ isSpaceByte b = true := by
  rw [isForeignByte, Bool.and_eq_false_iff, Bool.not_eq_false', Bool.not_eq_false']

theorem class_of_high_byte {b : UInt8} (high : 128 ≤ b.toNat) :
    isSpaceByte b = false ∧ isForeignByte b = true := by
  have apart : ∀ limit : UInt8, limit.toNat < 128 → ¬ b ≤ limit := by
    intro limit low below
    have := UInt8.le_iff_toNat_le.1 below
    omega
  have blank : isSpaceByte b = false := by
    have other : b ≠ 0x20 := fun same => apart 0x20 (by decide) (same ▸ UInt8.le_refl _)
    simp [isSpaceByte, other, apart 0x0d (by decide)]
  exact ⟨blank, by simp [isForeignByte, isPrintableByte, blank, apart 0x7e (by decide)]⟩

theorem high_of_mem_encode {c : Char} (wide : 128 ≤ c.toNat) :
    ∀ b ∈ String.utf8EncodeChar c, 128 ≤ b.toNat := by
  have beyond : ¬ c.val.toNat ≤ 127 := Nat.not_le.2 wide
  intro b member
  simp only [String.utf8EncodeChar, if_neg beyond] at member
  split_ifs at member
  all_goals
    simp only [List.mem_cons, List.not_mem_nil, or_false] at member
    rcases member with rfl | rfl | rfl | rfl <;> simp only [UInt8.toNat_ofNat'] <;> omega

theorem class_of_wide {c : Char} (wide : 128 ≤ c.toNat) :
    isSpace c = false ∧ isForeign c = true := by
  have narrow : ∀ c : Char, isSpace c = true → c.toNat < 128 := by
    intro c space
    simp only [isSpace, Bool.or_eq_true, beq_iff_eq] at space
    rcases space with ((((rfl | rfl) | rfl) | rfl) | rfl) | rfl <;> decide
  have blank : isSpace c = false := by
    rw [Bool.eq_false_iff]
    intro space
    have := narrow c space
    omega
  have shown : isPrintable c = false := by
    rw [Bool.eq_false_iff]
    intro printable
    have := toNat_lt_of_isPrintable printable
    omega
  exact ⟨blank, by simp [isForeign, blank, shown]⟩

/-- The bytes of a character are of its class. -/
theorem class_of_mem_encode {c : Char} {b : UInt8} (member : b ∈ String.utf8EncodeChar c) :
    isSpaceByte b = isSpace c ∧ isForeignByte b = isForeign c := by
  have narrow : ∀ c : Char, c.toNat < 128 → ((String.utf8EncodeChar c).all fun b =>
      isSpaceByte b == isSpace c && isForeignByte b == isForeign c) = true :=
    of_ascii (by decide)
  rcases Nat.lt_or_ge c.toNat 128 with ascii | wide
  · simpa using List.all_eq_true.1 (narrow c ascii) b member
  · obtain ⟨blank, foreign⟩ := class_of_high_byte (high_of_mem_encode wide b member)
    obtain ⟨solid, outside⟩ := class_of_wide wide
    exact ⟨blank.trans solid.symm, foreign.trans outside.symm⟩

theorem bytes_append (as bs : List Char) : bytes (as ++ bs) = bytes as ++ bytes bs :=
  List.flatMap_append

theorem isSpaceByte_of_mem_bytes {cs : List Char} (blank : ∀ c ∈ cs, isSpace c = true) :
    ∀ b ∈ bytes cs, isSpaceByte b = true := by
  intro b member
  obtain ⟨c, inside, encoded⟩ := List.mem_flatMap.1 member
  exact (class_of_mem_encode encoded).1.trans (blank c inside)

theorem isForeignByte_of_mem_bytes {cs : List Char} (native : ∀ c ∈ cs, isForeign c = false) :
    ∀ b ∈ bytes cs, isForeignByte b = false := by
  intro b member
  obtain ⟨c, inside, encoded⟩ := List.mem_flatMap.1 member
  exact (class_of_mem_encode encoded).2.trans (native c inside)

end ShaderDef.Text
