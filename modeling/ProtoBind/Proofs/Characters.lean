import ProtoBind.Text.IdentifierClass

/-!
# Character classes as ranges of code points

The letters, digits and identifier characters that names are made of, and what changing their case
does to them.
-/

set_option autoImplicit false

namespace ProtoBind.Text

theorem isUpper_iff {c : Char} : c.isUpper = true ↔ 65 ≤ c.toNat ∧ c.toNat ≤ 90 := by
  delta Char.isUpper
  simp [UInt32.le_iff_toNat_le, ← Char.toNat_val]

theorem isLower_iff {c : Char} : c.isLower = true ↔ 97 ≤ c.toNat ∧ c.toNat ≤ 122 := by
  delta Char.isLower
  simp [UInt32.le_iff_toNat_le, ← Char.toNat_val]

theorem isDigit_iff {c : Char} : c.isDigit = true ↔ 48 ≤ c.toNat ∧ c.toNat ≤ 57 := by
  simp [Char.isDigit, UInt32.le_iff_toNat_le, ← Char.toNat_val]

theorem isAlpha_iff {c : Char} :
    c.isAlpha = true ↔ (65 ≤ c.toNat ∧ c.toNat ≤ 90) ∨ 97 ≤ c.toNat ∧ c.toNat ≤ 122 := by
  delta Char.isAlpha
  simp [isUpper_iff, isLower_iff]

theorem isAlphanum_iff {c : Char} :
    c.isAlphanum = true ↔ ((65 ≤ c.toNat ∧ c.toNat ≤ 90) ∨ 97 ≤ c.toNat ∧ c.toNat ≤ 122)
      ∨ 48 ≤ c.toNat ∧ c.toNat ≤ 57 := by
  simp [Char.isAlphanum, isAlpha_iff, isDigit_iff]

theorem eq_iff_toNat {c d : Char} : c = d ↔ c.toNat = d.toNat := Char.toNat_inj.symm

theorem toNat_toUpper (c : Char) :
    c.toUpper.toNat = if 97 ≤ c.toNat ∧ c.toNat ≤ 122 then c.toNat - 32 else c.toNat := by
  delta Char.toUpper
  split
  · rename_i h
    have hRange : 97 ≤ c.toNat ∧ c.toNat ≤ 122 := by
      simpa [UInt32.le_iff_toNat_le] using h
    rw [if_pos hRange]
    change 97 ≤ c.val.toNat ∧ c.val.toNat ≤ 122 at hRange
    change (c.val + ('A'.val - 'a'.val)).toNat = c.val.toNat - 32
    rw [UInt32.toNat_add]
    have hStep : ('A'.val - 'a'.val).toNat = 2 ^ 32 - 32 := by decide
    omega
  · rename_i h
    rw [if_neg fun hRange => h (by simpa [UInt32.le_iff_toNat_le] using hRange)]

theorem toNat_toLower (c : Char) :
    c.toLower.toNat = if 65 ≤ c.toNat ∧ c.toNat ≤ 90 then c.toNat + 32 else c.toNat := by
  delta Char.toLower
  split
  · rename_i h
    have hRange : 65 ≤ c.toNat ∧ c.toNat ≤ 90 := by
      simpa [UInt32.le_iff_toNat_le] using h
    rw [if_pos hRange]
    change 65 ≤ c.val.toNat ∧ c.val.toNat ≤ 90 at hRange
    change (c.val + ('a'.val - 'A'.val)).toNat = c.val.toNat + 32
    rw [UInt32.toNat_add]
    have hStep : ('a'.val - 'A'.val).toNat = 32 := by decide
    omega
  · rename_i h
    rw [if_neg fun hRange => h (by simpa [UInt32.le_iff_toNat_le] using hRange)]

theorem isAlphanum_toUpper {c : Char} (h : c.isAlphanum = true) : c.toUpper.isAlphanum = true := by
  rw [isAlphanum_iff] at h ⊢
  rw [toNat_toUpper]
  split <;> omega

theorem isDigit_toLower {c : Char} (h : c.isDigit = false) : c.toLower.isDigit = false := by
  rw [← Bool.not_eq_true, isDigit_iff] at h ⊢
  rw [toNat_toLower]
  split <;> omega

theorem isDigit_toUpper {c : Char} (h : c.isDigit = false) : c.toUpper.isDigit = false := by
  rw [← Bool.not_eq_true, isDigit_iff] at h ⊢
  rw [toNat_toUpper]
  split <;> omega

theorem isLower_toUpper (c : Char) : c.toUpper.isLower = false := by
  rw [← Bool.not_eq_true, isLower_iff, toNat_toUpper]
  split <;> omega

theorem isUpper_toLower (c : Char) : c.toLower.isUpper = false := by
  rw [← Bool.not_eq_true, isUpper_iff, toNat_toLower]
  split <;> omega

theorem toLower_of_not_upper {c : Char} (h : c.isUpper = false) : c.toLower = c := by
  rw [← Bool.not_eq_true, isUpper_iff] at h
  rw [eq_iff_toNat, toNat_toLower, if_neg h]

theorem isUpper_toUpper {c : Char} (h : c.isLower = true) : c.toUpper.isUpper = true := by
  rw [isLower_iff] at h
  rw [isUpper_iff, toNat_toUpper, if_pos h]
  omega

theorem toLower_toUpper {c : Char} (h : c.isLower = true) : c.toUpper.toLower = c := by
  rw [isLower_iff] at h
  rw [eq_iff_toNat, toNat_toLower, toNat_toUpper, if_pos h, if_pos (by omega)]
  omega

theorem not_upper_of_small {c : Char} (h : (c.isLower || c.isDigit) = true) : c.isUpper = false := by
  rw [Bool.or_eq_true, isLower_iff, isDigit_iff] at h
  rw [← Bool.not_eq_true, isUpper_iff]
  omega

theorem toUpper_ne_underscore {c : Char} (h : c ≠ '_') : c.toUpper ≠ '_' := by
  have hUnderscore : '_'.toNat = 95 := rfl
  rw [Ne, eq_iff_toNat] at h ⊢
  rw [toNat_toUpper]
  split <;> omega

def isNameChar (c : Char) : Bool := c.isAlphanum || c == '_'

/-- Whether a text is a name as schemas have them, which no digit begins. -/
def isSchemaName (name : String) : Bool :=
  match name.toList with
  | [] => false
  | c :: cs => (c.isAlpha || c == '_') && cs.all isNameChar

theorem isNameChar_of_mem {name : String} (h : isSchemaName name = true) {c : Char}
    (hMem : c ∈ name.toList) : isNameChar c = true := by
  unfold isSchemaName at h
  cases hName : name.toList with
  | nil => rw [hName] at hMem; cases hMem
  | cons first rest =>
    rw [hName] at h hMem
    obtain ⟨hFirst, hRest⟩ := Bool.and_eq_true_iff.mp h
    rcases List.mem_cons.mp hMem with rfl | hMem
    · rw [Bool.or_eq_true] at hFirst
      rw [isNameChar, Bool.or_eq_true, Char.isAlphanum]
      exact hFirst.imp_left fun hAlpha => by rw [hAlpha, Bool.true_or]
    · exact List.all_eq_true.mp hRest c hMem

theorem isIdentifierRest_of_isNameChar {c : Char} (h : isNameChar c = true) :
    isIdentifierRest c = true := by
  have hSmall : c.toNat < 0x80 := by
    rw [isNameChar, Bool.or_eq_true, isAlphanum_iff, beq_iff_eq, eq_iff_toNat] at h
    have hUnderscore : '_'.toNat = 95 := rfl
    omega
  rw [isIdentifierRest, if_pos hSmall]
  exact h

end ProtoBind.Text
