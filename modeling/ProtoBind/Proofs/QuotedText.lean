import Mathlib.Algebra.Group.Nat.Defs
import ProtoBind.Proofs.Characters
import ProtoBind.Proofs.LiteralGrammar
import ProtoBind.Source.Lexer

/-!
# Quoted text is read back

A quoted text ends at its own last quote and denotes what was quoted, whatever characters that holds.
The literal that a documentation comment stands for is read back the same way.
-/

set_option autoImplicit false

namespace ProtoBind.Text.Quoted

theorem hexValue_digitChar : ∀ n < 16, hexValue n.digitChar = some n := by decide

/-- The digits of a number write that number. -/
theorem isNumber_hexDigits (n : Nat) : IsNumber (hexDigits n) (hexDigits n).length n := by
  induction n using Nat.strongRecOn with
  | ind n ih =>
    by_cases hSmall : n < 16
    · have hDigits : hexDigits n = [n.digitChar] := Nat.toDigits_of_lt_base hSmall
      rw [hDigits]
      exact .first (hexValue_digitChar n hSmall)
    · have hDigits : hexDigits n = hexDigits (n / 16) ++ [(n % 16).digitChar] :=
        Nat.toDigits_of_base_le (by decide) (Nat.le_of_not_lt hSmall)
      have hLast : n % 16 < 16 := Nat.mod_lt n (by decide)
      have hFront := ih (n / 16) (Nat.div_lt_self (by omega) (by decide))
      have hNumber := hFront.digit (hexValue_digitChar (n % 16) hLast)
      rwa [Nat.div_add_mod, ← List.length_singleton (a := (n % 16).digitChar), ← List.length_append,
        ← hDigits] at hNumber

theorem length_hexDigits_le (c : Char) : (hexDigits c.toNat).length ≤ 6 := by
  refine (Nat.length_toDigits_le_iff (by decide) (by decide)).mpr ?_
  have hBound : c.toNat < 0x110000 := by
    have hValid := c.valid
    rw [UInt32.isValidChar, Nat.isValidChar] at hValid
    change c.val.toNat < 0x110000
    omega
  omega

theorem spells_encodeChar (c : Char) : Spells (encodeChar c) c := by
  unfold encodeChar
  iterate 6
    split
    · rename_i h
      rw [h]
      exact .short rfl
  rename_i hReturn _ hSlash hQuote
  split
  · have hNumber := Spells.number (isNumber_hexDigits c.toNat) (length_hexDigits_le c) c.valid
    rwa [Char.ofNat_toNat] at hNumber
  · exact .plain hQuote hSlash hReturn

theorem body_encodeBody (cs : List Char) : Body (encodeBody cs) cs := by
  induction cs with
  | nil => exact .nil
  | cons c cs ih => exact .cons (spells_encodeChar c) ih

/-- The body of a quoted text is read as that text, up to the quote behind it. -/
theorem read_encodeBody (cs rest : List Char) :
    read .plain (encodeBody cs ++ '\x22' :: rest) = some (cs, rest) := read_of_body (body_encodeBody cs) rest

theorem encode_toList (s : String) :
    (encode s).toList = '\x22' :: (encodeBody s.toList ++ ['\x22']) := String.toList_ofList

end ProtoBind.Text.Quoted

namespace ProtoBind.Source

open Text

theorem spells_docLiteralChar (c : Char) (next : Option Char) : Quoted.Spells (docLiteralChar c next) c := by
  unfold docLiteralChar
  split
  · rename_i h
    rw [h.1]
    exact .byte (i := 0) (j := 0) rfl (by decide) rfl
  · exact Quoted.spells_encodeChar c

/-- The literal of a documentation comment is read as the text of the comment. -/
theorem read_docLiteralBody (cs rest : List Char) :
    Quoted.read .plain (docLiteralBody cs ++ '\x22' :: rest) = some (cs, rest) := by
  have hBody : Quoted.Body (docLiteralBody cs) cs := by
    induction cs with
    | nil => exact .nil
    | cons c cs ih => exact .cons (spells_docLiteralChar c cs.head?) ih
  exact Quoted.read_of_body hBody rest

end ProtoBind.Source
