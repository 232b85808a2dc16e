import ProtoBind.Text.Number

/-!
# Texts of numbers

The decimal text of a number has digits only, behind the sign of a negative one, and tells the number.
-/

set_option autoImplicit false

namespace ProtoBind.Text

theorem isDigit_of_mem_toString {n : Nat} {c : Char} (h : c ∈ (toString n).toList) : c.isDigit = true := by
  have hList : (toString n).toList = Nat.toDigits 10 n := Nat.toList_repr
  rw [hList] at h
  exact Nat.isDigit_of_mem_toDigits (by decide) (by decide) h

theorem toString_negSucc (n : Nat) : toString (Int.negSucc n) = "-" ++ toString (n + 1) := rfl

theorem mem_toString {n : Int} {c : Char} (h : c ∈ (toString n).toList) : c = '-' ∨ c.isDigit = true := by
  cases n with
  | ofNat m => exact .inr (@isDigit_of_mem_toString m c h)
  | negSucc m =>
    rw [toString_negSucc, String.toList_append, List.mem_append] at h
    exact h.imp List.mem_singleton.mp isDigit_of_mem_toString

theorem not_mem_toString {c : Char} (hMinus : c ≠ '-') (hDigit : c.isDigit = false) (n : Int) :
    c ∉ (toString n).toList := by
  intro h
  rcases mem_toString h with hSame | hOther
  · exact hMinus hSame
  · rw [hDigit] at hOther
    cases hOther

theorem toString_ne_minus (m : Nat) (text : String) : toString m ≠ "-" ++ text := by
  intro h
  have hMinus : '-' ∈ (toString m).toList := by
    rw [h, String.toList_append]
    exact List.mem_append_left _ (List.mem_singleton_self _)
  exact absurd (isDigit_of_mem_toString hMinus) (by decide)

theorem nat_of_toString {m n : Nat} (h : toString m = toString n) : m = n := by
  have hDigits : Nat.toDigits 10 m = Nat.toDigits 10 n := by
    rw [← Nat.toList_repr, ← Nat.toList_repr]
    exact congrArg String.toList h
  have hValue := congrArg (Nat.ofDigitChars 10 · 0) hDigits
  simpa using hValue

theorem int_of_toString {m n : Int} (h : toString m = toString n) : m = n := by
  cases m with
  | ofNat m =>
    cases n with
    | ofNat n => exact congrArg Int.ofNat (nat_of_toString h)
    | negSucc n => exact absurd h (toString_ne_minus m _)
  | negSucc m =>
    cases n with
    | ofNat n => exact absurd h.symm (toString_ne_minus n _)
    | negSucc n =>
      have hSucc : m + 1 = n + 1 := nat_of_toString ((String.append_right_inj "-").mp h)
      rw [Nat.succ.inj hSucc]

theorem toString_int_ne_empty (n : Int) : (toString n).toList ≠ [] := by
  cases n with
  | ofNat m => exact fun h => Nat.repr_ne_empty (String.toList_eq_nil_iff.mp h)
  | negSucc m =>
    rw [toString_negSucc, String.toList_append]
    exact List.append_ne_nil_of_left_ne_nil (by decide) _

end ProtoBind.Text
