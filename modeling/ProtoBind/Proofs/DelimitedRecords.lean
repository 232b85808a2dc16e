import Mathlib.Algebra.Group.Nat.Defs
import ProtoBind.Wire.Record

/-!
# Delimited records

Integers of 64 bits are read back as they were written, and so are records with delimited payloads. No
payload that was read is longer than such an integer can say.
-/

set_option autoImplicit false

namespace ProtoBind.Wire

/-! ### Integers -/

theorem decodeVarintFrom_encodeVarint {seen n : Nat} (hSeen : seen ≤ 9) (hN : n < 2 ^ (64 - 7 * seen))
    (rest : Bytes) : decodeVarintFrom seen (encodeVarint n ++ rest) = some (n, rest) := by
  induction n using Nat.strongRecOn generalizing seen with
  | ind n ih =>
    rw [encodeVarint]
    split
    · rename_i hSmall
      have hByte : n.toUInt8.toNat = n := by
        rw [UInt8.toNat_ofNat']
        omega
      rw [List.singleton_append, decodeVarintFrom, hByte, if_pos hSmall, if_neg]
      rintro ⟨rfl, hTwo⟩
      exact absurd hN (Nat.not_lt.mpr hTwo)
    · rename_i hLarge
      have hByte : (n % 128 + 128).toUInt8.toNat = n % 128 + 128 := by
        rw [UInt8.toNat_ofNat']
        omega
      have hMore : seen ≠ 9 := by
        rintro rfl
        have hTwo : n < 2 := hN
        omega
      have hStep : 64 - 7 * seen = 64 - 7 * (seen + 1) + 7 := by omega
      rw [hStep, Nat.pow_add] at hN
      have hRest := @ih (n / 128) (by omega) (seen + 1) (by omega) (Nat.div_lt_of_lt_mul (by omega))
      have hSum : n % 128 + 128 - 128 + 128 * (n / 128) = n := by omega
      rw [List.cons_append, decodeVarintFrom, hByte, if_neg (by omega), if_neg hMore, hRest,
        Option.map_some]
      dsimp only
      rw [hSum]

/-- An integer of 64 bits is read back, whatever follows it. -/
theorem decodeVarint_encodeVarint {n : Nat} (h : n < 2 ^ 64) (rest : Bytes) :
    decodeVarint (encodeVarint n ++ rest) = some (n, rest) :=
  decodeVarintFrom_encodeVarint (Nat.zero_le 9) h rest

theorem lt_of_decodeVarintFrom {seen n : Nat} {bytes rest : Bytes} (hSeen : seen ≤ 9)
    (h : decodeVarintFrom seen bytes = some (n, rest)) : n < 2 ^ (64 - 7 * seen) := by
  induction bytes generalizing seen n with
  | nil => cases h
  | cons b tail ih =>
    rw [decodeVarintFrom] at h
    split at h
    · rename_i hSmall
      split at h
      · cases h
      · rename_i hLast
        cases h
        by_cases hNine : seen = 9
        · subst hNine
          change b.toNat < 2
          omega
        · have hPow : 2 ^ 7 ≤ 2 ^ (64 - 7 * seen) := Nat.pow_le_pow_right (by decide) (by omega)
          omega
    · split at h
      · cases h
      · rename_i hMore
        obtain ⟨⟨m, more⟩, hFound, hSame⟩ := Option.map_eq_some_iff.mp h
        cases hSame
        have hRest : m < 2 ^ (64 - 7 * (seen + 1)) := ih (by omega) hFound
        have hStep : 64 - 7 * seen = 64 - 7 * (seen + 1) + 7 := by omega
        have hByte : b.toNat < 256 := b.toNat_lt
        rw [hStep, Nat.pow_add]
        omega

/-- What is read as an integer has 64 bits. -/
theorem lt_of_decodeVarint {n : Nat} {bytes rest : Bytes} (h : decodeVarint bytes = some (n, rest)) :
    n < 2 ^ 64 :=
  lt_of_decodeVarintFrom (Nat.zero_le 9) h

/-! ### Records -/

theorem takeBytes_append (content rest : Bytes) :
    takeBytes content.length (content ++ rest) = some (content, rest) := by
  rw [takeBytes, if_pos (by simp), List.take_left, List.drop_left]

theorem length_of_takeBytes {n : Nat} {bytes content rest : Bytes}
    (h : takeBytes n bytes = some (content, rest)) : content.length = n := by
  unfold takeBytes at h
  split at h
  · rename_i hLong
    cases h
    exact List.length_take_of_le hLong
  · cases h

/-- The payload of a record fits into memory that 64 bits can count. -/
def Fits (record : Record) : Prop := ∀ content, record.2 = .delimited content → content.length < 2 ^ 64

theorem fits_of_scanRecords {fuel : Nat} {inside : Option Nat} {bytes rest : Bytes} {records : List Record}
    (h : scanRecords fuel inside bytes = some (records, rest)) : ∀ record ∈ records, Fits record := by
  induction fuel generalizing inside bytes records rest with
  | zero => cases h
  | succ fuel ih =>
    have hMore : ∀ {inside : Option Nat} {bytes : Bytes} {record : Record}, Fits record →
        ((scanRecords fuel inside bytes).bind fun more => some (record :: more.1, more.2))
          = some (records, rest) → ∀ record ∈ records, Fits record := by
      intro inside bytes record hRecord hScan
      obtain ⟨more, hFound, hSame⟩ := Option.bind_eq_some_iff.mp hScan
      cases hSame
      exact List.forall_mem_cons.mpr ⟨hRecord, ih hFound⟩
    cases bytes with
    | nil =>
      cases inside with
      | none =>
        cases h
        exact fun record hRecord => absurd hRecord List.not_mem_nil
      | some number => cases h
    | cons b tail =>
      simp only [scanRecords] at h
      obtain ⟨⟨key, behind⟩, -, h⟩ := Option.bind_eq_some_iff.mp h
      dsimp only at h
      split at h
      · cases h
      · split at h
        · obtain ⟨⟨n, last⟩, -, h⟩ := Option.bind_eq_some_iff.mp h
          exact hMore (by rintro content ⟨⟩) h
        · obtain ⟨⟨block, last⟩, -, h⟩ := Option.bind_eq_some_iff.mp h
          exact hMore (by rintro content ⟨⟩) h
        · obtain ⟨⟨size, last⟩, hSize, h⟩ := Option.bind_eq_some_iff.mp h
          obtain ⟨⟨block, last⟩, hBlock, h⟩ := Option.bind_eq_some_iff.mp h
          -- Only this kind of record says a length, which was read as a number of 64 bits.
          refine hMore ?_ h
          rintro content ⟨⟩
          rw [length_of_takeBytes hBlock]
          exact lt_of_decodeVarint hSize
        · obtain ⟨⟨inner, last⟩, -, h⟩ := Option.bind_eq_some_iff.mp h
          exact hMore (by rintro content ⟨⟩) h
        · split at h
          · cases h
            exact fun record hRecord => absurd hRecord List.not_mem_nil
          · cases h
        · obtain ⟨⟨block, last⟩, -, h⟩ := Option.bind_eq_some_iff.mp h
          exact hMore (by rintro content ⟨⟩) h
        · cases h

/-- The payloads that are found in a message are of a length that 64 bits can say. -/
theorem fits_of_scan {bytes : Bytes} {records : List Record} (h : scan bytes = some records) :
    ∀ record ∈ records, Fits record := by
  obtain ⟨⟨found, rest⟩, hFound, rfl⟩ := Option.map_eq_some_iff.mp h
  exact fits_of_scanRecords hFound

theorem scanRecords_delimited {number : Nat} (hNumber : 0 < number) (hKey : 8 * number + 2 < 2 ^ 32)
    {content : Bytes} (hContent : content.length < 2 ^ 64) (fuel : Nat) (rest : Bytes) :
    scanRecords (fuel + 1) none (encodeDelimited number content ++ rest)
      = (scanRecords fuel none rest).bind fun (more, last) =>
        some ((number, .delimited content) :: more, last) := by
  have hBytes : encodeDelimited number content ++ rest
      = encodeVarint (8 * number + 2) ++ (encodeVarint content.length ++ (content ++ rest)) := by
    simp only [encodeDelimited, encodeKey, List.append_assoc]
  have hRead := @decodeVarint_encodeVarint (8 * number + 2) (by omega)
    (encodeVarint content.length ++ (content ++ rest))
  have hNumberOf : (8 * number + 2) / 8 = number := by omega
  have hForm : (8 * number + 2) % 8 = 2 := by omega
  rw [hBytes]
  cases hStart : encodeVarint (8 * number + 2) with
  | nil =>
    rw [hStart, List.nil_append] at hRead
    rw [encodeVarint] at hStart
    split at hStart <;> cases hStart
  | cons b tail =>
    rw [hStart] at hRead
    rw [List.cons_append] at hRead ⊢
    simp only [scanRecords, Option.bind_eq_bind, hRead, Option.bind_some, hNumberOf, hForm]
    rw [if_neg (by omega), decodeVarint_encodeVarint hContent]
    simp only [Option.bind_some, takeBytes_append]
    rfl

/-- Delimited records are found again one by one, as they were put down. -/
theorem scan_delimited {number : Nat} (hNumber : 0 < number) (hKey : 8 * number + 2 < 2 ^ 32)
    {contents : List Bytes} (hContents : ∀ content ∈ contents, content.length < 2 ^ 64) :
    scan (contents.flatMap (encodeDelimited number))
      = some (contents.map fun content => (number, .delimited content)) := by
  have hScan : ∀ fuel, contents.length < fuel →
      scanRecords fuel none (contents.flatMap (encodeDelimited number))
        = some (contents.map fun content => (number, .delimited content), []) := by
    induction contents with
    | nil =>
      intro fuel hFuel
      obtain ⟨less, rfl⟩ := Nat.exists_eq_add_of_lt hFuel
      rfl
    | cons content rest ih =>
      intro fuel hFuel
      obtain ⟨less, rfl⟩ := Nat.exists_eq_add_of_lt hFuel
      rw [List.flatMap_cons, scanRecords_delimited hNumber hKey (hContents content List.mem_cons_self),
        ih (fun other hOther => hContents other (List.mem_cons_of_mem _ hOther)) _
          (by simp only [List.length_cons]; omega)]
      rfl
  have hLength : contents.length ≤ (contents.flatMap (encodeDelimited number)).length := by
    clear hScan hContents
    induction contents with
    | nil => exact Nat.le_refl 0
    | cons content rest ih =>
      have hKeyBytes : 0 < (encodeVarint (8 * number + 2)).length := by
        rw [encodeVarint]
        split <;> exact Nat.succ_pos _
      simp only [List.flatMap_cons, List.length_append, List.length_cons, encodeDelimited, encodeKey]
      omega
  rw [scan, hScan _ (Nat.lt_succ_of_le hLength)]
  rfl

end ProtoBind.Wire
