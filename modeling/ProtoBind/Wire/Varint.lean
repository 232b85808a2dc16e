/-!
# Variable-length integers

An integer is written in groups of seven bits, the lowest first; every byte but the last has its high
bit set. At most ten bytes are read, and of the tenth only the lowest bit.
-/

set_option autoImplicit false

namespace ProtoBind.Wire

abbrev Bytes := List UInt8

def encodeVarint (n : Nat) : Bytes :=
  if n < 128 then [n.toUInt8] else (n % 128 + 128).toUInt8 :: encodeVarint (n / 128)
termination_by n
decreasing_by omega

/-- Reads an integer of which `seen` bytes have been read before. -/
def decodeVarintFrom (seen : Nat) : Bytes → Option (Nat × Bytes)
  | [] => none
  | b :: rest =>
    if b.toNat < 128 then
      if seen = 9 ∧ 2 ≤ b.toNat then none else some (b.toNat, rest)
    else if seen = 9 then none
    else (decodeVarintFrom (seen + 1) rest).map fun (n, rest) => (b.toNat - 128 + 128 * n, rest)

/-- The integer at the start of the bytes, and the bytes behind it. -/
def decodeVarint (bytes : Bytes) : Option (Nat × Bytes) := decodeVarintFrom 0 bytes

end ProtoBind.Wire
