/-!
# JSON strings

Texts between double quotes. Writing escapes the quote, the backslash and the control characters, and
nothing else; reading knows all escapes of JSON.
-/

set_option autoImplicit false

namespace ProtoBind.Text.JsonString

def hexDigit (n : Nat) : Char := Nat.digitChar n

def escape (c : Char) : List Char :=
  if c = '\x22' then ['\x5c', '\x22']
  else if c = '\x5c' then ['\x5c', '\x5c']
  else if c = '\x08' then ['\x5c', 'b']
  else if c = '\x0c' then ['\x5c', 'f']
  else if c = '\n' then ['\x5c', 'n']
  else if c = '\r' then ['\x5c', 'r']
  else if c = '\t' then ['\x5c', 't']
  else if c.toNat < 32 then
    ['\x5c', 'u', '0', '0', hexDigit (c.toNat / 16), hexDigit (c.toNat % 16)]
  else [c]

def encode (s : List Char) : List Char := '\x22' :: (s.flatMap escape ++ ['\x22'])

def hexValue? (c : Char) : Option Nat :=
  if '0' ≤ c ∧ c ≤ '9' then some (c.toNat - 48)
  else if 'a' ≤ c ∧ c ≤ 'f' then some (c.toNat - 87)
  else if 'A' ≤ c ∧ c ≤ 'F' then some (c.toNat - 55)
  else none

/-- The number that four hexadecimal digits write, and what follows them. -/
def unit? : List Char → Option (Nat × List Char)
  | a :: b :: c :: d :: rest =>
    match hexValue? a, hexValue? b, hexValue? c, hexValue? d with
    | some a, some b, some c, some d => some (((a * 16 + b) * 16 + c) * 16 + d, rest)
    | _, _, _, _ => none
  | _ => none

def isHighHalf (n : Nat) : Bool := 0xd800 ≤ n && n < 0xdc00

def isLowHalf (n : Nat) : Bool := 0xdc00 ≤ n && n < 0xe000

/-- The character whose first half is `high` and whose second half the text gives. -/
def pair? (high : Nat) : List Char → Option (Char × List Char)
  | '\x5c' :: 'u' :: rest =>
    match unit? rest with
    | some (low, rest) =>
      if isLowHalf low then
        some (Char.ofNat (0x10000 + (high - 0xd800) * 0x400 + (low - 0xdc00)), rest)
      else none
    | none => none
  | _ => none

def escaped? : List Char → Option (Char × List Char)
  | '\x22' :: rest => some ('\x22', rest)
  | '\x5c' :: rest => some ('\x5c', rest)
  | '/' :: rest => some ('/', rest)
  | 'b' :: rest => some ('\x08', rest)
  | 'f' :: rest => some ('\x0c', rest)
  | 'n' :: rest => some ('\n', rest)
  | 'r' :: rest => some ('\r', rest)
  | 't' :: rest => some ('\t', rest)
  | 'u' :: rest =>
    match unit? rest with
    | some (n, rest) =>
      if isHighHalf n then pair? n rest
      else if isLowHalf n then none
      else some (Char.ofNat n, rest)
    | none => none
  | _ => none

/-- The next character of a text in quotes, and what follows it. -/
def char? : List Char → Option (Char × List Char)
  | [] => none
  | '\x5c' :: rest => escaped? rest
  | c :: rest => if c.toNat < 32 then none else some (c, rest)

theorem unit?_shorter {cs rest : List Char} {n : Nat} (h : unit? cs = some (n, rest)) :
    rest.length < cs.length := by
  unfold unit? at h
  split at h
  · split at h
    · obtain ⟨_, rfl⟩ := Prod.mk.inj (Option.some.inj h)
      simp only [List.length_cons]
      omega
    · cases h
  · cases h

theorem pair?_shorter {high : Nat} {cs rest : List Char} {c : Char}
    (h : pair? high cs = some (c, rest)) : rest.length < cs.length := by
  unfold pair? at h
  split at h
  · split at h
    · rename_i found
      split at h
      · obtain ⟨_, rfl⟩ := Prod.mk.inj (Option.some.inj h)
        have := unit?_shorter found
        simp only [List.length_cons]
        omega
      · cases h
    · cases h
  · cases h

theorem escaped?_shorter {cs rest : List Char} {c : Char} (h : escaped? cs = some (c, rest)) :
    rest.length < cs.length := by
  unfold escaped? at h
  split at h
  case h_9 =>
    split at h
    · rename_i found
      have shorter := unit?_shorter found
      split at h
      · have := pair?_shorter h
        simp only [List.length_cons]
        omega
      · split at h
        · cases h
        · cases h
          simp only [List.length_cons]
          omega
    · cases h
  all_goals cases h
  all_goals simp

theorem char?_shorter {cs rest : List Char} {c : Char} (h : char? cs = some (c, rest)) :
    rest.length < cs.length := by
  unfold char? at h
  split at h
  · cases h
  · have := escaped?_shorter h
    simp only [List.length_cons]
    omega
  · split at h
    · cases h
    · cases h
      simp

/-- Reads a text up to its closing quote, and gives what follows that. -/
def decodeBody (cs : List Char) : Option (List Char × List Char) :=
  match cs with
  | '\x22' :: rest => some ([], rest)
  | cs =>
    match _found : char? cs with
    | none => none
    | some (c, rest) => (decodeBody rest).map fun (s, rest) => (c :: s, rest)
termination_by cs.length
decreasing_by exact char?_shorter _found

def decode : List Char → Option (List Char × List Char)
  | '\x22' :: rest => decodeBody rest
  | _ => none

theorem decodeBody_shorter {cs s rest : List Char} (h : decodeBody cs = some (s, rest)) :
    rest.length < cs.length := by
  fun_induction decodeBody cs generalizing s with
  | case1 rest =>
    cases h
    simp
  | case2 => cases h
  | case3 cs _ c more found ih =>
    obtain ⟨⟨s', rest'⟩, read, same⟩ := Option.map_eq_some_iff.1 h
    cases same
    exact Nat.lt_trans (ih read) (char?_shorter found)

theorem decode_shorter {cs s rest : List Char} (h : decode cs = some (s, rest)) :
    rest.length < cs.length := by
  unfold decode at h
  split at h
  · have := decodeBody_shorter h
    simp only [List.length_cons]
    omega
  · cases h

theorem hexValue?_hexDigit : ∀ n < 16, hexValue? (hexDigit n) = some n := by decide

theorem unit?_of_control {c : Char} (h : c.toNat < 32) (rest : List Char) :
    unit? ('0' :: '0' :: hexDigit (c.toNat / 16) :: hexDigit (c.toNat % 16) :: rest)
      = some (c.toNat, rest) := by
  have zero : hexValue? '0' = some 0 := by decide
  simp only [unit?, zero, hexValue?_hexDigit (c.toNat / 16) (by omega),
    hexValue?_hexDigit (c.toNat % 16) (by omega)]
  congr 2
  omega

theorem char?_of_ne {c : Char} (rest : List Char) (slash : c ≠ '\x5c') (plain : ¬c.toNat < 32) :
    char? (c :: rest) = some (c, rest) := by
  unfold char?
  split
  · rename_i h
    cases h
  · rename_i h
    exact absurd (List.cons.inj h).1 slash
  · rename_i h
    obtain ⟨rfl, rfl⟩ := List.cons.inj h
    simp [plain]

theorem char?_control {c : Char} (h : c.toNat < 32) (rest : List Char) :
    char? ('\x5c' :: 'u' :: '0' :: '0' :: hexDigit (c.toNat / 16) :: hexDigit (c.toNat % 16) :: rest)
      = some (c, rest) := by
  have high : isHighHalf c.toNat = false := by simp [isHighHalf]; omega
  have low : isLowHalf c.toNat = false := by simp [isLowHalf]; omega
  simp only [char?, escaped?, unit?_of_control h, high, low, Char.ofNat_toNat]
  rfl

/-- Every written character is read back. -/
theorem char?_escape (c : Char) (rest : List Char) : char? (escape c ++ rest) = some (c, rest) := by
  unfold escape
  repeat' split
  · rename_i h; subst h; rfl
  · rename_i h; subst h; rfl
  · rename_i h; subst h; rfl
  · rename_i h; subst h; rfl
  · rename_i h; subst h; rfl
  · rename_i h; subst h; rfl
  · rename_i h; subst h; rfl
  · rename_i h; exact char?_control h rest
  · rename_i slash _ _ _ _ _ plain
    exact char?_of_ne rest slash plain

theorem escape_ne_quote (c : Char) (rest tail : List Char) : escape c ++ rest ≠ '\x22' :: tail := by
  unfold escape
  repeat' split
  all_goals simp
  rename_i quote _ _ _ _ _ _ _
  exact fun h => absurd h quote

theorem decodeBody_eq {cs rest : List Char} {c : Char} (quote : ∀ tail, cs ≠ '\x22' :: tail)
    (found : char? cs = some (c, rest)) :
    decodeBody cs = (decodeBody rest).map fun (s, rest) => (c :: s, rest) := by
  rw [decodeBody]
  · split
    · rename_i missing
      rw [found] at missing
      cases missing
    · rename_i same
      rw [found] at same
      obtain ⟨rfl, rfl⟩ := Prod.mk.inj (Option.some.inj same)
      rfl
  · exact quote

end ProtoBind.Text.JsonString
