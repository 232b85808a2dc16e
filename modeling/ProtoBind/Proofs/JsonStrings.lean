import ProtoBind.Text.JsonString

/-!
# The strings of JSON

What JSON allows between two quotes, said apart from the reader: plain characters, the short escapes, and
the units of UTF-16 in hexadecimal digits, alone or in pairs. The reader takes just these.
-/

set_option autoImplicit false

namespace ProtoBind.Text.JsonString

/-- A hexadecimal digit, in either case, and the number it stands for. -/
def IsHex (c : Char) (n : Nat) : Prop :=
  "0123456789abcdef".toList[n]? = some c ∨ "0123456789ABCDEF".toList[n]? = some c

instance (c : Char) (n : Nat) : Decidable (IsHex c n) := inferInstanceAs (Decidable (_ ∨ _))

inductive IsUnit : List Char → Nat → Prop where
  | mk {a b c d : Char} {i j k l : Nat} (ha : IsHex a i) (hb : IsHex b j) (hc : IsHex c k)
      (hd : IsHex d l) : IsUnit [a, b, c, d] (((i * 16 + j) * 16 + k) * 16 + l)

def shortEscapes : List (Char × Char) :=
  [('\x22', '\x22'), ('\x5c', '\x5c'), ('/', '/'), ('b', '\x08'), ('f', '\x0c'), ('n', '\n'), ('r', '\r'),
    ('t', '\t')]

inductive Spells : List Char → Char → Prop where
  | plain {c : Char} (hQuote : c ≠ '\x22') (hSlash : c ≠ '\x5c') (hControl : 32 ≤ c.toNat) : Spells [c] c
  | short {letter c : Char} (h : (letter, c) ∈ shortEscapes) : Spells ['\x5c', letter] c
  | unit {digits : List Char} {n : Nat} (h : IsUnit digits n) (hHigh : isHighHalf n = false)
      (hLow : isLowHalf n = false) : Spells ('\x5c' :: 'u' :: digits) (Char.ofNat n)
  | pair {front back : List Char} {high low : Nat} (hFront : IsUnit front high) (hBack : IsUnit back low)
      (hHigh : isHighHalf high = true) (hLow : isLowHalf low = true) :
      Spells ('\x5c' :: 'u' :: front ++ '\x5c' :: 'u' :: back)
        (Char.ofNat (0x10000 + (high - 0xd800) * 0x400 + (low - 0xdc00)))

/-- How characters may be written between quotes, one behind the other. -/
inductive Body : List Char → List Char → Prop where
  | nil : Body [] []
  | cons {front back s : List Char} {c : Char} (h : Spells front c) (hRest : Body back s) :
      Body (front ++ back) (c :: s)

inductive IsString : List Char → List Char → Prop where
  | mk {body s : List Char} (h : Body body s) : IsString ('\x22' :: (body ++ ['\x22'])) s

/-! ### Digits -/

theorem hexValue?_of_isHex {c : Char} {n : Nat} (h : IsHex c n) : hexValue? c = some n := by
  have hAll : ∀ n < 16, ∀ text ∈ ["0123456789abcdef", "0123456789ABCDEF"],
      (text.toList[n]?).all fun c => hexValue? c = some n := by decide
  rcases h with h | h
  · have hDigit := hAll n (List.getElem?_eq_some_iff.mp h).1 _ List.mem_cons_self
    rw [h] at hDigit
    exact of_decide_eq_true hDigit
  · have hDigit := hAll n (List.getElem?_eq_some_iff.mp h).1 _ (List.mem_cons_of_mem _ List.mem_cons_self)
    rw [h] at hDigit
    exact of_decide_eq_true hDigit

theorem isHex_of_hexValue? {c : Char} {n : Nat} (h : hexValue? c = some n) : IsHex c n := by
  have hAll : ∀ k < 103, ∀ n ∈ hexValue? (Char.ofNat k), IsHex (Char.ofNat k) n := by decide +kernel
  have hRange : c.toNat < 103 := by
    have hLast : ∀ d : Char, c ≤ d → c.toNat ≤ d.toNat := fun d hLe => hLe
    unfold hexValue? at h
    split at h
    · rename_i hDigit
      exact Nat.lt_of_le_of_lt (hLast '9' hDigit.2) (by decide)
    · split at h
      · rename_i hLower
        exact Nat.lt_of_le_of_lt (hLast 'f' hLower.2) (by decide)
      · split at h
        · rename_i hUpper
          exact Nat.lt_of_le_of_lt (hLast 'F' hUpper.2) (by decide)
        · cases h
  have hChar := hAll c.toNat hRange n
  rw [Char.ofNat_toNat] at hChar
  exact hChar h

theorem unit?_of_isUnit {digits : List Char} {n : Nat} (h : IsUnit digits n) (rest : List Char) :
    unit? (digits ++ rest) = some (n, rest) := by
  obtain ⟨ha, hb, hc, hd⟩ := h
  simp only [List.cons_append, List.nil_append, unit?, hexValue?_of_isHex ha, hexValue?_of_isHex hb,
    hexValue?_of_isHex hc, hexValue?_of_isHex hd]

theorem exists_isUnit {cs rest : List Char} {n : Nat} (h : unit? cs = some (n, rest)) :
    ∃ digits, IsUnit digits n ∧ cs = digits ++ rest := by
  unfold unit? at h
  split at h
  · split at h
    · rename_i ha hb hc hd
      cases h
      exact ⟨_, .mk (isHex_of_hexValue? ha) (isHex_of_hexValue? hb) (isHex_of_hexValue? hc)
        (isHex_of_hexValue? hd), rfl⟩
    · cases h
  · cases h

/-! ### Characters -/

theorem escaped?_short {letter c : Char} (h : (letter, c) ∈ shortEscapes) (rest : List Char) :
    escaped? (letter :: rest) = some (c, rest) := by
  simp only [shortEscapes, List.mem_cons, Prod.mk.injEq, List.not_mem_nil, or_false] at h
  rcases h with ⟨rfl, rfl⟩ | ⟨rfl, rfl⟩ | ⟨rfl, rfl⟩ | ⟨rfl, rfl⟩ | ⟨rfl, rfl⟩ | ⟨rfl, rfl⟩ | ⟨rfl, rfl⟩
    | ⟨rfl, rfl⟩ <;> rfl

theorem char?_of_spells {front : List Char} {c : Char} (h : Spells front c) (rest : List Char) :
    char? (front ++ rest) = some (c, rest) := by
  cases h with
  | plain hQuote hSlash hControl => exact char?_of_ne rest hSlash (Nat.not_lt.mpr hControl)
  | short h => exact escaped?_short h rest
  | unit h hHigh hLow =>
    change escaped? ('u' :: (_ ++ rest)) = _
    rw [escaped?, unit?_of_isUnit h]
    simp only [hHigh, hLow]
    rfl
  | pair hFront hBack hHigh hLow =>
    rename_i front back high low
    have hText : '\x5c' :: 'u' :: front ++ '\x5c' :: 'u' :: back ++ rest
        = '\x5c' :: 'u' :: (front ++ ('\x5c' :: 'u' :: (back ++ rest))) := by simp
    rw [hText]
    change escaped? ('u' :: (front ++ _)) = _
    rw [escaped?, unit?_of_isUnit hFront]
    dsimp only
    rw [if_pos hHigh, pair?, unit?_of_isUnit hBack]
    dsimp only
    rw [if_pos hLow]

theorem ne_quote_of_spells {front : List Char} {c : Char} (h : Spells front c) (rest tail : List Char) :
    front ++ rest ≠ '\x22' :: tail := by
  intro hSame
  cases h with
  | plain hQuote => exact hQuote (List.cons.inj hSame).1
  | short => exact absurd (List.cons.inj hSame).1 (by decide)
  | unit => exact absurd (List.cons.inj hSame).1 (by decide)
  | pair => exact absurd (List.cons.inj hSame).1 (by decide)

theorem exists_spells_of_escaped? {cs rest : List Char} {c : Char} (h : escaped? cs = some (c, rest)) :
    ∃ front, Spells front c ∧ '\x5c' :: cs = front ++ rest := by
  have hShort : ∀ letter, (letter, c) ∈ shortEscapes → cs = letter :: rest →
      ∃ front, Spells front c ∧ '\x5c' :: cs = front ++ rest := by
    rintro letter hMem rfl
    exact ⟨['\x5c', letter], .short hMem, rfl⟩
  unfold escaped? at h
  split at h
  case h_9 =>
    split at h
    · rename_i n more hUnit
      obtain ⟨digits, hDigits, rfl⟩ := exists_isUnit hUnit
      split at h
      · rename_i hHigh
        unfold pair? at h
        split at h
        · split at h
          · rename_i low last hSecond
            obtain ⟨others, hOthers, rfl⟩ := exists_isUnit hSecond
            split at h
            · rename_i hLow
              obtain ⟨rfl, rfl⟩ := Prod.mk.inj (Option.some.inj h)
              exact ⟨_, .pair hDigits hOthers hHigh hLow, by simp⟩
            · cases h
          · cases h
        · cases h
      · rename_i hHigh
        split at h
        · cases h
        · rename_i hLow
          cases h
          exact ⟨_, .unit hDigits (by simpa using hHigh) (by simpa using hLow), rfl⟩
    · cases h
  case h_10 => cases h
  all_goals
    cases h
    exact hShort _ (by decide) rfl

theorem exists_spells {cs rest : List Char} {c : Char} (hQuote : ∀ tail, cs ≠ '\x22' :: tail)
    (h : char? cs = some (c, rest)) : ∃ front, Spells front c ∧ cs = front ++ rest := by
  unfold char? at h
  split at h
  · cases h
  · exact exists_spells_of_escaped? h
  · rename_i c' more hSlash
    split at h
    · cases h
    · rename_i hControl
      cases h
      refine ⟨[c], .plain ?_ ?_ (Nat.not_lt.mp hControl), rfl⟩
      · rintro rfl
        exact hQuote _ rfl
      · rintro rfl
        exact hSlash rfl

/-! ### Texts -/

theorem decodeBody_of_body {body s : List Char} (h : Body body s) (rest : List Char) :
    decodeBody (body ++ '\x22' :: rest) = some (s, rest) := by
  induction h with
  | nil =>
    unfold decodeBody
    rfl
  | cons h _ ih =>
    rw [List.append_assoc, decodeBody_eq (ne_quote_of_spells h _) (char?_of_spells h _), ih]
    rfl

theorem exists_body {cs s rest : List Char} (h : decodeBody cs = some (s, rest)) :
    ∃ body, Body body s ∧ cs = body ++ '\x22' :: rest := by
  fun_induction decodeBody cs generalizing s with
  | case1 rest =>
    cases h
    exact ⟨[], .nil, rfl⟩
  | case2 => cases h
  | case3 cs hQuote c more hFound ih =>
    obtain ⟨⟨t, last⟩, hRead, hSame⟩ := Option.map_eq_some_iff.mp h
    cases hSame
    obtain ⟨front, hFront, rfl⟩ := exists_spells hQuote hFound
    obtain ⟨body, hBody, rfl⟩ := ih hRead
    exact ⟨front ++ body, .cons hFront hBody, by simp⟩

/-- The reader takes a text in quotes off the front just where one stands there. -/
theorem decode_eq_some_iff {cs s rest : List Char} :
    decode cs = some (s, rest) ↔ ∃ front, IsString front s ∧ cs = front ++ rest := by
  constructor
  · intro h
    unfold decode at h
    split at h
    · obtain ⟨body, hBody, rfl⟩ := exists_body h
      exact ⟨_, .mk hBody, by simp⟩
    · cases h
  · rintro ⟨front, ⟨hBody⟩, rfl⟩
    have hRead := decodeBody_of_body hBody rest
    simpa [decode] using hRead

theorem spells_escape (c : Char) : Spells (escape c) c := by
  obtain ⟨front, hFront, hSame⟩ := @exists_spells (escape c ++ []) [] c (escape_ne_quote c [])
    (char?_escape c [])
  rw [List.append_nil, List.append_nil] at hSame
  rwa [hSame]

/-- What is written is a text of JSON. -/
theorem isString_encode (s : List Char) : IsString (encode s) s := by
  have hBody : Body (s.flatMap escape) s := by
    induction s with
    | nil => exact .nil
    | cons c s ih => exact .cons (spells_escape c) ih
  exact .mk hBody

end ProtoBind.Text.JsonString
