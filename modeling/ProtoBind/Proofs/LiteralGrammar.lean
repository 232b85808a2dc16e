import ProtoBind.Text.Quoted

/-!
# What stands between quotes

How characters may be written in a quoted literal, said apart from the reader: as they are, by a short escape,
by a number of two digits or in braces. A backslash at the end of a line leaves out the line end and the blanks
behind it. The reader takes such a text for what it denotes.
-/

set_option autoImplicit false

namespace ProtoBind.Text.Quoted

/-- Digits in base sixteen with underscores among and behind them: how many digits there are, and their number. -/
inductive IsNumber : List Char → Nat → Nat → Prop where
  | first {c : Char} {i : Nat} (h : hexValue c = some i) : IsNumber [c] 1 i
  | digit {digits : List Char} {count n i : Nat} {c : Char} (hDigits : IsNumber digits count n)
      (h : hexValue c = some i) : IsNumber (digits ++ [c]) (count + 1) (16 * n + i)
  | underscore {digits : List Char} {count n : Nat} (hDigits : IsNumber digits count n) :
      IsNumber (digits ++ ['_']) count n

inductive Spells : List Char → Char → Prop where
  | plain {c : Char} (hQuote : c ≠ '\x22') (hSlash : c ≠ '\x5c') (hReturn : c ≠ '\r') : Spells [c] c
  | lineEnd : Spells ['\r', '\n'] '\n'
  | short {letter c : Char} (h : shortEscape letter = some c) : Spells ['\x5c', letter] c
  | byte {high low : Char} {i j : Nat} (hHigh : hexValue high = some i) (hSmall : i < 8)
      (hLow : hexValue low = some j) : Spells ['\x5c', 'x', high, low] (Char.ofNat (16 * i + j))
  | number {digits : List Char} {count n : Nat} (hDigits : IsNumber digits count n) (hCount : count ≤ 6)
      (hValid : n.isValidChar) : Spells ('\x5c' :: 'u' :: '\x7b' :: (digits ++ ['\x7d'])) (Char.ofNat n)

def lineEnds : List (List Char) := [['\n'], ['\r', '\n']]

def gapBlanks : List (List Char) := [' '] :: ['\t'] :: lineEnds

inductive Body : List Char → List Char → Prop where
  | nil : Body [] []
  | cons {front back value : List Char} {c : Char} (h : Spells front c) (hRest : Body back value) :
      Body (front ++ back) (c :: value)
  | gap {lineEnd back value : List Char} {blanks : List (List Char)} (hLine : lineEnd ∈ lineEnds)
      (hBlanks : ∀ blank ∈ blanks, blank ∈ gapBlanks)
      (hBack : ∀ c ∈ back.head?, c ∉ [' ', '\t', '\n', '\r']) (hRest : Body back value) :
      Body ('\x5c' :: (lineEnd ++ (blanks.flatten ++ back))) value

inductive IsLiteral : List Char → List Char → Prop where
  | mk {body value : List Char} (h : Body body value) : IsLiteral ('\x22' :: (body ++ ['\x22'])) value

/-! ### Steps of the reader -/

theorem read_step {mode next : Mode} {c : Char} {out : List Char} (hStep : step mode c = some (next, out))
    (hQuote : c ≠ '\x22' ∨ mode ≠ .plain ∧ mode ≠ .gap) (cs : List Char) :
    read mode (c :: cs) = (read next cs).map fun (value, rest) => (out ++ value, rest) := by
  have hGoesOn : ¬ (c = '\x22' ∧ (mode = .plain ∨ mode = .gap)) := by
    rintro ⟨hC, hMode⟩
    rcases hQuote with hNe | ⟨hPlain, hGap⟩
    · exact hNe hC
    · exact hMode.elim hPlain hGap
  rw [read, if_neg hGoesOn, hStep]

theorem read_silent {mode next : Mode} {c : Char} (hStep : step mode c = some (next, []))
    (hQuote : c ≠ '\x22' ∨ mode ≠ .plain ∧ mode ≠ .gap) (cs : List Char) :
    read mode (c :: cs) = read next cs := by
  rw [read_step hStep hQuote]
  simp

theorem ne_of_hexValue {c : Char} {i : Nat} (h : hexValue c = some i) :
    c ≠ '\x22' ∧ c ≠ '\x5c' ∧ c ≠ '\x7d' ∧ c ≠ '_' := by
  refine ⟨?_, ?_, ?_, ?_⟩ <;> rintro rfl <;> exact absurd (h.symm.trans rfl) (Option.some_ne_none i)

theorem ne_of_shortEscape {letter c : Char} (h : shortEscape letter = some c) :
    letter ≠ 'x' ∧ letter ≠ 'u' ∧ letter ≠ '\n' ∧ letter ≠ '\r' := by
  refine ⟨?_, ?_, ?_, ?_⟩ <;> rintro rfl <;> exact absurd (h.symm.trans rfl) (Option.some_ne_none c)

/-! ### Numbers in braces -/

theorem IsNumber.count_pos {digits : List Char} {count n : Nat} (h : IsNumber digits count n) : 0 < count := by
  induction h with
  | first => exact Nat.one_pos
  | digit => exact Nat.succ_pos _
  | underscore _ ih => exact ih

theorem step_digit {c : Char} {k value i : Nat} (hRoom : k < 6) (h : hexValue c = some i) :
    step (.number k value) c = some (.number (k + 1) (16 * value + i), []) := by
  obtain ⟨-, -, hBrace, hUnderscore⟩ := ne_of_hexValue h
  rw [step, if_neg hBrace, if_neg hUnderscore, h]
  exact if_pos hRoom

theorem read_of_isNumber {digits : List Char} {count n : Nat} (h : IsNumber digits count n) (hRoom : count ≤ 6)
    (cs : List Char) : read (.number 0 0) (digits ++ cs) = read (.number count n) cs := by
  induction h generalizing cs with
  | @first c i h =>
    have hStep : step (.number 0 0) c = some (.number (0 + 1) (16 * 0 + i), []) := step_digit (by decide) h
    rw [Nat.mul_zero, Nat.zero_add, Nat.zero_add] at hStep
    exact read_silent hStep (.inr ⟨by simp, by simp⟩) cs
  | @digit digits count n i c _ h ih =>
    rw [List.append_assoc, ih (by omega)]
    exact read_silent (step_digit (by omega) h) (.inr ⟨by simp, by simp⟩) cs
  | @underscore digits count n hDigits ih =>
    have hStep : step (.number count n) '_' = some (.number count n, []) := if_pos hDigits.count_pos
    rw [List.append_assoc, ih hRoom]
    exact read_silent hStep (.inl (by decide)) cs

/-! ### Characters -/

/-- The written form of a character is read as that character. -/
theorem read_of_spells {front : List Char} {c : Char} (h : Spells front c) (cs : List Char) :
    read .plain (front ++ cs) = (read .plain cs).map fun (value, rest) => (c :: value, rest) := by
  have hOpen : step .plain '\x5c' = some (.slash, []) := rfl
  cases h with
  | plain hQuote hSlash hReturn =>
    have hStep : step .plain c = some (.plain, [c]) := by simp [step, plainStep, hSlash, hReturn]
    exact read_step hStep (.inl hQuote) cs
  | lineEnd =>
    have hCarriage : step .plain '\r' = some (.carriage, []) := rfl
    have hLine : step .carriage '\n' = some (.plain, ['\n']) := rfl
    rw [List.cons_append, read_silent hCarriage (.inl (by decide))]
    exact read_step hLine (.inl (by decide)) cs
  | @short letter _ h =>
    obtain ⟨hX, hU, hLine, hReturn⟩ := ne_of_shortEscape h
    have hStep : step .slash letter = some (.plain, [c]) := by simp [step, hX, hU, hLine, hReturn, h]
    rw [List.cons_append, read_silent hOpen (.inl (by decide))]
    exact read_step hStep (.inr ⟨by simp, by simp⟩) cs
  | @byte high low i j hHigh hSmall hLow =>
    have hByte : step .slash 'x' = some (.byteHigh, []) := rfl
    have hFirst : step .byteHigh high = some (.byteLow i, []) := by simp [step, hHigh, hSmall]
    have hSecond : step (.byteLow i) low = some (.plain, [Char.ofNat (16 * i + j)]) := by simp [step, hLow]
    rw [List.cons_append, read_silent hOpen (.inl (by decide)), List.cons_append,
      read_silent hByte (.inl (by decide)), List.cons_append, read_silent hFirst (.inr ⟨by simp, by simp⟩)]
    exact read_step hSecond (.inr ⟨by simp, by simp⟩) cs
  | @number digits count n hDigits hCount hValid =>
    have hNumber : step .slash 'u' = some (.openBrace, []) := rfl
    have hBrace : step .openBrace '\x7b' = some (.number 0 0, []) := rfl
    have hClose : step (.number count n) '\x7d' = some (.plain, [Char.ofNat n]) :=
      if_pos ⟨hDigits.count_pos, hValid⟩
    rw [List.cons_append, read_silent hOpen (.inl (by decide)), List.cons_append,
      read_silent hNumber (.inl (by decide)), List.cons_append, read_silent hBrace (.inl (by decide)),
      List.append_assoc, read_of_isNumber hDigits hCount]
    exact read_step hClose (.inl (by decide)) cs

/-! ### Texts -/

theorem read_blanks {blanks : List (List Char)} (h : ∀ blank ∈ blanks, blank ∈ gapBlanks) (cs : List Char) :
    read .gap (blanks.flatten ++ cs) = read .gap cs := by
  have hBlank : ∀ blank ∈ gapBlanks, ∀ more, read .gap (blank ++ more) = read .gap more := by
    intro blank hMem more
    simp only [gapBlanks, lineEnds, List.mem_cons, List.not_mem_nil, or_false] at hMem
    rcases hMem with rfl | rfl | rfl | rfl
    · exact read_silent rfl (.inl (by decide)) more
    · exact read_silent rfl (.inl (by decide)) more
    · exact read_silent rfl (.inl (by decide)) more
    · have hReturn : step .gap '\r' = some (.gapCarriage, []) := rfl
      rw [List.cons_append, read_silent hReturn (.inl (by decide))]
      exact read_silent rfl (.inl (by decide)) more
  induction blanks with
  | nil => rfl
  | cons blank blanks ih =>
    rw [List.flatten_cons, List.append_assoc, hBlank blank (h blank List.mem_cons_self)]
    exact ih fun other hMem => h other (List.mem_cons_of_mem _ hMem)

/-- What begins with no blank is read behind a gap as it is read elsewhere. -/
theorem read_gap {c : Char} (h : c ∉ [' ', '\t', '\n', '\r']) (cs : List Char) :
    read .gap (c :: cs) = read .plain (c :: cs) := by
  simp only [List.mem_cons, List.not_mem_nil, or_false, not_or] at h
  obtain ⟨hSpace, hTab, hLine, hReturn⟩ := h
  simp [read, step, hSpace, hTab, hLine, hReturn]

/-- A written text is read as the text, up to the quote behind it. -/
theorem read_of_body {body value : List Char} (h : Body body value) (rest : List Char) :
    read .plain (body ++ '\x22' :: rest) = some (value, rest) := by
  induction h with
  | nil => exact read_plain_quote rest
  | cons h _ ih =>
    rw [List.append_assoc, read_of_spells h, ih]
    rfl
  | @gap lineEnd back value blanks hLine hBlanks hBack _ ih =>
    have hOpen : step .plain '\x5c' = some (.slash, []) := rfl
    have hGap : read .plain ('\x5c' :: (lineEnd ++ (blanks.flatten ++ (back ++ '\x22' :: rest))))
        = read .gap (blanks.flatten ++ (back ++ '\x22' :: rest)) := by
      rw [read_silent hOpen (.inl (by decide))]
      simp only [lineEnds, List.mem_cons, List.not_mem_nil, or_false] at hLine
      rcases hLine with rfl | rfl
      · exact read_silent rfl (.inl (by decide)) _
      · have hReturn : step .slash '\r' = some (.gapCarriage, []) := rfl
        rw [List.cons_append, read_silent hReturn (.inl (by decide))]
        exact read_silent rfl (.inl (by decide)) _
    have hEnds : ∀ c ∈ (back ++ '\x22' :: rest).head?, c ∉ [' ', '\t', '\n', '\r'] := by
      cases back with
      | nil =>
        rintro c ⟨⟩
        decide
      | cons d ds => exact hBack
    rw [List.cons_append, List.append_assoc, List.append_assoc, hGap, read_blanks hBlanks, ← ih]
    cases hText : back ++ '\x22' :: rest with
    | nil => rfl
    | cons c cs =>
      rw [hText] at hEnds
      exact read_gap (hEnds c rfl) cs

/-- A literal denotes one text. -/
theorem IsLiteral.value_unique {literal s t : List Char} (hS : IsLiteral literal s) (hT : IsLiteral literal t) :
    s = t := by
  obtain ⟨hBody⟩ := hS
  generalize hLiteral : '\x22' :: (_ ++ ['\x22']) = literal at hT
  obtain ⟨hOther⟩ := hT
  have hSame := (List.cons.inj hLiteral).2
  have hRead := read_of_body hBody []
  rw [hSame, read_of_body hOther []] at hRead
  exact (congrArg Prod.fst (Option.some.inj hRead)).symm

end ProtoBind.Text.Quoted
