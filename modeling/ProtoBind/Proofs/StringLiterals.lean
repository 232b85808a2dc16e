import ProtoBind.Proofs.Lexing

/-!
# One literal for each text

A text is written as one literal on one line. No text can end the literal that it is written in, since all quotes
in a literal are escaped but the first and the last, and no two texts share a literal.
-/

set_option autoImplicit false

namespace ProtoBind.Text.Quoted

/-- The characters that end a line in some reading of a text. -/
def lineBreaks : List Char := ['\n', '\x0b', '\x0c', '\r', '\u0085', '\u2028', '\u2029']

/-- Whether what stands behind a text is escaped: it follows a backslash that is not escaped itself. -/
def escapes (text : List Char) : Bool := text.foldl (fun escaped c => c == '\x5c' && !escaped) false

/-- A literal of one line that a text is written as. No quote in it ends the literal before its last character, and it
denotes that text alone. -/
structure Faithful (literal s : String) : Prop where
  token : Source.lex literal.toList = some [.literal literal]
  line : ∀ c ∈ literal.toList, c ∉ lineBreaks
  enclosed : ∃ body, literal.toList = '\x22' :: (body ++ ['\x22'])
  /-- Of the quotes, just the first character and the last one are not escaped. -/
  quotes : ∀ front back, literal.toList = front ++ '\x22' :: back →
    (escapes front = false ↔ front = [] ∨ back = [])
  denotes : ∀ value, IsLiteral literal.toList value ↔ value = s.toList

/-! ### Escaped quotes -/

theorem escapes_append {front : List Char} (h : escapes front = false) (back : List Char) :
    escapes (front ++ back) = escapes back := by
  unfold escapes at h ⊢
  rw [List.foldl_append, h]

/-- A text in which all quotes are escaped, and which escapes nothing behind it. -/
structure Guarded (text : List Char) : Prop where
  settled : escapes text = false
  quotes : ∀ front back, text = front ++ '\x22' :: back → escapes front = true

theorem Guarded.append {a b : List Char} (hA : Guarded a) (hB : Guarded b) : Guarded (a ++ b) := by
  constructor
  · rw [escapes_append hA.settled, hB.settled]
  · intro front back hText
    rcases List.append_eq_append_iff.mp hText with ⟨more, rfl, hMore⟩ | ⟨more, rfl, hMore⟩
    · rw [escapes_append hA.settled]
      exact hB.quotes more back hMore
    · cases more with
      | nil =>
        rw [List.append_nil] at hA
        have hFirst := hB.quotes [] back hMore.symm
        cases hFirst
      | cons c more =>
        obtain rfl := (List.cons.inj hMore).1
        exact hA.quotes front more rfl

theorem guarded_nil : Guarded [] := by
  refine ⟨rfl, fun front back hText => ?_⟩
  cases front <;> cases hText

theorem guarded_of_plain {text : List Char} (h : ∀ c ∈ text, c ≠ '\x22' ∧ c ≠ '\x5c') : Guarded text := by
  constructor
  · induction text with
    | nil => rfl
    | cons c text ih =>
      have hFirst : escapes [c] = false := by simp [escapes, (h c List.mem_cons_self).2]
      rw [← List.singleton_append, escapes_append hFirst]
      exact ih fun d hMem => h d (List.mem_cons_of_mem c hMem)
  · rintro front back rfl
    exact absurd rfl (h '\x22' (List.mem_append_right front List.mem_cons_self)).1

theorem guarded_pair (c : Char) : Guarded ['\x5c', c] := by
  constructor
  · simp [escapes]
  · intro front back hText
    cases front with
    | nil => cases hText
    | cons d front =>
      obtain ⟨rfl, hRest⟩ := List.cons.inj hText
      cases front with
      | nil => rfl
      | cons e front =>
        have hLength := congrArg List.length (List.cons.inj hRest).2
        simp at hLength

/-- What holds of an underscore and of all digits holds of the characters of a number. -/
theorem IsNumber.forall_mem {digits : List Char} {count n : Nat} (h : IsNumber digits count n) {P : Char → Prop}
    (hUnderscore : P '_') (hHex : ∀ c i, hexValue c = some i → P c) : ∀ c ∈ digits, P c := by
  induction h with
  | first h => exact List.forall_mem_singleton.mpr (hHex _ _ h)
  | digit _ h ih => exact List.forall_mem_append.mpr ⟨ih, List.forall_mem_singleton.mpr (hHex _ _ h)⟩
  | underscore _ ih => exact List.forall_mem_append.mpr ⟨ih, List.forall_mem_singleton.mpr hUnderscore⟩

theorem guarded_of_spells {front : List Char} {c : Char} (h : Spells front c) : Guarded front := by
  cases h with
  | plain hQuote hSlash => exact guarded_of_plain (by simp [hQuote, hSlash])
  | lineEnd => exact guarded_of_plain (by simp)
  | short => exact guarded_pair _
  | byte hHigh _ hLow =>
    obtain ⟨hHighQuote, hHighSlash, -⟩ := ne_of_hexValue hHigh
    obtain ⟨hLowQuote, hLowSlash, -⟩ := ne_of_hexValue hLow
    refine (guarded_pair 'x').append (guarded_of_plain ?_)
    simp [hHighQuote, hHighSlash, hLowQuote, hLowSlash]
  | number hDigits =>
    have hPlain : ∀ c ∈ _, c ≠ '\x22' ∧ c ≠ '\x5c' := hDigits.forall_mem (by decide) fun c i hHex =>
      ⟨(ne_of_hexValue hHex).1, (ne_of_hexValue hHex).2.1⟩
    refine (guarded_pair 'u').append (guarded_of_plain ?_)
    exact List.forall_mem_cons.mpr ⟨by simp, List.forall_mem_append.mpr ⟨hPlain, by simp⟩⟩

theorem guarded_of_body {body value : List Char} (h : Body body value) : Guarded body := by
  induction h with
  | nil => exact guarded_nil
  | cons h _ ih => exact (guarded_of_spells h).append ih
  | @gap lineEnd back value blanks hLine hBlanks _ _ ih =>
    have hBlank : ∀ c ∈ gapBlanks.flatten, c ≠ '\x22' ∧ c ≠ '\x5c' := Source.forall_mem_of_all (by decide)
    have hPlain : Guarded blanks.flatten := by
      refine guarded_of_plain fun c hMem => ?_
      obtain ⟨blank, hBlankMem, hC⟩ := List.mem_flatten.mp hMem
      exact hBlank c (List.mem_flatten.mpr ⟨blank, hBlanks blank hBlankMem, hC⟩)
    simp only [lineEnds, List.mem_cons, List.not_mem_nil, or_false] at hLine
    rcases hLine with rfl | rfl
    · exact (guarded_pair '\n').append (hPlain.append ih)
    · have hEnd : Guarded ['\n'] := guarded_of_plain (by simp)
      exact (guarded_pair '\r').append (hEnd.append (hPlain.append ih))

/-- In a literal the first quote and the last one are not escaped, and all others are. -/
theorem IsLiteral.escapes_iff {literal value front back : List Char} (h : IsLiteral literal value)
    (hText : literal = front ++ '\x22' :: back) : escapes front = false ↔ front = [] ∨ back = [] := by
  obtain ⟨hBody⟩ := h
  have hGuarded := guarded_of_body hBody
  cases front with
  | nil => exact iff_of_true rfl (.inl rfl)
  | cons c front =>
    rw [List.cons_append] at hText
    obtain ⟨rfl, hRest⟩ := List.cons.inj hText
    have hOpen : escapes ('\x22' :: front) = escapes front := rfl
    rw [hOpen]
    rcases List.eq_nil_or_concat back with rfl | ⟨more, last, rfl⟩
    · obtain rfl := List.append_cancel_right hRest
      exact iff_of_true hGuarded.settled (.inr rfl)
    · rw [List.concat_eq_append, ← List.cons_append, ← List.append_assoc] at hRest
      rw [hGuarded.quotes front more (List.append_inj_left' hRest rfl)]
      simp

/-! ### What is written -/

theorem lineBreak_cases :
    ∀ c ∈ lineBreaks, hexValue c = none ∧ (c = '\r' ∨ c = '\n' ∨ isEscaped c = true) :=
  Source.forall_mem_of_all (by decide +kernel)

theorem not_lineBreak_of_mem_encodeChar {c : Char} : ∀ d ∈ encodeChar c, d ∉ lineBreaks := by
  unfold encodeChar
  iterate 6
    split
    · exact Source.forall_mem_of_all (by decide)
  rename_i hReturn hLine _ _
  split
  · have hOpen : ∀ d ∈ ['\x5c', 'u', '\x7b'], d ∉ lineBreaks := Source.forall_mem_of_all (by decide)
    have hDigits : ∀ d ∈ hexDigits c.toNat, d ∉ lineBreaks := by
      refine (isNumber_hexDigits c.toNat).forall_mem (by decide) fun d i hHex hBreak => ?_
      rw [(lineBreak_cases d hBreak).1] at hHex
      cases hHex
    have hClose : ∀ d ∈ ['\x7d'], d ∉ lineBreaks := Source.forall_mem_of_all (by decide)
    exact List.forall_mem_append.mpr ⟨List.forall_mem_append.mpr ⟨hOpen, hDigits⟩, hClose⟩
  · rename_i hEscaped
    refine List.forall_mem_singleton.mpr fun hBreak => ?_
    rcases (lineBreak_cases c hBreak).2 with h | h | h
    · exact hReturn h
    · exact hLine h
    · exact hEscaped h

theorem not_lineBreak_of_mem_encode (s : String) : ∀ c ∈ (encode s).toList, c ∉ lineBreaks := by
  rw [encode_toList, List.forall_mem_cons, List.forall_mem_append]
  refine ⟨by decide, fun c hMem => ?_, Source.forall_mem_of_all (by decide)⟩
  obtain ⟨d, -, hC⟩ := List.mem_flatMap.mp hMem
  exact not_lineBreak_of_mem_encodeChar c hC

theorem isLiteral_encode (s : String) : IsLiteral (encode s).toList s.toList := by
  rw [encode_toList]
  exact .mk (body_encodeBody s.toList)

/-- The literal of a text is one token. -/
theorem lex_encode (s : String) : Source.lex (encode s).toList = some [.literal (encode s)] := by
  have hToken : Source.TokenAt (encode s).toList (.literal (encode s)) [] := by
    have hAlone := @Source.tokenAt_quoted s [] rfl
    rwa [List.append_nil] at hAlone
  have hEnd : Source.Lexes [] [] := by
    intro fuel opened read hFuel
    obtain ⟨fuel, rfl⟩ := Nat.exists_eq_add_of_lt hFuel
    rfl
  rw [Source.lex, Source.lexes_token hToken hEnd _ _ _ (Nat.lt_succ_self _)]
  rfl

theorem faithful_encode (s : String) : Faithful (encode s) s := by
  constructor
  case token => exact lex_encode s
  case line => exact not_lineBreak_of_mem_encode s
  case enclosed => exact ⟨encodeBody s.toList, encode_toList s⟩
  case quotes => exact fun front back => (isLiteral_encode s).escapes_iff
  case denotes =>
    intro value
    constructor
    · exact fun hValue => hValue.value_unique (isLiteral_encode s)
    · rintro rfl
      exact isLiteral_encode s

/-- Each text is written as one literal, whatever characters it holds, and no two texts share one. -/
theorem encode_faithful : (∀ s, Faithful (encode s) s) ∧ ∀ s t, encode s = encode t ↔ s = t := by
  refine ⟨faithful_encode, fun s t => ⟨fun h => ?_, congrArg encode⟩⟩
  have hDenotes := ((faithful_encode t).denotes s.toList).mp (h ▸ isLiteral_encode s)
  exact String.toList_inj.mp hDenotes

example : encode "a\x22b\x5c\n\x007" = "\x22a\x5c\x22b\x5c\x5c\x5cn\x5c07\x22" := by decide +kernel

end ProtoBind.Text.Quoted
