import ProtoBind.Proofs.Sentences
import ProtoBind.Source.Parser.Item

/-!
# Runs of parsers

What the small parsers do with the tokens in front of them. A parser of a phrase stops before tokens that
are `clear` of what it could go on with.
-/

set_option autoImplicit false

namespace ProtoBind.Source

theorem countAll_append (front back : List Token) :
    countAll (front ++ back) = countAll front + countAll back := by
  induction front with
  | nil => rw [List.nil_append, countAll, Nat.zero_add]
  | cons token front ih => rw [List.cons_append, countAll, countAll, ih, Nat.add_assoc]

@[simp] theorem countAll_nil : countAll [] = 0 := rfl

@[simp] theorem countAll_word (name : String) (rest : List Token) :
    countAll (.word name :: rest) = 1 + countAll rest := rfl

@[simp] theorem countAll_literal (text : String) (rest : List Token) :
    countAll (.literal text :: rest) = 1 + countAll rest := rfl

@[simp] theorem countAll_mark (c : Char) (joined : Bool) (rest : List Token) :
    countAll (.mark c joined :: rest) = 1 + countAll rest := rfl

@[simp] theorem countAll_group (delimiter : Delimiter) (inner rest : List Token) :
    countAll (.group delimiter inner :: rest) = 2 + countAll inner + countAll rest := rfl

theorem length_le_countAll (tokens : List Token) : tokens.length ≤ countAll tokens := by
  induction tokens with
  | nil => exact Nat.le_refl 0
  | cons token tokens ih =>
    have hToken : 1 ≤ token.count := by
      cases token <;> simp only [Token.count] <;> omega
    rw [List.length_cons, countAll]
    omega

namespace Parser

variable {α β : Type}

def andThen (found : Option (α × List Token)) (f : α → Parser β) : Option (β × List Token) :=
  found.bind fun r => f r.1 r.2

@[simp] theorem andThen_some (a : α) (rest : List Token) (f : α → Parser β) :
    andThen (some (a, rest)) f = f a rest := rfl

@[simp] theorem andThen_none (f : α → Parser β) : andThen none f = none := rfl

/-- A parser is looked into only once it is known what has been found in front of it. -/
@[congr] theorem andThen_congr {found other : Option (α × List Token)} (h : found = other)
    (f : α → Parser β) : andThen found f = andThen other f := h ▸ rfl

@[simp ↓] theorem run_bind (p : Parser α) (f : α → Parser β) (tokens : List Token) :
    (p >>= f) tokens = andThen (p tokens) f := rfl

@[simp ↓] theorem run_map (f : α → β) (p : Parser α) (tokens : List Token) :
    (f <$> p) tokens = (p tokens).map fun r => (f r.1, r.2) := by
  change (p tokens).bind _ = _
  cases p tokens <;> rfl

@[simp] theorem run_pure (a : α) (tokens : List Token) : (pure a : Parser α) tokens = some (a, tokens) :=
  rfl

@[simp ↓] theorem run_ite (c : Prop) [Decidable c] (p q : Parser α) (tokens : List Token) :
    (if c then p else q) tokens = if c then p tokens else q tokens := by
  split <;> rfl

@[simp] theorem run_fail (tokens : List Token) : (fail : Parser α) tokens = none := rfl

@[simp] theorem run_peek (tokens : List Token) : peek tokens = some (tokens.head?, tokens) := rfl

@[simp] theorem run_atEnd (tokens : List Token) : atEnd tokens = some (tokens.isEmpty, tokens) := rfl

@[simp] theorem run_atMark (text : String) (tokens : List Token) :
    atMark text tokens = some ((afterMarks text.toList tokens).isSome, tokens) := rfl

def isGroup (delimiter : Delimiter) : List Token → Bool
  | .group d _ :: _ => d == delimiter
  | _ => false

def isThatWord (name : String) : List Token → Bool
  | .word other :: _ => other == name
  | _ => false

def isLifetime : List Token → Bool
  | .mark '\x27' _ :: .word _ :: _ => true
  | _ => false

def isLiteral : List Token → Bool
  | .literal _ :: _ => true
  | _ => false

@[simp] theorem isGroup_nil (delimiter : Delimiter) :
    isGroup delimiter [] = false := rfl

@[simp] theorem isGroup_word (delimiter : Delimiter) (other : String) (rest : List Token) :
    isGroup delimiter (.word other :: rest) = false := rfl

@[simp] theorem isGroup_literal (delimiter : Delimiter) (text : String) (rest : List Token) :
    isGroup delimiter (.literal text :: rest) = false := rfl

@[simp] theorem isGroup_mark (delimiter : Delimiter) (c : Char) (joined : Bool) (rest : List Token) :
    isGroup delimiter (.mark c joined :: rest) = false := rfl

@[simp] theorem isGroup_group (delimiter : Delimiter) (d : Delimiter) (inner rest : List Token) :
    isGroup delimiter (.group d inner :: rest) = (d == delimiter) := rfl

@[simp] theorem isThatWord_nil (name : String) :
    isThatWord name [] = false := rfl

@[simp] theorem isThatWord_word (name : String) (other : String) (rest : List Token) :
    isThatWord name (.word other :: rest) = (other == name) := rfl

@[simp] theorem isThatWord_literal (name : String) (text : String) (rest : List Token) :
    isThatWord name (.literal text :: rest) = false := rfl

@[simp] theorem isThatWord_mark (name : String) (c : Char) (joined : Bool) (rest : List Token) :
    isThatWord name (.mark c joined :: rest) = false := rfl

@[simp] theorem isThatWord_group (name : String) (d : Delimiter) (inner rest : List Token) :
    isThatWord name (.group d inner :: rest) = false := rfl

@[simp] theorem isLiteral_nil :
    isLiteral [] = false := rfl

@[simp] theorem isLiteral_word (other : String) (rest : List Token) :
    isLiteral (.word other :: rest) = false := rfl

@[simp] theorem isLiteral_literal (text : String) (rest : List Token) :
    isLiteral (.literal text :: rest) = true := rfl

@[simp] theorem isLiteral_mark (c : Char) (joined : Bool) (rest : List Token) :
    isLiteral (.mark c joined :: rest) = false := rfl

@[simp] theorem isLiteral_group (d : Delimiter) (inner rest : List Token) :
    isLiteral (.group d inner :: rest) = false := rfl

@[simp] theorem run_atGroup (delimiter : Delimiter) (tokens : List Token) :
    atGroup delimiter tokens = some (isGroup delimiter tokens, tokens) := by
  cases tokens with
  | nil => rfl
  | cons token rest => cases token <;> rfl

@[simp] theorem run_atWord (name : String) (tokens : List Token) :
    atWord name tokens = some (isThatWord name tokens, tokens) := by
  cases tokens with
  | nil => rfl
  | cons token rest => cases token <;> rfl

@[simp] theorem run_atLifetime (tokens : List Token) :
    atLifetime tokens = some (isLifetime tokens, tokens) := by
  unfold atLifetime isLifetime
  split <;> simp_all

@[simp] theorem run_atLiteral (tokens : List Token) :
    atLiteral tokens = some (isLiteral tokens, tokens) := by
  cases tokens with
  | nil => rfl
  | cons token rest => cases token <;> rfl

@[simp] theorem run_succeeds (p : Parser α) (tokens : List Token) :
    succeeds p tokens = some ((p tokens).isSome, tokens) := rfl

@[simp] theorem afterMarks_nil (c : Char) (cs : List Char) : afterMarks (c :: cs) [] = none := by
  cases cs <;> rfl

@[simp] theorem afterMarks_word (c : Char) (cs : List Char) (name : String) (rest : List Token) :
    afterMarks (c :: cs) (.word name :: rest) = none := by
  cases cs <;> rfl

@[simp] theorem afterMarks_literal (c : Char) (cs : List Char) (text : String) (rest : List Token) :
    afterMarks (c :: cs) (.literal text :: rest) = none := by
  cases cs <;> rfl

@[simp] theorem afterMarks_group (c : Char) (cs : List Char) (delimiter : Delimiter)
    (inner rest : List Token) : afterMarks (c :: cs) (.group delimiter inner :: rest) = none := by
  cases cs <;> rfl

@[simp] theorem afterMarks_other {c d : Char} (h : c ≠ d) (cs : List Char) (joined : Bool)
    (rest : List Token) : afterMarks (c :: cs) (.mark d joined :: rest) = none := by
  cases cs with
  | nil => exact if_neg h
  | cons d' cs =>
    cases joined with
    | false => rfl
    | true => exact if_neg h

@[simp] theorem afterMarks_last (c : Char) (joined : Bool) (rest : List Token) :
    afterMarks [c] (.mark c joined :: rest) = some rest := if_pos rfl

@[simp] theorem afterMarks_more (c d : Char) (cs : List Char) (rest : List Token) :
    afterMarks (c :: d :: cs) (.mark c true :: rest) = afterMarks (d :: cs) rest := if_pos rfl

@[simp] theorem afterMarks_apart (c d : Char) (cs : List Char) (rest : List Token) :
    afterMarks (c :: d :: cs) (.mark c false :: rest) = none := rfl

theorem run_eatMark_none {text : String} {tokens : List Token}
    (h : afterMarks text.toList tokens = none) : eatMark text tokens = some (false, tokens) := by
  rw [eatMark, h]

theorem run_eatMark_some {text : String} {tokens rest : List Token}
    (h : afterMarks text.toList tokens = some rest) : eatMark text tokens = some (true, rest) := by
  rw [eatMark, h]

theorem run_eatWord_false {name : String} {tokens : List Token} (h : isThatWord name tokens = false) :
    eatWord name tokens = some (false, tokens) := by
  unfold eatWord
  split
  · rename_i other rest
    rw [isThatWord, beq_eq_false_iff_ne] at h
    rw [if_neg h]
  · rfl

@[simp] theorem run_eatWord_nil (name : String) :
    eatWord name [] = some (false, []) := rfl

@[simp] theorem run_eatWord_literal (name : String) (text : String) (rest : List Token) :
    eatWord name (.literal text :: rest) = some (false, .literal text :: rest) := rfl

@[simp] theorem run_eatWord_mark (name : String) (c : Char) (joined : Bool) (rest : List Token) :
    eatWord name (.mark c joined :: rest) = some (false, .mark c joined :: rest) := rfl

@[simp] theorem run_eatWord_group (name : String) (d : Delimiter) (inner rest : List Token) :
    eatWord name (.group d inner :: rest) = some (false, .group d inner :: rest) := rfl

@[simp] theorem run_eatWord_other {name other : String} (h : other ≠ name) (rest : List Token) :
    eatWord name (.word other :: rest) = some (false, .word other :: rest) := by
  rw [eatWord, if_neg h]

@[simp] theorem run_eatWord (name : String) (rest : List Token) :
    eatWord name (.word name :: rest) = some (true, rest) := by
  rw [eatWord, if_pos rfl]

@[simp] theorem run_word (name : String) (rest : List Token) :
    word name (.word name :: rest) = some ((), rest) := by
  rw [word, if_pos rfl]

@[simp] theorem run_literal (text : String) (rest : List Token) :
    literal (.literal text :: rest) = some (text, rest) := rfl

@[simp] theorem run_anyWord (name : String) (rest : List Token) :
    anyWord (.word name :: rest) = some (name, rest) := rfl

theorem run_name {name : String} (h : isName name = true) (rest : List Token) :
    Parser.name (.word name :: rest) = some (name, rest) := by
  rw [Parser.name, if_pos h]

theorem run_inGroup {delimiter : Delimiter} {p : Parser α} {inner : List Token} {a : α}
    (h : p inner = some (a, [])) (rest : List Token) :
    inGroup delimiter p (.group delimiter inner :: rest) = some (a, rest) := by
  rw [inGroup, if_pos rfl, whole, h]
  rfl

/-! ## What a phrase stops before -/

def clear (marks : List Char) (groups : List Delimiter) : List Token → Bool
  | .mark c _ :: _ => !marks.contains c
  | .group delimiter _ :: _ => !groups.contains delimiter
  | _ => true

theorem afterMarks_of_clear {marks : List Char} {groups : List Delimiter} {tokens : List Token}
    (h : clear marks groups tokens = true) {c : Char} (hC : marks.contains c = true) (cs : List Char) :
    afterMarks (c :: cs) tokens = none := by
  cases tokens with
  | nil => exact afterMarks_nil c cs
  | cons token rest =>
    cases token with
    | mark d joined =>
      have hD : c ≠ d := by
        rintro rfl
        rw [clear, hC] at h
        cases h
      exact afterMarks_other hD cs joined rest
    | word name => exact afterMarks_word c cs name rest
    | literal text => exact afterMarks_literal c cs text rest
    | group delimiter inner => exact afterMarks_group c cs delimiter inner rest

theorem isGroup_of_clear {marks : List Char} {groups : List Delimiter} {tokens : List Token}
    (h : clear marks groups tokens = true) {delimiter : Delimiter}
    (hD : groups.contains delimiter = true) : isGroup delimiter tokens = false := by
  unfold isGroup
  split
  · rename_i d inner rest
    rw [beq_eq_false_iff_ne]
    rintro rfl
    rw [clear, hD] at h
    cases h
  · rfl

theorem clear_mono {marks marks' : List Char} {groups groups' : List Delimiter} {tokens : List Token}
    (h : clear marks' groups' tokens = true) (hMarks : ∀ c ∈ marks, c ∈ marks')
    (hGroups : ∀ d ∈ groups, d ∈ groups') : clear marks groups tokens = true := by
  unfold clear at h ⊢
  split at h
  · simp only [Bool.not_eq_true', ← Bool.not_eq_true, List.contains_iff_mem] at h ⊢
    exact fun hMem => h (hMarks _ hMem)
  · simp only [Bool.not_eq_true', ← Bool.not_eq_true, List.contains_iff_mem] at h ⊢
    exact fun hMem => h (hGroups _ hMem)
  · rfl

/-! ## Elements with commas -/

theorem run_commasUpTo_last {p : Parser α} {tokens : List Token} {a : α} (hNe : tokens ≠ [])
    (h : p tokens = some (a, [])) (n : Nat) :
    commasUpTo p (n + 1) tokens = some (([a], false), []) := by
  have hMore : tokens.isEmpty = false := by simpa using hNe
  rw [commasUpTo]
  simp [hMore, h]

theorem run_commasUpTo_ended {p : Parser α} {tokens : List Token} {a : α} {joined : Bool}
    (hNe : tokens ≠ []) (h : p tokens = some (a, [.mark ',' joined])) (n : Nat) :
    commasUpTo p (n + 1) tokens = some (([a], true), []) := by
  have hMore : tokens.isEmpty = false := by simpa using hNe
  rw [commasUpTo]
  simp [hMore, h, mark]

theorem run_commasUpTo_cons {p : Parser α} {tokens rest : List Token} {a : α} {joined ended : Bool}
    {more : List α} {n : Nat} (hNe : tokens ≠ []) (h : p tokens = some (a, .mark ',' joined :: rest))
    (hRestNe : rest ≠ []) (hRest : commasUpTo p n rest = some ((more, ended), [])) :
    commasUpTo p (n + 1) tokens = some ((a :: more, ended), []) := by
  have hMore : tokens.isEmpty = false := by simpa using hNe
  rw [commasUpTo]
  simp [hMore, h, mark, hRestNe, hRest]

/-- A comma stands behind the first element whether more follow it or not. Only the limit has to be above the
number of tokens. -/
theorem run_commasUpTo_comma {p : Parser α} {tokens rest : List Token} {a : α} {joined : Bool} {more : List α}
    (hLess : rest.length < tokens.length) (h : p tokens = some (a, .mark ',' joined :: rest))
    (hRest : ∀ n, rest.length < n → ∃ ended, commasUpTo p n rest = some ((more, ended), []))
    (n : Nat) (hLimit : tokens.length < n) : ∃ ended, commasUpTo p n tokens = some ((a :: more, ended), []) := by
  obtain ⟨n, rfl⟩ : ∃ m, n = m + 1 := ⟨n - 1, by omega⟩
  have hNe : tokens ≠ [] := List.ne_nil_of_length_pos (by omega)
  obtain ⟨ended, hRun⟩ := hRest n (by omega)
  cases rest with
  | nil =>
    obtain rfl : more = [] := by
      cases n with
      | zero =>
        cases hRun
        rfl
      | succ n =>
        cases hRun
        rfl
    exact ⟨true, run_commasUpTo_ended hNe h n⟩
  | cons token rest => exact ⟨ended, run_commasUpTo_cons hNe h (List.cons_ne_nil _ _) hRun⟩

theorem run_commasUpTo_nil {p : Parser α} (n : Nat) (hLimit : 0 < n) :
    ∃ ended, commasUpTo p n [] = some (([], ended), []) := by
  obtain ⟨n, rfl⟩ : ∃ m, n = m + 1 := ⟨n - 1, by omega⟩
  exact ⟨false, rfl⟩

/-! ## Repetitions -/

theorem run_manyUpTo_nil {p : Parser α} (n : Nat) (hLimit : 0 < n) : manyUpTo p n [] = some ([], []) := by
  obtain ⟨n, rfl⟩ : ∃ m, n = m + 1 := ⟨n - 1, by omega⟩
  rfl

theorem run_manyUpTo_cons {p : Parser α} {tokens rest : List Token} {a : α} {more : List α}
    (hLess : rest.length < tokens.length) (h : p tokens = some (a, rest))
    (hRest : ∀ n, rest.length < n → manyUpTo p n rest = some (more, []))
    (n : Nat) (hLimit : tokens.length < n) : manyUpTo p n tokens = some (a :: more, []) := by
  obtain ⟨n, rfl⟩ : ∃ m, n = m + 1 := ⟨n - 1, by omega⟩
  have hMore : tokens.isEmpty = false := by simpa using List.ne_nil_of_length_pos (show 0 < tokens.length by omega)
  rw [manyUpTo]
  simp [hMore, h, hRest n (by omega)]

end Parser

end ProtoBind.Source
