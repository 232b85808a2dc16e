import ProtoBind.Proofs.QuotedReaders

/-!
# What tokens a text can give

The lexer gives no arbitrary tokens: the text of each is one that the lexer takes for such a token
before any blank, and a mark is joined to another token only.
-/

set_option autoImplicit false

namespace ProtoBind.Source

open Text

/-- Whether a character stands behind a token that is spelled out: a blank or the end of a group. -/
def isBreak (c : Char) : Bool := c == ' ' || c == ')' || c == ']' || c == '\x7d'

/-- Whether nothing of a token that stands before it can begin a text. -/
def breaksOff (cs : List Char) : Bool := cs.head?.all isBreak

theorem not_break_of_rest {c : Char} (h : isIdentifierRest c = true) : isBreak c = false := by
  rw [← Bool.not_eq_true]
  intro hBreak
  simp only [isBreak, Bool.or_eq_true, beq_iff_eq] at hBreak
  rcases hBreak with ((rfl | rfl) | rfl) | rfl <;> exact absurd h (by decide)

theorem rest_of_isDigit {c : Char} (h : c.isDigit = true) : isIdentifierRest c = true :=
  isIdentifierRest_of_isNameChar (isNameChar_of_isDigit h)

theorem not_start_of_isDigit {c : Char} (h : c.isDigit = true) : isIdentifierStart c = false := by
  have hRange := isDigit_iff.mp h
  rw [← Bool.not_eq_true, isIdentifierStart, if_pos (by omega), Bool.or_eq_true, isAlpha_iff, beq_iff_eq,
    eq_iff_toNat]
  have hUnderscore : '_'.toNat = 95 := rfl
  omega

theorem not_start_of_mark {c : Char} (h : c ∈ markChars) : isIdentifierStart c = false ∧ c.isDigit = false := by
  have hAll : ∀ d ∈ markChars, isIdentifierStart d = false ∧ d.isDigit = false :=
    forall_mem_of_all (by decide)
  exact hAll c h

/-! ## Words and suffixes -/

structure Word (text : List Char) : Prop where
  start : text.head?.any isIdentifierStart = true
  rest : ∀ c ∈ text, isIdentifierRest c = true

theorem cutWord_spec {cs name rest : List Char} (h : cutWord cs = some (name, rest)) :
    cs = name ++ rest ∧ Word name ∧ ∀ c ∈ rest.head?, isIdentifierRest c = false := by
  cases cs with
  | nil => cases h
  | cons c cs =>
    rw [cutWord] at h
    split at h <;> cases h
    rename_i hStart
    refine ⟨congrArg (c :: ·) List.takeWhile_append_dropWhile.symm, ⟨hStart, fun d hMem => ?_⟩, fun d hMem => ?_⟩
    · rcases List.mem_cons.mp hMem with rfl | hMem
      · exact isIdentifierRest_of_start hStart
      · exact List.all_eq_true.mp List.all_takeWhile d hMem
    · have hHead := List.head?_dropWhile_not isIdentifierRest cs
      rw [hMem] at hHead
      exact hHead

theorem not_rest_of_breaksOff {cs : List Char} (h : breaksOff cs = true) :
    ∀ c ∈ cs.head?, isIdentifierRest c = false := by
  intro c hMem
  rw [breaksOff, hMem] at h
  rw [← Bool.not_eq_true]
  intro hRest
  rw [Option.all_some, not_break_of_rest hRest] at h
  cases h

theorem cutWord_append {name : List Char} (hWord : Word name) {more : List Char}
    (hMore : ∀ c ∈ more.head?, isIdentifierRest c = false) : cutWord (name ++ more) = some (name, more) := by
  obtain ⟨hStart, hRest⟩ := hWord
  cases name with
  | nil => cases hStart
  | cons c cs =>
    obtain ⟨hTake, hDrop⟩ := takeWhile_append_of_all (fun d hMem => hRest d (List.mem_cons_of_mem c hMem)) hMore
    rw [List.cons_append, cutWord, hTake, hDrop]
    exact if_pos hStart

theorem dropSuffix_of_breaksOff {cs : List Char} (h : breaksOff cs = true) : dropSuffix cs = cs := by
  cases cs with
  | nil => rfl
  | cons c cs =>
    have hRest := not_rest_of_breaksOff h c rfl
    have hStart : ¬ isIdentifierStart c = true :=
      fun hStart => by simp [isIdentifierRest_of_start hStart] at hRest
    rw [dropSuffix, cutWord, if_neg hStart]

theorem dropSuffix_spec (cs : List Char) :
    ∃ suffix, cs = suffix ++ dropSuffix cs ∧ (∀ c ∈ suffix, isIdentifierRest c = true)
      ∧ ∀ more, breaksOff more = true → dropSuffix (suffix ++ more) = more := by
  cases hCut : cutWord cs with
  | none => exact ⟨[], by rw [dropSuffix, hCut]; rfl, by simp, fun more => dropSuffix_of_breaksOff⟩
  | some cut =>
    obtain ⟨suffix, rest⟩ := cut
    obtain ⟨rfl, hWord, -⟩ := cutWord_spec hCut
    refine ⟨suffix, by rw [dropSuffix, hCut], hWord.rest, fun more hMore => ?_⟩
    rw [dropSuffix, cutWord_append hWord (not_rest_of_breaksOff hMore)]

/-! ## Literals -/

def QuotedText (text : List Char) : Prop :=
  ∀ more, breaksOff more = true → cutQuoted (text ++ more) = some (text, more)

theorem cutQuoted_spec {cs text rest : List Char} (h : cutQuoted cs = some (text, rest)) :
    cs = text ++ rest ∧ QuotedText text := by
  obtain ⟨mid, hDrop, hCut⟩ := Option.map_eq_some_iff.mp h
  obtain ⟨front, rfl, hAll⟩ := dropQuoted_local hDrop
  obtain ⟨suffix, hMid, -, hSuffix⟩ := dropSuffix_spec mid
  obtain ⟨hText, rfl⟩ := Prod.mk.inj hCut
  have hSplit : front ++ mid = (front ++ suffix) ++ dropSuffix mid := by rw [List.append_assoc, ← hMid]
  rw [hSplit, takenFrom_append] at hText
  subst hText
  refine ⟨hSplit, fun more hMore => ?_⟩
  have hTaken := takenFrom_append (front ++ suffix) more
  rw [List.append_assoc] at hTaken ⊢
  rw [cutQuoted, hAll, Option.map_some, hSuffix more hMore]
  dsimp only
  rw [hTaken]

/-- Whether a text goes on as another one behind characters of which none breaks it off. -/
def Passes (cs rest : List Char) : Prop := ∃ front, cs = front ++ rest ∧ ∀ c ∈ front, isBreak c = false

namespace Passes

theorem refl (cs : List Char) : Passes cs cs := ⟨[], rfl, by simp⟩

theorem cons {c : Char} {cs rest : List Char} (hC : isBreak c = false)
    (h : Passes cs rest) : Passes (c :: cs) rest := by
  obtain ⟨front, rfl, hAll⟩ := h
  exact ⟨c :: front, rfl, List.forall_mem_cons.mpr ⟨hC, hAll⟩⟩

theorem trans {cs mid rest : List Char} (h : Passes cs mid) (hMid : Passes mid rest) : Passes cs rest := by
  obtain ⟨front, rfl, hAll⟩ := h
  obtain ⟨back, rfl, hBack⟩ := hMid
  refine ⟨front ++ back, (List.append_assoc ..).symm, fun c hMem => ?_⟩
  exact (List.mem_append.mp hMem).elim (hAll c) (hBack c)

theorem dropWhile {p : Char → Bool} (hP : ∀ c, p c = true → isBreak c = false) (cs : List Char) :
    Passes cs (cs.dropWhile p) :=
  ⟨cs.takeWhile p, List.takeWhile_append_dropWhile.symm,
    fun c hMem => hP c (List.all_eq_true.mp List.all_takeWhile c hMem)⟩

end Passes

theorem not_break_of_hex {c : Char} {n : Nat} (h : Quoted.hexValue c = some n) : isBreak c = false := by
  rw [← Bool.not_eq_true]
  intro hBreak
  simp only [isBreak, Bool.or_eq_true, beq_iff_eq] at hBreak
  rcases hBreak with ((rfl | rfl) | rfl) | rfl <;> cases h

theorem not_break_of_isDigit {c : Char} (h : c.isDigit = true) : isBreak c = false :=
  not_break_of_rest (rest_of_isDigit h)

theorem not_break_of_digitOrUnderscore (c : Char) (h : isDigitOrUnderscore c = true) : isBreak c = false := by
  rcases Bool.or_eq_true_iff.mp h with hDigit | hUnderscore
  · exact not_break_of_isDigit hDigit
  · rw [eq_of_beq hUnderscore]
    rfl

theorem passes_of_exponent {hasSign hasDigit : Bool} {cs rest : List Char}
    (h : dropExponent hasSign hasDigit cs = some rest) : Passes cs rest := by
  fun_induction dropExponent hasSign hasDigit cs with
  | case1 =>
    cases h
    exact .refl _
  | case2 => cases h
  | case3 =>
    cases h
    exact .refl _
  | case4 => cases h
  | case5 hasSign hasDigit c cs hSign _ _ ih =>
    have hC : isBreak c = false := by rcases hSign with rfl | rfl <;> rfl
    exact .cons hC (ih h)
  | case6 hasSign hasDigit c cs _ hDigit ih => exact .cons (not_break_of_isDigit hDigit) (ih h)
  | case7 hasSign hasDigit cs _ _ ih => exact .cons rfl (ih h)
  | case8 =>
    cases h
    exact .refl _
  | case9 => cases h

theorem passes_of_digits {base : Nat} {isEmpty : Bool} {cs rest : List Char}
    (h : dropDigits base isEmpty cs = some rest) : Passes cs rest := by
  fun_induction dropDigits base isEmpty cs with
  | case1 => cases h
  | case2 =>
    cases h
    exact .refl _
  | case3 => cases h
  | case4 _ _ _ ih => exact .cons rfl (ih h)
  | case5 => cases h
  | case6 =>
    cases h
    exact .refl _
  | case7 isEmpty c cs _ value hHex _ ih => exact .cons (not_break_of_hex hHex) (ih h)
  | case8 => cases h
  | case9 =>
    cases h
    exact .refl _

theorem passes_of_integer {cs rest : List Char} (h : dropInteger cs = some rest) : Passes cs rest := by
  unfold dropInteger at h
  split at h
  · exact .cons rfl (.cons rfl (passes_of_digits h))
  · exact .cons rfl (.cons rfl (passes_of_digits h))
  · exact .cons rfl (.cons rfl (passes_of_digits h))
  · exact passes_of_digits h

/-- What is left behind a letter that may begin an exponent. -/
theorem passes_of_letter {c : Char} {more rest : List Char} {otherwise : Option (List Char)} (hC : isBreak c = false)
    (hOther : otherwise = some rest → Passes (c :: more) rest)
    (h : (match dropExponent false false more with
      | some rest => some rest
      | none => otherwise) = some rest) : Passes (c :: more) rest := by
  split at h
  · rename_i hExponent
    cases h
    exact .cons hC (passes_of_exponent hExponent)
  · exact hOther h

theorem passes_of_float {cs rest : List Char} (h : dropFloat cs = some rest) : Passes cs rest := by
  have hDigits := Passes.dropWhile not_break_of_digitOrUnderscore
  have hSelf : ∀ {back : List Char}, some back = some rest → Passes back rest := by
    rintro _ ⟨⟩
    exact .refl _
  unfold dropFloat at h
  split at h
  · cases h
  dsimp only at h
  split at h
  · cases h
  refine (hDigits _).trans ?_
  split at h
  · rename_i back hBack
    rw [hBack]
    split at h
    · cases h
    refine .cons rfl ((hDigits back).trans ?_)
    split at h
    · rename_i more hMore
      rw [hMore]
      exact passes_of_letter rfl hSelf h
    · rename_i more hMore
      rw [hMore]
      exact passes_of_letter rfl hSelf h
    · exact hSelf h
  · rename_i more hMore
    rw [hMore]
    exact passes_of_letter rfl (fun hNone => by cases hNone) h
  · rename_i more hMore
    rw [hMore]
    exact passes_of_letter rfl (fun hNone => by cases hNone) h
  · cases h

/-- Whether a text begins with a digit and holds nothing that breaks it off. -/
structure NumberText (text : List Char) : Prop where
  start : text.head?.any Char.isDigit = true
  unbroken : ∀ c ∈ text, isBreak c = false

theorem numberBefore_spec {cs mid text rest : List Char} (hPasses : Passes cs mid)
    (hDigit : cs.head?.any Char.isDigit = true) (h : numberBefore cs mid = some (text, rest)) :
    cs = text ++ rest ∧ NumberText text := by
  obtain ⟨suffix, hMid, hSuffix, -⟩ := dropSuffix_spec mid
  obtain ⟨front, rfl, hFront⟩ := hPasses
  rw [numberBefore] at h
  split at h
  · cases h
  rename_i hFollow
  have hSplit : front ++ mid = (front ++ suffix) ++ dropSuffix mid := by rw [List.append_assoc, ← hMid]
  rw [hSplit, takenFrom_append] at h
  cases h
  refine ⟨hSplit, ?_, fun c hMem => ?_⟩
  · -- The digit stands in what is taken, since what follows goes on no identifier.
    rw [hSplit] at hDigit
    cases hTaken : front ++ suffix with
    | nil =>
      rw [hTaken, List.nil_append] at hDigit
      cases hRest : (dropSuffix mid).head? with
      | none =>
        rw [hRest] at hDigit
        cases hDigit
      | some c =>
        rw [hRest] at hDigit hFollow
        exact absurd (rest_of_isDigit hDigit) hFollow
    | cons c taken =>
      rw [hTaken] at hDigit
      exact hDigit
  · exact (List.mem_append.mp hMem).elim (hFront c) fun hMem => not_break_of_rest (hSuffix c hMem)

theorem cutNumber_spec {cs text rest : List Char} (h : cutNumber cs = some (text, rest)) :
    cs = text ++ rest ∧ NumberText text := by
  have hDigit : cs.head?.any Char.isDigit = true := by
    cases cs with
    | nil => cases h
    | cons c cs =>
      rw [← Bool.not_eq_false]
      intro hDigit
      rw [cutNumber_of_not_digit hDigit] at h
      cases h
  rw [cutNumber] at h
  split at h
  · rename_i cut hCut
    cases h
    obtain ⟨mid, hFloat, hBefore⟩ := Option.bind_eq_some_iff.mp hCut
    exact numberBefore_spec (passes_of_float hFloat) hDigit hBefore
  · obtain ⟨mid, hInteger, hBefore⟩ := Option.bind_eq_some_iff.mp h
    exact numberBefore_spec (passes_of_integer hInteger) hDigit hBefore

def IdentifierText (text : List Char) : Prop := Word text ∨ ∃ name, text = 'r' :: '#' :: name ∧ Word name

theorem identifierText_of_name {name : String} (h : isSchemaName name = true) : IdentifierText name.toList := by
  refine .inl ⟨?_, fun c hMem => isIdentifierRest_of_isNameChar (isNameChar_of_mem h hMem)⟩
  have hRange := h
  rw [← String.ofList_toList (s := name)] at hRange
  cases hText : name.toList with
  | nil =>
    rw [hText] at hRange
    cases hRange
  | cons c cs =>
    rw [hText] at hRange
    exact isIdentifierStart_of_range (range_of_isSchemaName hRange)

theorem cutIdentifier_spec {cs text rest : List Char} (h : cutIdentifier cs = some (text, rest)) :
    cs = text ++ rest ∧ IdentifierText text := by
  unfold cutIdentifier at h
  split at h
  · split at h
    · rename_i name back hCut
      split at h <;> cases h
      obtain ⟨rfl, hWord, -⟩ := cutWord_spec hCut
      exact ⟨rfl, .inr ⟨name, rfl, hWord⟩⟩
    · cases h
  · obtain ⟨rfl, hWord, -⟩ := cutWord_spec h
    exact ⟨rfl, .inl hWord⟩

theorem quoteFree_of_rest {front more : List Char} (hFront : ∀ c ∈ front, isIdentifierRest c = true)
    (hMore : breaksOff more = true) : quoteFreeBehind (front ++ more) = true := by
  have hFree : ∀ front : List Char, (∀ c ∈ front, isIdentifierRest c = true) → quoteFree (front ++ more) = true := by
    intro front hFront
    cases front with
    | nil =>
      cases more with
      | nil => rfl
      | cons c more =>
        simp only [breaksOff, isBreak, List.head?_cons, Option.all_some, Bool.or_eq_true, beq_iff_eq] at hMore
        rcases hMore with ((rfl | rfl) | rfl) | rfl <;> rfl
    | cons c cs =>
      have hC := hFront c List.mem_cons_self
      have hNe : ∀ d : Char, isIdentifierRest d = false → c ≠ d := by
        rintro d hD rfl
        rw [hC] at hD
        cases hD
      simp [quoteFree, hNe '\x22' (by decide), hNe '\x27' (by decide), hNe '#' (by decide)]
  unfold quoteFreeBehind
  split
  · rename_i cs hText
    cases front with
    | nil =>
      rw [List.nil_append] at hText
      rw [hText] at hMore
      cases hMore
    | cons c front =>
      obtain ⟨rfl, rfl⟩ := List.cons_eq_cons.mp hText
      exact hFree front fun d hD => hFront d (List.mem_cons_of_mem _ hD)
  · exact hFree front hFront

/-- No identifier is quoted. -/
theorem notQuoted_of_identifier {text more : List Char} (h : IdentifierText text) (hMore : breaksOff more = true) :
    cutQuoted (text ++ more) = none := by
  rcases h with ⟨hStart, hRest⟩ | ⟨name, rfl, ⟨hStart, hRest⟩⟩
  · cases text with
    | nil => cases hStart
    | cons c cs =>
      replace hStart : isIdentifierStart c = true := hStart
      have hC : c ≠ '\x22' ∧ c ≠ '\x27' := by
        constructor <;> rintro rfl <;> exact absurd hStart (by decide)
      have hFree := quoteFree_of_rest (fun d hMem => hRest d (List.mem_cons_of_mem c hMem)) hMore
      rw [cutQuoted, List.cons_append, dropQuoted_of_quoteFree hC hFree]
      rfl
  · cases name with
    | nil => cases hStart
    | cons c cs =>
      replace hStart : isIdentifierStart c = true := hStart
      have hSign : (c == '#') = false := by
        rw [beq_eq_false_iff_ne]
        rintro rfl
        exact absurd hStart (by decide)
      have hQuote : c ≠ '\x22' := by
        rintro rfl
        exact absurd hStart (by decide)
      have hRaw : dropRawString ('#' :: c :: (cs ++ more)) = none := by
        simp [dropRawString, hSign, hQuote]
      rw [cutQuoted]
      exact congrArg _ hRaw

theorem notQuoted_of_digit {cs : List Char} (h : cs.head?.any Char.isDigit = true) : cutQuoted cs = none := by
  cases cs with
  | nil => rfl
  | cons c cs =>
    replace h : c.isDigit = true := h
    have hDrop : dropQuoted (c :: cs) = none := by
      unfold dropQuoted
      split <;> rename_i hText <;>
        first
        | rfl
        | (obtain ⟨rfl, -⟩ := List.cons_eq_cons.mp hText
           exact absurd h (by decide))
    rw [cutQuoted, hDrop]
    rfl

/-! ## Tokens -/

def Token.isJoined : Token → Bool
  | .mark _ joined => joined
  | _ => false

/-- Whether a word or literal can stand behind a quote that is a mark. -/
def Token.FollowsQuote : Token → Prop
  | .word text | .literal text => ∃ c cs, text.toList = c :: cs ∧ c ≠ '\x5c' ∧ cs.head? ≠ some '\x27'
  | _ => False

/-- What is asked of the tokens behind a mark that is joined to the next one. -/
def Token.JoinsTo : Token → List Token → Prop
  | .mark _ true, [] => False
  | .mark c true, next :: _ => c = '\x27' → next.FollowsQuote
  | _, _ => True

mutual

def Token.Sound : Token → Prop
  | .word name => IdentifierText name.toList
  | .literal text => NumberText text.toList ∨ QuotedText text.toList
  | .mark c joined => c ∈ markChars ∧ (c = '\x27' → joined = true)
  | .group _ inner => AllSound inner

/-- Whether tokens are ones that a text can give, with no mark joined to what it does not go with. -/
def AllSound : List Token → Prop
  | [] => True
  | token :: rest => token.Sound ∧ token.JoinsTo rest ∧ AllSound rest

end

/-- What a text must begin with behind a token: behind a mark that is joined, with the token it is joined to. -/
def Expects : Token → List Char → Prop
  | .mark c true, cs =>
    if c = '\x27' then ∃ d ds, cs = d :: ds ∧ isIdentifierStart d = true ∧ ds.head? ≠ some '\x27'
    else beginsMark cs = true
  | _, _ => True

theorem expects_quote {cs : List Char} : Expects (.mark '\x27' true) cs
    ↔ ∃ d ds, cs = d :: ds ∧ isIdentifierStart d = true ∧ ds.head? ≠ some '\x27' := by
  rw [Expects, if_pos rfl]

theorem expects_mark {c : Char} (h : c ≠ '\x27') {cs : List Char} :
    Expects (.mark c true) cs ↔ beginsMark cs = true :=
  iff_of_eq (if_neg h)

@[simp] theorem spell_mark (c : Char) (joined : Bool) : (Token.mark c joined).spell.toList = [c] := by
  simp [Token.spell, Char.toString]

theorem expects_of_identifier {cs name after : List Char} (h : cutIdentifier cs = some (name, after))
    (hQuote : leads "'" after = false) :
    ∃ d ds, cs = d :: ds ∧ isIdentifierStart d = true ∧ ds.head? ≠ some '\x27' := by
  obtain ⟨rfl, ⟨hStart, hRest⟩ | ⟨base, rfl, -⟩⟩ := cutIdentifier_spec h
  · cases name with
    | nil => cases hStart
    | cons d ds =>
      refine ⟨d, ds ++ after, rfl, hStart, ?_⟩
      intro hHead
      cases ds with
      | nil =>
        cases after with
        | nil => cases hHead
        | cons e after =>
          cases hHead
          cases hQuote
      | cons e ds =>
        cases hHead
        exact absurd (hRest '\x27' (by simp)) (by decide)
  · exact ⟨'r', '#' :: (base ++ after), rfl, by decide, by simp⟩

theorem cutMark_spec {cs rest : List Char} {token : Token} (h : cutMark cs = some (token, rest)) :
    cs = token.spell.toList ++ rest ∧ token.Sound ∧ Expects token rest := by
  unfold cutMark at h
  split at h
  · split at h
    · cases h
    · rename_i after hCut
      split at h <;> cases h
      rename_i hAfter
      rw [Bool.not_eq_true, Bool.or_eq_false_iff] at hAfter
      refine ⟨by rw [spell_mark]; rfl, ⟨by decide, fun _ => rfl⟩, ?_⟩
      exact expects_quote.mpr (expects_of_identifier hCut hAfter.1)
  · rename_i c rest hQuote
    split at h <;> cases h
    rename_i hBegins
    have hMem : c ∈ markChars := by
      unfold beginsMark at hBegins
      split at hBegins
      · cases hBegins
      · cases hBegins
      · rename_i hText
        cases hText
        exact List.elem_iff.mp hBegins
      · cases hBegins
    have hC : c ≠ '\x27' := fun hEq => hQuote hEq
    refine ⟨by rw [spell_mark]; rfl, ⟨hMem, fun hEq => absurd hEq hC⟩, ?_⟩
    cases hNext : beginsMark rest with
    | true => exact (expects_mark hC).mpr hNext
    | false => trivial
  · cases h

/-- What the lexer takes for a token is spelled as it stands and sound. -/
theorem cutToken_spec {cs rest : List Char} {token : Token} (h : cutToken cs = some (token, rest)) :
    cs = token.spell.toList ++ rest ∧ token.Sound ∧ Expects token rest := by
  unfold cutToken at h
  split at h
  · rename_i hCut
    cases h
    obtain ⟨hText, hQuoted⟩ := cutQuoted_spec hCut
    refine ⟨?_, .inr ?_, trivial⟩
    · rw [Token.spell, String.toList_ofList]
      exact hText
    · rw [String.toList_ofList]
      exact hQuoted
  split at h
  · rename_i hCut
    cases h
    obtain ⟨hText, hNumber⟩ := cutNumber_spec hCut
    refine ⟨?_, .inl ?_, trivial⟩
    · rw [Token.spell, String.toList_ofList]
      exact hText
    · rw [String.toList_ofList]
      exact hNumber
  split at h
  · rename_i hCut
    cases h
    exact cutMark_spec hCut
  split at h
  · cases h
  · obtain ⟨⟨name, back⟩, hCut, hPair⟩ := Option.map_eq_some_iff.mp h
    cases hPair
    obtain ⟨hText, hName⟩ := cutIdentifier_spec hCut
    refine ⟨?_, ?_, trivial⟩
    · rw [Token.spell, String.toList_ofList]
      exact hText
    · rw [Token.Sound, String.toList_ofList]
      exact hName

/-- A token that a text gives has a text of its own. -/
theorem spell_ne_nil {token : Token} (h : token.Sound) : token.spell.toList ≠ [] := by
  cases token with
  | word name =>
    rw [Token.spell]
    rcases h with ⟨hStart, -⟩ | ⟨base, hText, -⟩
    · intro hNil
      rw [hNil] at hStart
      cases hStart
    · rw [hText]
      simp
  | literal text =>
    rw [Token.spell]
    rcases h with ⟨hStart, -⟩ | hQuoted
    · intro hNil
      rw [hNil] at hStart
      cases hStart
    · intro hNil
      have hCut := hQuoted [] rfl
      rw [hNil] at hCut
      cases hCut
  | mark c joined => simp
  | group delimiter inner =>
    rw [Token.spell]
    cases delimiter <;> simp [Delimiter.opening]

/-! ## Lexing -/

theorem not_spacing_of_start {c : Char} (h : isIdentifierStart c = true) : isSpacing c = false := by
  have hOther : ∀ n ∈ [0x1680, 0x2000, 0x2001, 0x2002, 0x2003, 0x2004, 0x2005, 0x2006, 0x2007, 0x2008, 0x2009, 0x200A,
      0x200E, 0x200F, 0x2028, 0x2029, 0x202F, 0x205F, 0x3000, 0x85, 0xA0], flipped identifierStartPoints n = false := by
    decide +kernel
  rw [← Bool.not_eq_true]
  intro hSpacing
  simp only [isSpacing, isBlank, Bool.or_eq_true, Bool.and_eq_true, beq_iff_eq, decide_eq_true_eq] at hSpacing
  unfold isIdentifierStart at h
  split at h
  · rename_i hSmall
    rw [Bool.or_eq_true, isAlpha_iff, beq_iff_eq, eq_iff_toNat] at h
    have hUnderscore : '_'.toNat = 95 := rfl
    omega
  · rename_i hLarge
    have hMem : c.toNat ∈ [0x1680, 0x2000, 0x2001, 0x2002, 0x2003, 0x2004, 0x2005, 0x2006, 0x2007, 0x2008, 0x2009,
        0x200A, 0x200E, 0x200F, 0x2028, 0x2029, 0x202F, 0x205F, 0x3000, 0x85, 0xA0] := by
      simp only [List.mem_cons, List.not_mem_nil, or_false]
      omega
    rw [hOther _ hMem] at h
    cases h

/-- Behind a mark that is joined to the next token no blank, comment or delimiter stands. -/
theorem begins_of_expects {token : Token} {cs : List Char} (hJoined : token.isJoined = true) (h : Expects token cs) :
    ∃ c ds, cs = c :: ds ∧ dropSpacing cs = none ∧ cutDocComment cs = none ∧ opened? c = none ∧ closed? c = none := by
  cases token with
  | mark c joined =>
    cases hJoined
    by_cases hQuote : c = '\x27'
    · subst hQuote
      obtain ⟨d, ds, rfl, hStart, -⟩ := expects_quote.mp h
      have hNe : ∀ e : Char, isIdentifierStart e = false → d ≠ e := by
        rintro e hE rfl
        rw [hStart] at hE
        cases hE
      refine ⟨d, ds, rfl, dropSpacing_of_plain (hNe _ (by decide)) (hNe _ (by decide)) (not_spacing_of_start hStart) ds,
        cutDocComment_of_plain (hNe _ (by decide)) ds, ?_, ?_⟩
      · rw [opened?, if_neg (hNe _ (by decide)), if_neg (hNe _ (by decide)), if_neg (hNe _ (by decide))]
      · rw [closed?, if_neg (hNe _ (by decide)), if_neg (hNe _ (by decide)), if_neg (hNe _ (by decide))]
    · have hBegins := (expects_mark hQuote).mp h
      unfold beginsMark at hBegins
      split at hBegins
      · cases hBegins
      · cases hBegins
      · rename_i d ds hLine hBlock
        have hAll : ∀ e ∈ markChars, e ≠ '\r' ∧ isSpacing e = false ∧ opened? e = none ∧ closed? e = none :=
          forall_mem_of_all (by decide)
        obtain ⟨hReturn, hSpacing, hOpened, hClosed⟩ := hAll d (List.elem_iff.mp hBegins)
        refine ⟨d, ds, rfl, ?_, ?_, hOpened, hClosed⟩
        · unfold dropSpacing
          split <;> simp_all
        · unfold cutDocComment
          split <;> simp_all
      · cases hBegins
  | word name => cases hJoined
  | literal text => cases hJoined
  | group delimiter inner => cases hJoined

/-- What follows a joined mark is what it may be joined to. -/
theorem joinsTo_of_expects {token next : Token} {rest : List Char} (h : Expects token (next.spell.toList ++ rest))
    (hNext : next.Sound) (more : List Token) : token.JoinsTo (next :: more) := by
  cases token with
  | mark c joined =>
    cases joined with
    | false => trivial
    | true =>
      rintro rfl
      obtain ⟨d, ds, hText, hStart, hHead⟩ := expects_quote.mp h
      have hSlash : d ≠ '\x5c' := by
        rintro rfl
        exact absurd hStart (by decide)
      -- A word or literal has all that the text begins with, up to its second character.
      have hFollows : ∀ text : List Char, text ≠ [] → text ++ rest = d :: ds →
          ∃ c cs, text = c :: cs ∧ c ≠ '\x5c' ∧ cs.head? ≠ some '\x27' := by
        intro text hNe hSplit
        cases text with
        | nil => exact absurd rfl hNe
        | cons c cs =>
          rw [List.cons_append] at hSplit
          obtain ⟨rfl, rfl⟩ := List.cons_eq_cons.mp hSplit
          refine ⟨c, cs, rfl, hSlash, fun hQuote => hHead ?_⟩
          rw [List.head?_append, hQuote]
          rfl
      cases next with
      | word name =>
        have hNe := spell_ne_nil hNext
        rw [Token.spell] at hText hNe
        exact hFollows _ hNe hText
      | literal text =>
        have hNe := spell_ne_nil hNext
        rw [Token.spell] at hText hNe
        exact hFollows _ hNe hText
      | mark c joined =>
        rw [spell_mark] at hText
        cases hText
        rw [(not_start_of_mark hNext.1).1] at hStart
        cases hStart
      | group delimiter inner =>
        rw [Token.spell] at hText
        cases delimiter <;> simp [Delimiter.opening] at hText <;>
          (rw [← hText.1] at hStart
           exact absurd hStart (by decide))
  | word name => trivial
  | literal text => trivial
  | group delimiter inner => trivial

/-- Whether tokens that have been read, the last one first, are sound with all that may follow them. -/
def Ready (read : List Token) : Prop :=
  ∀ suffix, AllSound suffix → (∀ token ∈ read.head?, token.JoinsTo suffix) → AllSound (read.reverse ++ suffix)

theorem ready_nil : Ready [] := fun _ hSuffix _ => hSuffix

theorem Ready.cons {read : List Token} {token : Token} (hRead : Ready read) (hToken : token.Sound)
    (hJoins : ∀ before ∈ read.head?, ∀ more, before.JoinsTo (token :: more)) : Ready (token :: read) := by
  intro suffix hSuffix hLast
  rw [List.reverse_cons, List.append_assoc]
  exact hRead _ ⟨hToken, hLast token rfl, hSuffix⟩ fun before hMem => hJoins before hMem suffix

theorem joinsTo_of_not_joined {token : Token} (h : token.isJoined = false)
    (more : List Token) : token.JoinsTo more := by
  cases token with
  | mark c joined =>
    cases h
    trivial
  | _ => trivial

/-- Whether sound tokens have been read of which the last one is joined to nothing. -/
def Settled (read : List Token) : Prop := Ready read ∧ ∀ token ∈ read.head?, token.isJoined = false

theorem Settled.cons {read : List Token} {token : Token} (h : Settled read) (hToken : token.Sound)
    (hJoined : token.isJoined = false) : Settled (token :: read) := by
  refine ⟨h.1.cons hToken fun before hMem more => joinsTo_of_not_joined (h.2 before hMem) _, ?_⟩
  rintro _ ⟨⟩
  exact hJoined

theorem Settled.sound {read : List Token} (h : Settled read) : AllSound read.reverse := by
  have hAll := h.1 [] trivial fun token hMem => joinsTo_of_not_joined (h.2 token hMem) []
  rwa [List.append_nil] at hAll

theorem Settled.group {outer inner : List Token} (hOuter : Settled outer) (delimiter : Delimiter)
    (hInner : Settled inner) : Settled (.group delimiter inner.reverse :: outer) := by
  apply hOuter.cons _ rfl
  exact hInner.sound

theorem quotedText_doc (text : List Char) : QuotedText ('\x22' :: (docLiteralBody text ++ ['\x22'])) := by
  intro more hMore
  have hTaken := takenFrom_append ('\x22' :: (docLiteralBody text ++ ['\x22'])) more
  rw [List.cons_append, List.append_assoc, List.singleton_append] at hTaken ⊢
  rw [cutQuoted, dropQuoted, read_docLiteralBody, Option.map_some, Option.map_some, dropSuffix_of_breaksOff hMore]
  dsimp only
  rw [hTaken]

theorem Settled.doc {read : List Token} (h : Settled read) (comment : DocComment) :
    Settled (comment.tokens.reverse ++ read) := by
  have hWord : IdentifierText "doc".toList := identifierText_of_name (by decide)
  have hLiteral : (Token.literal (String.ofList ('\x22' :: (docLiteralBody comment.text ++ ['\x22'])))).Sound := by
    rw [Token.Sound, String.toList_ofList]
    exact .inr (quotedText_doc comment.text)
  have hInner : AllSound [.word "doc", .mark '=' false,
      .literal (String.ofList ('\x22' :: (docLiteralBody comment.text ++ ['\x22'])))] :=
    ⟨hWord, trivial, ⟨by decide, by decide⟩, trivial, hLiteral, trivial, trivial⟩
  have hHash : Settled (.mark '#' false :: read) := h.cons ⟨by decide, by decide⟩ rfl
  cases hKind : comment.inner with
  | false =>
    rw [DocComment.tokens, hKind]
    apply hHash.cons _ rfl
    exact hInner
  | true =>
    rw [DocComment.tokens, hKind]
    have hInnerMark : Settled (.mark '!' false :: .mark '#' false :: read) := hHash.cons ⟨by decide, by decide⟩ rfl
    apply hInnerMark.cons _ rfl
    exact hInner

/-- The tokens of a text are sound. -/
theorem lexFrom_sound {fuel : Nat} {opened : List (Delimiter × List Token)} {read tokens : List Token} {cs : List Char}
    (hOpened : ∀ outer ∈ opened, Settled outer.2) (hRead : Ready read)
    (hExpects : ∀ token ∈ read.head?, Expects token cs)
    (h : lexFrom fuel opened read cs = some tokens) : AllSound tokens := by
  induction fuel generalizing opened read cs with
  | zero => cases h
  | succ fuel ih =>
    -- Where the next thing is no token, what has been read is joined to nothing.
    have hSettled : (∀ c ds, cs = c :: ds → ¬ (dropSpacing cs = none ∧ cutDocComment cs = none ∧ opened? c = none
        ∧ closed? c = none)) → Settled read := by
      refine fun hOther => ⟨hRead, fun token hMem => ?_⟩
      rw [← Bool.not_eq_true]
      intro hJoined
      obtain ⟨c, ds, hText, hBegins⟩ := begins_of_expects hJoined (hExpects token hMem)
      exact hOther c ds hText hBegins
    have hFree : ∀ {read : List Token}, Settled read → ∀ rest, ∀ token ∈ read.head?, Expects token rest := by
      intro read hSettled rest token hMem
      have hJoined := hSettled.2 token hMem
      cases token with
      | mark c joined =>
        cases hJoined
        trivial
      | _ => trivial
    unfold lexFrom at h
    split at h
    · cases h
    · split at h <;> cases h
      exact (hSettled fun c ds hText => by cases hText).sound
    · rename_i c ds hFuel
      cases hFuel
      split at h
      · rename_i rest hSpacing
        have hNow := hSettled fun _ _ _ hAll => by simp [hSpacing] at hAll
        exact ih hOpened hRead (hFree hNow rest) h
      split at h
      · rename_i comment rest hDoc
        have hNow := (hSettled fun _ _ _ hAll => by simp [hDoc] at hAll).doc comment
        exact ih hOpened hNow.1 (hFree hNow rest) h
      split at h
      · rename_i delimiter hOpen
        have hNow := hSettled fun _ _ hText hAll => by
          cases hText
          simp [hOpen] at hAll
        exact ih (List.forall_mem_cons.mpr ⟨hNow, hOpened⟩) ready_nil (fun _ hMem => by cases hMem) h
      · cases h
      · rename_i delimiter expected outer opened hOpen hClosed
        have hNow := hSettled fun _ _ hText hAll => by
          cases hText
          simp [hClosed] at hAll
        obtain ⟨hOuter, hOpened⟩ := List.forall_mem_cons.mp hOpened
        split at h
        · have hGroup := hOuter.group delimiter hNow
          exact ih hOpened hGroup.1 (hFree hGroup _) h
        · cases h
      · split at h
        · cases h
        · rename_i token rest hCut
          obtain ⟨hText, hToken, hNext⟩ := cutToken_spec hCut
          refine ih hOpened (hRead.cons hToken fun before hMem more => ?_) ?_ h
          · have hBefore := hExpects before hMem
            rw [hText] at hBefore
            exact joinsTo_of_expects hBefore hToken more
          · rintro _ ⟨⟩
            exact hNext

/-- A text gives sound tokens. -/
theorem lex_sound {cs : List Char} {tokens : List Token} (h : lex cs = some tokens) : AllSound tokens :=
  lexFrom_sound (fun _ hMem => absurd hMem List.not_mem_nil) ready_nil (fun _ hMem => by cases hMem) h

end ProtoBind.Source
