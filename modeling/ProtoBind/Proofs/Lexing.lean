import ProtoBind.Proofs.Lexemes

/-!
# Lexemes are what is lexed

Reading a text takes its lexemes one by one; delimiters are matched as they come, which `gather` does
for lexemes alone.
-/

set_option autoImplicit false

namespace ProtoBind.Source

open Text

/-- The tokens of a run of marks, of which the last one may be joined to what follows. -/
def marks : List Char → Bool → List Token
  | [], _ => []
  | [c], joined => [.mark c joined]
  | c :: d :: cs, joined => .mark c true :: marks (d :: cs) joined

/-- A token that is no group, or a delimiter. -/
inductive Sign where
  | token (token : Token)
  | opening (delimiter : Delimiter)
  | closing (delimiter : Delimiter)

/-- The signs of lexemes. Whether the last mark of a run is joined to more depends on what follows. -/
inductive Resolves : List Lexeme → List Sign → Prop where
  | nil : Resolves [] []
  | word {name : String} {ls : List Lexeme} {ss : List Sign} (hRest : Resolves ls ss) :
      Resolves (.word name :: ls) (.token (.word name) :: ss)
  | literal {text : String} {ls : List Lexeme} {ss : List Sign} (hRest : Resolves ls ss) :
      Resolves (.literal text :: ls) (.token (.literal text) :: ss)
  | mark {text : String} {joined : Bool} {ls : List Lexeme} {ss : List Sign} (hRest : Resolves ls ss) :
      Resolves (.mark text :: ls) ((marks text.toList joined).map .token ++ ss)
  | remark {comment : DocComment} {ls : List Lexeme} {ss : List Sign} (hRest : Resolves ls ss) :
      Resolves (.remark comment :: ls) (comment.tokens.map .token ++ ss)
  | opening {delimiter : Delimiter} {ls : List Lexeme} {ss : List Sign} (hRest : Resolves ls ss) :
      Resolves (.opening delimiter :: ls) (.opening delimiter :: ss)
  | closing {delimiter : Delimiter} {ls : List Lexeme} {ss : List Sign} (hRest : Resolves ls ss) :
      Resolves (.closing delimiter :: ls) (.closing delimiter :: ss)

def gather : List (Delimiter × List Token) → List Token → List Sign → Option (List Token)
  | opened, read, [] => if opened.isEmpty then some read.reverse else none
  | opened, read, .token token :: ss => gather opened (token :: read) ss
  | opened, read, .opening delimiter :: ss => gather ((delimiter, read) :: opened) [] ss
  | [], _, .closing _ :: _ => none
  | (expected, outer) :: opened, read, .closing delimiter :: ss =>
    if delimiter = expected then gather opened (.group delimiter read.reverse :: outer) ss else none

theorem gather_tokens (opened : List (Delimiter × List Token)) (read tokens : List Token)
    (ss : List Sign) :
    gather opened read (tokens.map .token ++ ss) = gather opened (tokens.reverse ++ read) ss := by
  induction tokens generalizing read with
  | nil => rfl
  | cons token tokens ih =>
    rw [List.map_cons, List.cons_append, gather, ih, List.reverse_cons, List.append_assoc]
    rfl

/-! ## What a text begins with -/

theorem dropSpacing_of_plain {c : Char} (hSlash : c ≠ '/') (hReturn : c ≠ '\r')
    (hSpacing : isSpacing c = false) (cs : List Char) : dropSpacing (c :: cs) = none := by
  unfold dropSpacing
  split <;> simp_all

theorem cutDocComment_of_plain {c : Char} (hSlash : c ≠ '/') (cs : List Char) :
    cutDocComment (c :: cs) = none := by
  unfold cutDocComment
  split <;> simp_all

def quoteFree : List Char → Bool
  | [] => true
  | c :: _ => c != '\x22' && c != '\x27' && c != '#'

theorem dropRawString_of_quoteFree {cs : List Char} (h : quoteFree cs = true) :
    dropRawString cs = none := by
  cases cs with
  | nil => rfl
  | cons c cs =>
    simp only [quoteFree, Bool.and_eq_true, bne_iff_ne, ne_eq] at h
    simp [dropRawString, h.2, h.1.1]

/-- Whether neither a text nor what stands behind an `r` at its start begins like a quoted one. -/
def quoteFreeBehind : List Char → Bool
  | 'r' :: cs => quoteFree cs
  | cs => quoteFree cs

theorem quoteFree_of_behind {cs : List Char} (h : quoteFreeBehind cs = true) : quoteFree cs = true := by
  unfold quoteFreeBehind at h
  split at h
  · rfl
  · exact h

theorem dropQuoted_of_quoteFree {c : Char} {cs : List Char} (hC : c ≠ '\x22' ∧ c ≠ '\x27')
    (hNext : quoteFreeBehind cs = true) : dropQuoted (c :: cs) = none := by
  have hFree := quoteFree_of_behind hNext
  unfold dropQuoted
  split <;> simp_all [quoteFree, quoteFreeBehind, dropRawString_of_quoteFree]

theorem leads_cons (lead : List Char) (p c : Char) (cs : List Char) :
    (afterLead (p :: lead) (c :: cs)).isSome = (decide (p = c) && (afterLead lead cs).isSome) := by
  rw [afterLead]
  split <;> simp_all

theorem literalLeads_of_quoteFree (c : Char) {cs : List Char} (h : quoteFreeBehind cs = true) :
    (literalLeads.any fun lead => leads lead (c :: cs)) = false := by
  have hFree := quoteFree_of_behind h
  have hQuote : ∀ lead, (afterLead ('\x22' :: lead) cs).isSome = false
      ∧ (afterLead ('\x27' :: lead) cs).isSome = false
      ∧ (afterLead ('#' :: lead) cs).isSome = false
      ∧ (afterLead ('r' :: '\x22' :: lead) cs).isSome = false
      ∧ (afterLead ('r' :: '#' :: lead) cs).isSome = false := by
    intro lead
    cases cs with
    | nil => exact ⟨rfl, rfl, rfl, rfl, rfl⟩
    | cons d cs =>
      simp only [quoteFree, Bool.and_eq_true, bne_iff_ne, ne_eq] at hFree
      simp only [leads_cons, Ne.symm hFree.1.1, Ne.symm hFree.1.2, Ne.symm hFree.2, decide_false,
        Bool.false_and, true_and, Bool.and_eq_false_iff, decide_eq_false_iff_not]
      by_cases hR : 'r' = d
      · subst hR
        cases cs with
        | nil => exact ⟨.inr rfl, .inr rfl⟩
        | cons e cs =>
          simp only [quoteFreeBehind, quoteFree, Bool.and_eq_true, bne_iff_ne, ne_eq] at h
          simp [leads_cons, Ne.symm h.1.1, Ne.symm h.2]
      · exact ⟨.inl hR, .inl hR⟩
  simp [literalLeads, leads, leads_cons, hQuote]

theorem hexValue_ge {c : Char} {n : Nat} (h : Quoted.hexValue c = some n) (hDigit : c.isDigit = false) :
    10 ≤ n := by
  unfold Quoted.hexValue at h
  rw [if_neg (by simp [hDigit])] at h
  split at h
  · rename_i hLower
    have hBound : 'a'.toNat ≤ c.toNat := hLower.1
    have hA : 'a'.toNat = 97 := rfl
    cases h
    omega
  split at h
  · rename_i hUpper
    have hBound : 'A'.toNat ≤ c.toNat := hUpper.1
    have hA : 'A'.toNat = 65 := rfl
    cases h
    omega
  · cases h

theorem cutNumber_of_not_digit {c : Char} (hDigit : c.isDigit = false) (cs : List Char) :
    cutNumber (c :: cs) = none := by
  have hFloat : dropFloat (c :: cs) = none := by simp [dropFloat, hDigit]
  have hZero : c ≠ '0' := by
    rintro rfl
    cases hDigit
  have hDigits : dropDigits 10 true (c :: cs) = none := by
    rw [dropDigits]
    split
    · rfl
    split
    · rfl
    · rename_i value hValue
      have hLarge := hexValue_ge hValue hDigit
      rw [if_neg (by omega)]
      simp
  have hInteger : dropInteger (c :: cs) = none := by
    unfold dropInteger
    split
    · simp_all
    · simp_all
    · simp_all
    · exact hDigits
  rw [cutNumber, hFloat, hInteger]
  rfl

theorem dropSuffix_of_ends {cs : List Char} (h : endsWord cs = true) : dropSuffix cs = cs := by
  cases cs with
  | nil => rfl
  | cons c cs =>
    simp only [endsWord, Bool.and_eq_true, Bool.not_eq_true'] at h
    have hStart : isIdentifierStart c = false := by
      rw [← Bool.not_eq_true]
      intro hStart
      rw [isIdentifierRest_of_start hStart] at h
      exact absurd h.1.1.1 (by decide)
    rw [dropSuffix, cutWord, if_neg (by simp [hStart])]

theorem takenFrom_append (front back : List Char) : takenFrom (front ++ back) back = front := by
  rw [takenFrom, List.length_append, Nat.add_sub_cancel, List.take_left]

theorem quoteFree_of_endsWord {cs : List Char} (h : endsWord cs = true) : quoteFree cs = true := by
  cases cs with
  | nil => rfl
  | cons c cs =>
    simp only [endsWord, Bool.and_eq_true] at h
    simp only [quoteFree, Bool.and_eq_true]
    exact ⟨⟨h.1.1.2, h.1.2⟩, h.2⟩

/-! ## One token -/

/-- A character that begins neither a blank, nor a comment, nor a group. -/
structure BeginsToken (c : Char) : Prop where
  slash : c ≠ '/'
  carriage : c ≠ '\r'
  spacing : isSpacing c = false
  opened : opened? c = none
  closed : closed? c = none

/-- Whether a text begins with a token that is no group, and what stands behind it. -/
def TokenAt (text : List Char) (token : Token) (rest : List Char) : Prop :=
  ∃ c cs, text = c :: cs ∧ BeginsToken c ∧ rest.length ≤ cs.length
    ∧ cutToken (c :: cs) = some (token, rest)

theorem lexFrom_token {c : Char} {cs rest : List Char} {token : Token} (hBegins : BeginsToken c)
    (hCut : cutToken (c :: cs) = some (token, rest)) (fuel : Nat)
    (opened : List (Delimiter × List Token)) (read : List Token) :
    lexFrom (fuel + 1) opened read (c :: cs) = lexFrom fuel opened (token :: read) rest := by
  rw [lexFrom.eq_def (fuel + 1)]
  dsimp only
  rw [dropSpacing_of_plain hBegins.slash hBegins.carriage hBegins.spacing,
    cutDocComment_of_plain hBegins.slash, hBegins.opened, hBegins.closed, hCut]

theorem range_of_isSchemaName {c : Char} {cs : List Char}
    (h : isSchemaName (String.ofList (c :: cs)) = true) :
    ((65 ≤ c.toNat ∧ c.toNat ≤ 90) ∨ 97 ≤ c.toNat ∧ c.toNat ≤ 122) ∨ c.toNat = 95 := by
  rw [isSchemaName, String.toList_ofList, Bool.and_eq_true, Bool.or_eq_true, isAlpha_iff, beq_iff_eq,
    eq_iff_toNat] at h
  exact h.1

theorem beginsToken_of_range {c : Char}
    (h : ((65 ≤ c.toNat ∧ c.toNat ≤ 90) ∨ 97 ≤ c.toNat ∧ c.toNat ≤ 122) ∨ c.toNat = 95
      ∨ 48 ≤ c.toNat ∧ c.toNat ≤ 57) : BeginsToken c := by
  have hNe : ∀ d : Char, d.toNat < 48 ∨ (57 < d.toNat ∧ d.toNat < 65)
      ∨ (90 < d.toNat ∧ d.toNat < 95) ∨ d.toNat = 96 ∨ 122 < d.toNat → c ≠ d := by
    rintro d hRange rfl
    omega
  refine ⟨hNe _ (by decide), hNe _ (by decide), ?_, ?_, ?_⟩
  · have hBlank : isBlank c = false := by
      simp [isBlank]
      omega
    simp [isSpacing, hBlank]
    omega
  · rw [opened?, if_neg (hNe _ (by decide)), if_neg (hNe _ (by decide)), if_neg (hNe _ (by decide))]
  · rw [closed?, if_neg (hNe _ (by decide)), if_neg (hNe _ (by decide)), if_neg (hNe _ (by decide))]

/-- A property of the characters of a list, evaluated on each of them. -/
theorem forall_mem_of_all {p : Char → Prop} [DecidablePred p] {cs : List Char}
    (h : cs.all (fun c => decide (p c)) = true) : ∀ c ∈ cs, p c :=
  fun c hC => of_decide_eq_true (List.all_eq_true.mp h c hC)

theorem isIdentifierStart_of_range {c : Char}
    (h : ((65 ≤ c.toNat ∧ c.toNat ≤ 90) ∨ 97 ≤ c.toNat ∧ c.toNat ≤ 122) ∨ c.toNat = 95) :
    isIdentifierStart c = true := by
  rw [isIdentifierStart, if_pos (by omega), Bool.or_eq_true, isAlpha_iff, beq_iff_eq, eq_iff_toNat]
  exact h

theorem not_markChar_of_range {c : Char}
    (h : ((65 ≤ c.toNat ∧ c.toNat ≤ 90) ∨ 97 ≤ c.toNat ∧ c.toNat ≤ 122) ∨ c.toNat = 95
      ∨ 48 ≤ c.toNat ∧ c.toNat ≤ 57) : markChars.contains c = false := by
  have hAll : ∀ d ∈ markChars, d.toNat < 48 ∨ (57 < d.toNat ∧ d.toNat < 65)
      ∨ (90 < d.toNat ∧ d.toNat < 95) ∨ d.toNat = 96 ∨ 122 < d.toNat :=
    forall_mem_of_all (by decide)
  rw [← Bool.not_eq_true]
  intro hMem
  have hOut := hAll c (List.elem_iff.mp hMem)
  omega

theorem takeWhile_append_of_all {α : Type} {p : α → Bool} {front back : List α}
    (hFront : ∀ c ∈ front, p c = true) (hBack : ∀ c ∈ back.head?, p c = false) :
    (front ++ back).takeWhile p = front ∧ (front ++ back).dropWhile p = back := by
  rw [List.takeWhile_append_of_pos hFront, List.dropWhile_append_of_pos hFront]
  cases back with
  | nil => simp
  | cons c cs =>
    have hC : p c = false := hBack c rfl
    rw [List.takeWhile_cons_of_neg (by simp [hC]), List.dropWhile_cons_of_neg (by simp [hC]),
      List.append_nil]
    exact ⟨rfl, rfl⟩

theorem not_rest_of_endsWord {cs : List Char} (h : endsWord cs = true) :
    ∀ c ∈ cs.head?, isIdentifierRest c = false := by
  intro c hC
  cases cs with
  | nil => cases hC
  | cons d cs =>
    cases hC
    simp only [endsWord, Bool.and_eq_true, Bool.not_eq_true'] at h
    exact h.1.1.1

theorem cutWord_name {name rest : List Char} (hName : isSchemaName (String.ofList name) = true)
    (hEnds : endsWord rest = true) : cutWord (name ++ rest) = some (name, rest) := by
  cases name with
  | nil => cases hName
  | cons c cs =>
    have hStart := isIdentifierStart_of_range (range_of_isSchemaName hName)
    have hChars : ∀ d ∈ cs, isIdentifierRest d = true := by
      intro d hMem
      refine isIdentifierRest_of_isNameChar (isNameChar_of_mem hName ?_)
      rw [String.toList_ofList]
      exact List.mem_cons_of_mem c hMem
    obtain ⟨hTake, hDrop⟩ := takeWhile_append_of_all hChars (not_rest_of_endsWord hEnds)
    rw [List.cons_append, cutWord, if_pos hStart, hTake, hDrop]

theorem quoteFree_of_names {front back : List Char} (hFront : ∀ c ∈ front, isNameChar c = true)
    (hBack : quoteFree back = true) : quoteFree (front ++ back) = true := by
  cases front with
  | nil => exact hBack
  | cons c cs =>
    have hC := hFront c List.mem_cons_self
    have hNe : ∀ d : Char, isNameChar d = false → c ≠ d := by
      rintro d hD rfl
      rw [hC] at hD
      cases hD
    simp [quoteFree, hNe '\x22' rfl, hNe '\x27' rfl, hNe '#' rfl]

theorem quoteFreeBehind_of_names {front back : List Char} (hFront : ∀ c ∈ front, isNameChar c = true)
    (hBack : endsWord back = true) : quoteFreeBehind (front ++ back) = true := by
  have hFree := quoteFree_of_endsWord hBack
  unfold quoteFreeBehind
  split
  · rename_i cs hText
    cases front with
    | nil =>
      rw [List.nil_append] at hText
      rw [hText] at hBack
      cases hBack
    | cons c front =>
      obtain ⟨rfl, rfl⟩ := List.cons_eq_cons.mp hText
      exact quoteFree_of_names (fun d hD => hFront d (List.mem_cons_of_mem _ hD)) hFree
  · exact quoteFree_of_names hFront hFree

theorem beginsMark_of_plain {c : Char} (hSlash : c ≠ '/') (cs : List Char) :
    beginsMark (c :: cs) = markChars.contains c := by
  unfold beginsMark
  split <;> simp_all

/-- What is no slash and no quote is a mark or begins none. -/
theorem cutMark_of_plain {c : Char} (hSlash : c ≠ '/') (hQuote : c ≠ '\x27') (cs : List Char) :
    cutMark (c :: cs) = if markChars.contains c then some (.mark c (beginsMark cs), cs) else none := by
  unfold cutMark
  split
  · rename_i hText
    exact absurd (List.cons_eq_cons.mp hText).1 hQuote
  · rename_i hText
    obtain ⟨rfl, rfl⟩ := List.cons_eq_cons.mp hText
    rw [beginsMark_of_plain hSlash]
  · rename_i hText
    cases hText

theorem cutToken_of_identifier {c : Char} {cs name rest : List Char}
    (hRange : ((65 ≤ c.toNat ∧ c.toNat ≤ 90) ∨ 97 ≤ c.toNat ∧ c.toNat ≤ 122) ∨ c.toNat = 95)
    (hQuoted : dropQuoted (c :: cs) = none)
    (hLeads : (literalLeads.any fun lead => leads lead (c :: cs)) = false)
    (hCut : cutIdentifier (c :: cs) = some (name, rest)) :
    cutToken (c :: cs) = some (.word (String.ofList name), rest) := by
  have hDigit : c.isDigit = false := by
    rw [← Bool.not_eq_true, isDigit_iff]
    omega
  have hQuote : c ≠ '\x27' := by
    rintro rfl
    revert hRange
    decide
  have hMark : cutMark (c :: cs) = none := by
    rw [cutMark_of_plain (beginsToken_of_range (by omega)).slash hQuote, not_markChar_of_range (by omega)]
    rfl
  rw [cutToken, cutQuoted, hQuoted, Option.map_none, cutNumber_of_not_digit hDigit, hMark, hLeads, hCut]
  rfl

theorem cutToken_name {name rest : List Char} (hName : isSchemaName (String.ofList name) = true)
    (hEnds : endsWord rest = true) :
    cutToken (name ++ rest) = some (.word (String.ofList name), rest) := by
  cases name with
  | nil => cases hName
  | cons c cs =>
    have hRange := range_of_isSchemaName hName
    have hChars : ∀ d ∈ cs, isNameChar d = true := by
      intro d hMem
      refine isNameChar_of_mem hName ?_
      rw [String.toList_ofList]
      exact List.mem_cons_of_mem c hMem
    have hFree := quoteFreeBehind_of_names hChars hEnds
    have hQuotes : c ≠ '\x22' ∧ c ≠ '\x27' := by
      constructor <;> rintro rfl <;> revert hRange <;> decide
    refine cutToken_of_identifier hRange (dropQuoted_of_quoteFree hQuotes hFree)
      (literalLeads_of_quoteFree c hFree) ?_
    have hPlain : cutIdentifier (c :: (cs ++ rest)) = cutWord (c :: (cs ++ rest)) := by
      unfold cutIdentifier
      split
      · rename_i hText
        have hNext := quoteFree_of_behind hFree
        rw [(List.cons_eq_cons.mp hText).2] at hNext
        cases hNext
      · rfl
    exact hPlain.trans (cutWord_name hName hEnds)

theorem cutToken_raw {name rest : List Char} (hName : isSchemaName (String.ofList name) = true)
    (hPlain : plainWords.contains (String.ofList name) = false) (hEnds : endsWord rest = true) :
    cutToken ('r' :: '#' :: (name ++ rest)) = some (.word (String.ofList ('r' :: '#' :: name)), rest) := by
  have hCut : cutIdentifier ('r' :: '#' :: (name ++ rest)) = some ('r' :: '#' :: name, rest) := by
    rw [cutIdentifier, cutWord_name hName hEnds]
    dsimp only
    rw [hPlain]
    rfl
  cases name with
  | nil => cases hName
  | cons c cs =>
    have hRange := range_of_isSchemaName hName
    have hQuote : c ≠ '\x22' := by
      rintro rfl
      revert hRange
      decide
    have hSign : c ≠ '#' := by
      rintro rfl
      revert hRange
      decide
    refine cutToken_of_identifier (by decide) ?_ ?_ hCut
    · rw [dropQuoted, dropRawString]
      simp [hSign, hQuote]
    · simp [literalLeads, leads, leads_cons, Ne.symm hQuote, Ne.symm hSign]

theorem tokenAt_word {name : String} {rest : List Char} (hName : isWord name = true)
    (hEnds : endsWord rest = true) : TokenAt (name.toList ++ rest) (.word name) rest := by
  rcases Bool.or_eq_true_iff.mp hName with hPlain | hRaw
  · cases hText : name.toList with
    | nil =>
      rw [isSchemaName, hText] at hPlain
      cases hPlain
    | cons c cs =>
      have hOfList : name = String.ofList (c :: cs) := by rw [← hText, String.ofList_toList]
      subst hOfList
      refine ⟨c, cs ++ rest, rfl, beginsToken_of_range ?_, by simp,
        cutToken_name hPlain hEnds⟩
      exact (range_of_isSchemaName hPlain).imp_right .inl
  · unfold isRawWord at hRaw
    split at hRaw
    · rename_i base hText
      obtain ⟨hBase, hPlain⟩ := Bool.and_eq_true_iff.mp hRaw
      have hOfList : name = String.ofList ('r' :: '#' :: base) := by
        rw [← hText, String.ofList_toList]
      refine ⟨'r', '#' :: (base ++ rest), by rw [hText]; rfl, beginsToken_of_range (by decide),
        by simp; omega, ?_⟩
      rw [hOfList]
      exact cutToken_raw hBase (Bool.not_eq_true' _ ▸ hPlain) hEnds
    · cases hRaw

theorem hexValue_of_not_rest {c : Char} (h : isIdentifierRest c = false) :
    Quoted.hexValue c = none := by
  have hOut : ∀ low high : Nat, (∀ n, low ≤ n → n ≤ high → n < 128 ∧ ((65 ≤ n ∧ n ≤ 90)
      ∨ (97 ≤ n ∧ n ≤ 122) ∨ 48 ≤ n ∧ n ≤ 57)) → ¬ (low ≤ c.toNat ∧ c.toNat ≤ high) := by
    rintro low high hSub ⟨hLow, hHigh⟩
    obtain ⟨hSmall, hRange⟩ := hSub _ hLow hHigh
    rw [isIdentifierRest, if_pos hSmall, Bool.or_eq_false_iff, ← Bool.not_eq_true,
      isAlphanum_iff] at h
    exact h.1 (by omega)
  rw [Quoted.hexValue, if_neg, if_neg, if_neg]
  · exact hOut 65 70 (by omega)
  · exact hOut 97 102 (by omega)
  · rw [isDigit_iff]
    exact hOut 48 57 (by omega)

theorem dropDigits_of_all {ds rest : List Char} (hDigits : ∀ c ∈ ds, c.isDigit = true)
    (hEnds : endsNumber rest = true) (hNe : ds ≠ []) (isEmpty : Bool) :
    dropDigits 10 isEmpty (ds ++ rest) = some rest := by
  have hEnd : dropDigits 10 false rest = some rest := by
    cases rest with
    | nil => rfl
    | cons c cs =>
      have hRest := not_rest_of_endsWord (endsWord_of_endsNumber hEnds) c rfl
      have hUnderscore : c ≠ '_' := by
        rintro rfl
        cases hRest
      rw [dropDigits, if_neg hUnderscore, hexValue_of_not_rest hRest]
      rfl
  induction ds generalizing isEmpty with
  | nil => exact absurd rfl hNe
  | cons c cs ih =>
    have hDigit := hDigits c List.mem_cons_self
    have hRange := isDigit_iff.mp hDigit
    have hUnderscore : c ≠ '_' := by
      rintro rfl
      cases hDigit
    have hHex : Quoted.hexValue c = some (c.toNat - 48) := if_pos hDigit
    rw [List.cons_append, dropDigits, if_neg hUnderscore, hHex]
    dsimp only
    rw [if_pos (by omega)]
    cases cs with
    | nil => exact hEnd
    | cons d cs =>
      exact ih (fun e hMem => hDigits e (List.mem_cons_of_mem c hMem)) (by simp) false

theorem dropFloat_of_whole {c : Char} {cs rest : List Char} (hDigits : ∀ d ∈ c :: cs, d.isDigit = true)
    (hEnds : endsNumber rest = true) : dropFloat (c :: (cs ++ rest)) = none := by
  have hRest := not_rest_of_endsWord (endsWord_of_endsNumber hEnds)
  have hDigitOrUnderscore : ∀ d ∈ c :: cs, isDigitOrUnderscore d = true := by
    intro d hMem
    rw [isDigitOrUnderscore, hDigits d hMem, Bool.true_or]
  have hStop : ∀ d ∈ rest.head?, isDigitOrUnderscore d = false := by
    intro d hMem
    rw [← Bool.not_eq_true]
    intro hOther
    have hName : isNameChar d = true := by
      rw [isDigitOrUnderscore, Bool.or_eq_true] at hOther
      rcases hOther with hDigit | hUnderscore
      · exact isNameChar_of_isDigit hDigit
      · rw [isNameChar, hUnderscore, Bool.or_true]
    have hFollows := hRest d hMem
    rw [isIdentifierRest_of_isNameChar hName] at hFollows
    cases hFollows
  have hDrop : (c :: (cs ++ rest)).dropWhile isDigitOrUnderscore = rest :=
    (@takeWhile_append_of_all _ _ (c :: cs) _ hDigitOrUnderscore hStop).2
  rw [dropFloat, hDigits c List.mem_cons_self, hDrop]
  cases rest with
  | nil => rfl
  | cons d more =>
    have hDot : d ≠ '.' := by
      rintro rfl
      cases hEnds
    have hE : d ≠ 'e' ∧ d ≠ 'E' := by
      constructor <;> rintro rfl <;> exact absurd (hRest _ rfl) (by decide)
    simp [hDot, hE.1, hE.2]

theorem dropInteger_of_whole {c : Char} {cs rest : List Char} (hDigits : ∀ d ∈ c :: cs, d.isDigit = true)
    (hEnds : endsNumber rest = true) : dropInteger (c :: (cs ++ rest)) = some rest := by
  have hNext : ∀ d more, cs ++ rest = d :: more → d ≠ 'x' ∧ d ≠ 'o' ∧ d ≠ 'b' := by
    intro d more hText
    have hOther : d.isDigit = true ∨ isIdentifierRest d = false := by
      cases cs with
      | nil =>
        rw [List.nil_append] at hText
        exact .inr (not_rest_of_endsWord (endsWord_of_endsNumber hEnds) d (by rw [hText]; rfl))
      | cons e cs =>
        obtain ⟨rfl, -⟩ := List.cons_eq_cons.mp hText
        exact .inl (hDigits _ (List.mem_cons_of_mem _ List.mem_cons_self))
    refine ⟨?_, ?_, ?_⟩ <;> rintro rfl <;> revert hOther <;> decide
  have hAll : dropDigits 10 true (c :: (cs ++ rest)) = some rest :=
    @dropDigits_of_all (c :: cs) _ hDigits hEnds (by simp) true
  unfold dropInteger
  split
  · rename_i hText
    exact absurd rfl (hNext _ _ (List.cons_eq_cons.mp hText).2).1
  · rename_i hText
    exact absurd rfl (hNext _ _ (List.cons_eq_cons.mp hText).2).2.1
  · rename_i hText
    exact absurd rfl (hNext _ _ (List.cons_eq_cons.mp hText).2).2.2
  · exact hAll

theorem numberBefore_append (front : List Char) {rest : List Char} (hEnds : endsNumber rest = true) :
    numberBefore (front ++ rest) rest = some (front, rest) := by
  have hWord := endsWord_of_endsNumber hEnds
  have hFollow : rest.head?.any isIdentifierRest = false := by
    cases hHead : rest.head? with
    | none => rfl
    | some c => exact not_rest_of_endsWord hWord c hHead
  rw [numberBefore, dropSuffix_of_ends hWord]
  rw [hFollow, takenFrom_append]
  rfl

theorem tokenAt_number {text : String} {rest : List Char} (hNumber : isNumber text = true)
    (hEnds : endsNumber rest = true) : TokenAt (text.toList ++ rest) (.literal text) rest := by
  obtain ⟨hNe, hAll⟩ := Bool.and_eq_true_iff.mp hNumber
  have hDigits := List.all_eq_true.mp hAll
  cases hText : text.toList with
  | nil =>
    rw [hText] at hNe
    cases hNe
  | cons c cs =>
    rw [hText] at hDigits
    have hRange := isDigit_iff.mp (hDigits c List.mem_cons_self)
    have hQuoted : dropQuoted (c :: (cs ++ rest)) = none := by
      unfold dropQuoted
      split <;> rename_i hChars <;>
        first
        | rfl
        | (obtain ⟨rfl, -⟩ := List.cons_eq_cons.mp hChars
           exact absurd hRange (by decide))
    have hCut : cutNumber (c :: (cs ++ rest)) = some (c :: cs, rest) := by
      rw [cutNumber, dropFloat_of_whole hDigits hEnds, dropInteger_of_whole hDigits hEnds]
      exact numberBefore_append (c :: cs) hEnds
    refine ⟨c, cs ++ rest, rfl, beginsToken_of_range (by omega), by simp, ?_⟩
    rw [cutToken, cutQuoted, hQuoted, Option.map_none, hCut]
    dsimp only
    rw [← hText, String.ofList_toList]

theorem tokenAt_quoted (value : String) {rest : List Char} (hEnds : endsWord rest = true) :
    TokenAt ((Quoted.encode value).toList ++ rest) (.literal (Quoted.encode value)) rest := by
  refine ⟨'\x22', Quoted.encodeBody value.toList ++ '\x22' :: rest, ?_, ?_, by simp; omega, ?_⟩
  · rw [Quoted.encode_toList]
    simp
  · exact ⟨by decide, by decide, by decide, by decide, by decide⟩
  · have hText : '\x22' :: (Quoted.encodeBody value.toList ++ '\x22' :: rest)
        = ('\x22' :: (Quoted.encodeBody value.toList ++ ['\x22'])) ++ rest := by simp
    have hCut : cutQuoted ('\x22' :: (Quoted.encodeBody value.toList ++ '\x22' :: rest))
        = some ('\x22' :: (Quoted.encodeBody value.toList ++ ['\x22']), rest) := by
      rw [cutQuoted, dropQuoted, Quoted.read_encodeBody, Option.map_some, Option.map_some,
        dropSuffix_of_ends hEnds, hText]
      dsimp only
      rw [takenFrom_append]
    rw [cutToken, hCut]
    rfl

theorem cutToken_mark {c : Char} (hMark : c ∈ plainMarks) (rest : List Char) :
    cutToken (c :: rest) = some (.mark c (beginsMark rest), rest) := by
  have hAll : ∀ d ∈ plainMarks, d ≠ '/' ∧ d ≠ '\x27' ∧ markChars.contains d = true
      ∧ d.isDigit = false ∧ d ≠ '\x22' ∧ d ≠ 'r' ∧ d ≠ 'b' ∧ d ≠ 'c' :=
    forall_mem_of_all (by decide)
  obtain ⟨hSlash, hQuote, hMark, hDigit, hString, hR, hB, hC⟩ := hAll c hMark
  have hQuoted : dropQuoted (c :: rest) = none := by
    unfold dropQuoted
    split <;> simp_all
  rw [cutToken, cutQuoted, hQuoted, Option.map_none, cutNumber_of_not_digit hDigit,
    cutMark_of_plain hSlash hQuote, if_pos hMark]

theorem cutToken_lifetime {name : String} {rest : List Char} (hName : isSchemaName name = true)
    (hEnds : endsWord rest = true) :
    cutToken ('\x27' :: (name.toList ++ rest)) = some (.mark '\x27' true, name.toList ++ rest) := by
  have hOfList : isSchemaName (String.ofList name.toList) = true := by rwa [String.ofList_toList]
  cases hText : name.toList with
  | nil =>
    rw [isSchemaName, hText] at hName
    cases hName
  | cons c cs =>
    rw [hText] at hOfList
    have hChars : ∀ d ∈ cs, isNameChar d = true := by
      intro d hMem
      refine isNameChar_of_mem hName ?_
      rw [hText]
      exact List.mem_cons_of_mem c hMem
    -- A character would have its second quote behind its first character, where the name goes on or ends.
    have hFree : quoteFree (cs ++ rest) = true :=
      quoteFree_of_names hChars (quoteFree_of_endsWord hEnds)
    have hSlash : c ≠ '\x5c' := by
      rintro rfl
      exact absurd (range_of_isSchemaName hOfList) (by decide)
    have hCharacter : dropCharacter false (c :: (cs ++ rest)) = none := by
      unfold dropCharacter
      cases hNext : cs ++ rest with
      | nil => simp
      | cons d more =>
        have hD : d ≠ '\x27' := by
          rintro rfl
          rw [hNext] at hFree
          cases hFree
        simp [hD]
    have hIdentifier : cutIdentifier (c :: (cs ++ rest)) = some (c :: cs, rest) := by
      have hWord : cutIdentifier (c :: (cs ++ rest)) = cutWord (c :: (cs ++ rest)) := by
        unfold cutIdentifier
        split
        · rename_i hChars
          rw [(List.cons_eq_cons.mp hChars).2] at hFree
          cases hFree
        · rfl
      exact hWord.trans (cutWord_name hOfList hEnds)
    have hAfter : leads "'" rest = false ∧ leads "#" rest = false := by
      cases rest with
      | nil => exact ⟨rfl, rfl⟩
      | cons d more =>
        have hFollow := quoteFree_of_endsWord hEnds
        simp only [quoteFree, Bool.and_eq_true, bne_iff_ne, ne_eq] at hFollow
        simp [leads, leads_cons, Ne.symm hFollow.1.2, Ne.symm hFollow.2]
    rw [cutToken, cutQuoted, List.cons_append, dropQuoted, hCharacter, Option.map_none,
      cutNumber_of_not_digit rfl, cutMark, hIdentifier]
    dsimp only
    rw [hAfter.1, hAfter.2]
    rfl

/-! ## A whole text -/

/-- Whether a text is lexed to these signs, in whatever groups it stands. -/
def Lexes (cs : List Char) (ss : List Sign) : Prop :=
  ∀ fuel opened read, cs.length < fuel → lexFrom fuel opened read cs = gather opened read ss

theorem lexes_token {cs rest : List Char} {token : Token} {ss : List Sign}
    (hToken : TokenAt cs token rest) (hRest : Lexes rest ss) : Lexes cs (.token token :: ss) := by
  obtain ⟨c, cs, rfl, hBegins, hShorter, hCut⟩ := hToken
  intro fuel opened read hFuel
  rw [List.length_cons] at hFuel
  obtain ⟨fuel, rfl⟩ := Nat.exists_eq_add_of_lt (Nat.lt_of_le_of_lt (Nat.zero_le _) hFuel)
  rw [Nat.zero_add] at hFuel ⊢
  rw [lexFrom_token hBegins hCut, gather]
  exact hRest _ _ _ (by omega)

theorem lexes_spacing {c : Char} {cs : List Char} {ss : List Sign}
    (hBlank : c = ' ' ∨ c = '\n') (hRest : Lexes cs ss) : Lexes (c :: cs) ss := by
  intro fuel opened read hFuel
  rw [List.length_cons] at hFuel
  obtain ⟨fuel, rfl⟩ := Nat.exists_eq_add_of_lt (Nat.lt_of_le_of_lt (Nat.zero_le _) hFuel)
  have hDrop : dropSpacing (c :: cs) = some cs := by rcases hBlank with rfl | rfl <;> rfl
  rw [lexFrom.eq_def]
  dsimp only
  rw [hDrop]
  exact hRest _ _ _ (by omega)

theorem lexes_marks {text : List Char} (hMarks : ∀ c ∈ text, c ∈ plainMarks) (hNe : text ≠ [])
    {rest : List Char} {ss : List Sign} (hRest : Lexes rest ss) :
    Lexes (text ++ rest) ((marks text (beginsMark rest)).map .token ++ ss) := by
  have hBegins : ∀ d ∈ plainMarks, d ≠ '/' ∧ d ≠ '\r' ∧ isSpacing d = false ∧ opened? d = none
      ∧ closed? d = none ∧ markChars.contains d = true :=
    forall_mem_of_all (by decide)
  induction text with
  | nil => exact absurd rfl hNe
  | cons c text ih =>
    have hC := hMarks c List.mem_cons_self
    obtain ⟨hSlash, hReturn, hSpacing, hOpened, hClosed, -⟩ := hBegins c hC
    have hFirst : BeginsToken c := ⟨hSlash, hReturn, hSpacing, hOpened, hClosed⟩
    cases text with
    | nil => exact lexes_token ⟨c, rest, rfl, hFirst, Nat.le_refl _, cutToken_mark hC rest⟩ hRest
    | cons d text =>
      obtain ⟨hSlash, -, -, -, -, hMark⟩ :=
        hBegins d (hMarks d (List.mem_cons_of_mem c List.mem_cons_self))
      have hCut := cutToken_mark hC (d :: (text ++ rest))
      rw [beginsMark_of_plain hSlash, hMark] at hCut
      exact lexes_token ⟨c, _, rfl, hFirst, Nat.le_refl _, hCut⟩
        (ih (fun e hMem => hMarks e (List.mem_cons_of_mem c hMem)) (by simp))

theorem lexes_delimiter (delimiter : Delimiter) {rest : List Char} {ss : List Sign}
    (hRest : Lexes rest ss) :
    Lexes (delimiter.left :: rest) (.opening delimiter :: ss)
      ∧ Lexes (delimiter.right :: rest) (.closing delimiter :: ss) := by
  constructor <;> intro fuel opened read hFuel <;> rw [List.length_cons] at hFuel <;>
    obtain ⟨fuel, rfl⟩ := Nat.exists_eq_add_of_lt (Nat.lt_of_le_of_lt (Nat.zero_le _) hFuel)
  · have hStep : lexFrom (0 + fuel + 1) opened read (delimiter.left :: rest)
        = lexFrom (0 + fuel) ((delimiter, read) :: opened) [] rest := by
      cases delimiter <;> rfl
    rw [hStep, gather]
    exact hRest _ _ _ (by omega)
  · cases opened with
    | nil => cases delimiter <;> rfl
    | cons entry opened =>
      obtain ⟨expected, outer⟩ := entry
      have hStep : lexFrom (0 + fuel + 1) ((expected, outer) :: opened) read (delimiter.right :: rest)
          = if delimiter = expected then
              lexFrom (0 + fuel) opened (.group delimiter read.reverse :: outer) rest
            else none := by
        cases delimiter <;> rfl
      rw [hStep, gather, hRest _ _ _ (by omega)]

theorem cutLine_of_line {line : List Char} (hNewline : '\n' ∉ line) (hReturn : '\r' ∉ line)
    (rest : List Char) : cutLine (line ++ '\n' :: rest) = (line, '\n' :: rest) := by
  induction line with
  | nil => rfl
  | cons c line ih =>
    rw [List.mem_cons, not_or] at hNewline hReturn
    have hStep : cutLine (c :: (line ++ '\n' :: rest))
        = (c :: (cutLine (line ++ '\n' :: rest)).1, (cutLine (line ++ '\n' :: rest)).2) := by
      rw [cutLine.eq_def]
      split <;> simp_all
    rw [List.cons_append, hStep, ih hNewline.2 hReturn.2]

theorem carriagesPaired_of_not_mem {cs : List Char} (h : '\r' ∉ cs) : carriagesPaired cs = true := by
  induction cs with
  | nil => rfl
  | cons c cs ih =>
    rw [List.mem_cons, not_or] at h
    rw [carriagesPaired.eq_def]
    split <;> simp_all

theorem noSlash_of_head {text rest : List Char} (hHead : ¬ text.head? = some '/') :
    leads "/" (text ++ '\n' :: rest) = false := by
  cases text with
  | nil => rfl
  | cons c cs =>
    have hC : '/' ≠ c := fun hEq => hHead (by rw [← hEq]; rfl)
    simp [leads, leads_cons, hC]

theorem cutDocComment_inner (cs : List Char) : cutDocComment ('/' :: '/' :: '!' :: cs)
    = if carriagesPaired (cutLine cs).1 then some (⟨true, (cutLine cs).1⟩, (cutLine cs).2) else none := rfl

theorem cutDocComment_outer {cs : List Char} (h : leads "/" cs = false) : cutDocComment ('/' :: '/' :: '/' :: cs)
    = if carriagesPaired (cutLine cs).1 then some (⟨false, (cutLine cs).1⟩, (cutLine cs).2) else none := by
  simp [cutDocComment, h]

theorem lexes_remark {comment : DocComment} (hLine : comment.isLine = true) {rest : List Char}
    {ss : List Sign} (hRest : Lexes ('\n' :: rest) ss) :
    Lexes (comment.marker ++ comment.text ++ '\n' :: rest) (comment.tokens.map .token ++ ss) := by
  obtain ⟨inner, text⟩ := comment
  simp only [DocComment.isLine, Bool.and_eq_true, Bool.or_eq_true, Bool.not_eq_true',
    ← Bool.not_eq_true, List.contains_iff_mem, bne_iff_ne, ne_eq] at hLine
  obtain ⟨⟨hNewline, hReturn⟩, hHead⟩ := hLine
  have hCut := cutLine_of_line hNewline hReturn rest
  have hPaired := carriagesPaired_of_not_mem hReturn
  have hCutDoc : cutDocComment ((DocComment.mk inner text).marker ++ text ++ '\n' :: rest)
      = some (⟨inner, text⟩, '\n' :: rest) := by
    cases inner with
    | true =>
      change cutDocComment ('/' :: '/' :: '!' :: (text ++ '\n' :: rest)) = _
      rw [cutDocComment_inner, hCut]
      exact if_pos hPaired
    | false =>
      have hNoSlash := @noSlash_of_head _ rest (hHead.resolve_left Bool.false_ne_true)
      change cutDocComment ('/' :: '/' :: '/' :: (text ++ '\n' :: rest)) = _
      rw [cutDocComment_outer hNoSlash, hCut]
      exact if_pos hPaired
  -- A comment with four slashes would be a plain one, so the text may not begin with one.
  have hDrop : dropSpacing ((DocComment.mk inner text).marker ++ text ++ '\n' :: rest) = none := by
    cases inner with
    | true => rfl
    | false =>
      have hNoSlash := @noSlash_of_head _ rest (hHead.resolve_left Bool.false_ne_true)
      have hLeads : leads "//" ('/' :: (text ++ '\n' :: rest)) = leads "/" (text ++ '\n' :: rest) := rfl
      change (if (leads "/" ('/' :: (text ++ '\n' :: rest))
        && !leads "//" ('/' :: (text ++ '\n' :: rest)) || false) = true then none else _) = none
      rw [hLeads, hNoSlash]
      rfl
  intro fuel opened read hFuel
  obtain ⟨fuel, rfl⟩ := Nat.exists_eq_add_of_lt (Nat.lt_of_le_of_lt (Nat.zero_le _) hFuel)
  have hStep : lexFrom (0 + fuel + 1) opened read
        ((DocComment.mk inner text).marker ++ text ++ '\n' :: rest)
      = lexFrom (0 + fuel) opened ((DocComment.mk inner text).tokens.reverse ++ read)
          ('\n' :: rest) := by
    cases hText : (DocComment.mk inner text).marker ++ text ++ '\n' :: rest with
    | nil => cases inner <;> cases hText
    | cons c cs =>
      rw [hText] at hDrop hCutDoc
      rw [lexFrom.eq_def]
      dsimp only
      rw [hDrop, hCutDoc]
  rw [hStep, gather_tokens]
  refine hRest _ _ _ ?_
  have hMarker : (DocComment.mk inner text).marker.length = 3 := by cases inner <;> rfl
  rw [List.length_append, List.length_append, hMarker] at hFuel
  omega

/-- A text is lexed to the signs of its lexemes. -/
theorem lexes_of_reads {cs : List Char} {ls : List Lexeme} (h : Reads cs ls) :
    ∃ ss, Resolves ls ss ∧ Lexes cs ss := by
  induction h with
  | nil =>
    refine ⟨[], .nil, ?_⟩
    intro fuel opened read hFuel
    obtain ⟨fuel, rfl⟩ := Nat.exists_eq_add_of_lt hFuel
    rfl
  | blank hBlank _ ih =>
    obtain ⟨ss, hResolves, hLexes⟩ := ih
    exact ⟨ss, hResolves, lexes_spacing hBlank hLexes⟩
  | word hName hEnds _ ih =>
    obtain ⟨ss, hResolves, hLexes⟩ := ih
    exact ⟨_, .word hResolves, lexes_token (tokenAt_word hName hEnds) hLexes⟩
  | number hNumber hEnds _ ih =>
    obtain ⟨ss, hResolves, hLexes⟩ := ih
    exact ⟨_, .literal hResolves, lexes_token (tokenAt_number hNumber hEnds) hLexes⟩
  | quoted hEnds _ ih =>
    obtain ⟨ss, hResolves, hLexes⟩ := ih
    exact ⟨_, .literal hResolves, lexes_token (tokenAt_quoted _ hEnds) hLexes⟩
  | lifetime hName hEnds _ ih =>
    obtain ⟨ss, hResolves, hLexes⟩ := ih
    have hWord := tokenAt_word (Bool.or_eq_true_iff.mpr (.inl hName)) hEnds
    have hMark := cutToken_lifetime hName hEnds
    have hQuote : BeginsToken '\x27' := ⟨by decide, by decide, by decide, by decide, by decide⟩
    exact ⟨_, .mark (.word hResolves),
      lexes_token ⟨_, _, rfl, hQuote, Nat.le_refl _, hMark⟩ (lexes_token hWord hLexes)⟩
  | mark hMarks _ ih =>
    obtain ⟨ss, hResolves, hLexes⟩ := ih
    obtain ⟨hNe, hAll⟩ := Bool.and_eq_true_iff.mp hMarks
    have hText : ∀ c ∈ _, c ∈ plainMarks :=
      fun c hMem => List.elem_iff.mp (List.all_eq_true.mp hAll c hMem)
    exact ⟨_, .mark hResolves, lexes_marks hText (by simpa using hNe) hLexes⟩
  | opening _ ih =>
    obtain ⟨ss, hResolves, hLexes⟩ := ih
    exact ⟨_, .opening hResolves, (lexes_delimiter _ hLexes).1⟩
  | closing _ ih =>
    obtain ⟨ss, hResolves, hLexes⟩ := ih
    exact ⟨_, .closing hResolves, (lexes_delimiter _ hLexes).2⟩
  | remark hLine _ ih =>
    obtain ⟨ss, hResolves, hLexes⟩ := ih
    exact ⟨_, .remark hResolves, lexes_remark hLine hLexes⟩

end ProtoBind.Source
