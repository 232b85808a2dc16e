import ProtoBind.Proofs.ParserRuns
import ProtoBind.Proofs.SoundTokens

/-!
# Tokens from their spelling

Tokens that a text gives can be told from how they are spelled out: no two sequences of such tokens are
spelled alike.
-/

set_option autoImplicit false

namespace ProtoBind.Source

open Text

/-! ## What stands behind a token -/

def gapBehind (token : Token) (rest : List Token) : List Char :=
  if rest.isEmpty || token.isJoined then [] else [' ']

def spelledBehind (token : Token) (rest : List Token) (more : List Char) : List Char :=
  gapBehind token rest ++ (spellAll rest).toList ++ more

theorem spellAll_cons (token : Token) (rest : List Token) (more : List Char) :
    (spellAll (token :: rest)).toList ++ more = token.spell.toList ++ spelledBehind token rest more := by
  cases rest with
  | nil => simp [spellAll, spelledBehind, gapBehind]
  | cons next rest =>
    cases token with
    | mark c joined =>
      cases joined with
      | true => simp [spellAll, spelledBehind, gapBehind, Token.isJoined, Token.spell]
      | false => simp [spellAll, spelledBehind, gapBehind, Token.isJoined, Token.spell]
    | _ => simp [spellAll, spelledBehind, gapBehind, Token.isJoined]

def endsGroup : List Char → Bool
  | [] => true
  | ' ' :: cs => cs.head? == some '\x7d'
  | c :: _ => c == ')' || c == ']' || c == '\x7d'

theorem breaksOff_of_endsGroup {cs : List Char} (h : endsGroup cs = true) : breaksOff cs = true := by
  unfold endsGroup at h
  split at h
  · rfl
  · rfl
  · rename_i c _ _
    rw [Bool.or_eq_true, Bool.or_eq_true] at h
    simp only [breaksOff, isBreak, List.head?_cons, Option.all_some, Bool.or_eq_true]
    exact h.imp_left (·.imp_left .inr)

theorem endsGroup_closing (delimiter : Delimiter) (isEmpty : Bool) (more : List Char) :
    endsGroup ((delimiter.closing isEmpty).toList ++ more) = true := by
  cases delimiter <;> cases isEmpty <;> rfl

/-- No token is spelled with a break at its start. -/
theorem spell_unbroken {token : Token} (h : token.Sound) :
    ∃ c cs, token.spell.toList = c :: cs ∧ isBreak c = false := by
  obtain ⟨c, cs, hText⟩ := List.exists_cons_of_ne_nil (spell_ne_nil h)
  refine ⟨c, cs, hText, ?_⟩
  cases token with
  | word name =>
    replace hText : name.toList = c :: cs := hText
    rcases h with ⟨hStart, -⟩ | ⟨base, hRaw, -⟩
    · rw [hText] at hStart
      exact not_break_of_rest (isIdentifierRest_of_start hStart)
    · rw [hRaw] at hText
      cases hText
      rfl
  | literal text =>
    replace hText : text.toList = c :: cs := hText
    rcases h with hNumber | hQuoted
    · exact hNumber.unbroken c (by simp [hText])
    · have hCut := hQuoted [] rfl
      rw [hText] at hCut
      rw [← Bool.not_eq_true]
      intro hBreak
      simp only [isBreak, Bool.or_eq_true, beq_iff_eq] at hBreak
      rcases hBreak with ((rfl | rfl) | rfl) | rfl <;> cases hCut
  | mark d joined =>
    rw [spell_mark] at hText
    cases hText
    have hAll : ∀ d ∈ markChars, isBreak d = false := forall_mem_of_all (by decide)
    exact hAll c h.1
  | group delimiter inner =>
    rw [Token.spell] at hText
    cases delimiter <;> simp [Delimiter.opening] at hText <;> (rw [← hText.1]; rfl)

theorem spellAll_unbroken {tokens : List Token} (h : AllSound tokens) (hNe : tokens ≠ []) (more : List Char) :
    ∃ c cs, (spellAll tokens).toList ++ more = c :: cs ∧ isBreak c = false := by
  cases tokens with
  | nil => exact absurd rfl hNe
  | cons token rest =>
    obtain ⟨c, cs, hText, hC⟩ := spell_unbroken h.1
    exact ⟨c, _, by rw [spellAll_cons, hText]; rfl, hC⟩

theorem behind_breaksOff {token : Token} (hJoined : token.isJoined = false) (rest : List Token) {more : List Char}
    (hMore : endsGroup more = true) : breaksOff (spelledBehind token rest more) = true := by
  cases rest with
  | nil => exact breaksOff_of_endsGroup hMore
  | cons next rest =>
    rw [spelledBehind, gapBehind, hJoined]
    rfl

theorem behind_unbroken {token : Token} {rest : List Token} (hJoined : token.isJoined = true)
    (hJoins : token.JoinsTo rest)
    (hRest : AllSound rest) (more : List Char) :
    ∃ c cs, spelledBehind token rest more = c :: cs ∧ isBreak c = false := by
  cases token with
  | mark c joined =>
    cases hJoined
    cases rest with
    | nil => exact hJoins.elim
    | cons next rest => exact spellAll_unbroken hRest (by simp) more
  | word name => cases hJoined
  | literal text => cases hJoined
  | group delimiter inner => cases hJoined

/-- Whether all sound tokens that are spelled like these, up to the end of a group, are these. -/
def ToldBySpelling (tokens : List Token) : Prop :=
  ∀ ⦃tokens' : List Token⦄ ⦃more more' : List Char⦄, AllSound tokens' → endsGroup more = true → endsGroup more' = true →
    (spellAll tokens).toList ++ more = (spellAll tokens').toList ++ more' → tokens = tokens' ∧ more = more'

theorem behind_injective {token : Token} {rest rest' : List Token} {more more' : List Char} (hRest : AllSound rest)
    (hRest' : AllSound rest') (hMore : endsGroup more = true) (hMore' : endsGroup more' = true)
    (hTold : ToldBySpelling rest) (h : spelledBehind token rest more = spelledBehind token rest' more') :
    rest = rest' ∧ more = more' := by
  -- A blank before the end of a group is no blank before a token.
  have hApart : ∀ {tokens : List Token} {cs ds : List Char}, AllSound tokens → tokens ≠ [] → endsGroup cs = true →
      cs ≠ ' ' :: ((spellAll tokens).toList ++ ds) := by
    rintro tokens cs ds hTokens hNe hEnds rfl
    obtain ⟨c, back, hText, hC⟩ := spellAll_unbroken hTokens hNe ds
    rw [hText] at hEnds
    obtain rfl : c = '\x7d' := by simpa [endsGroup] using hEnds
    cases hC
  cases hJoined : token.isJoined with
  | true =>
    simp only [spelledBehind, gapBehind, hJoined, Bool.or_true, if_true, List.nil_append] at h
    exact hTold hRest' hMore hMore' h
  | false =>
    simp only [spelledBehind, gapBehind, hJoined, Bool.or_false] at h
    cases rest with
    | nil =>
      cases rest' with
      | nil => exact ⟨rfl, h⟩
      | cons next rest' => exact absurd h (hApart hRest' (by simp) hMore)
    | cons next rest =>
      cases rest' with
      | nil => exact absurd h.symm (hApart hRest (by simp) hMore')
      | cons next' rest' => exact hTold hRest' hMore hMore' (List.cons_eq_cons.mp h).2

/-! ## One token -/

/-- What a token is that a text begins with, told from the text alone. -/
inductive Kind where
  | word
  | number
  | quoted
  | mark
  | group
  deriving DecidableEq

def kindOf (cs : List Char) : Kind :=
  if (cutQuoted cs).isSome then .quoted
  else if cs.head?.any isIdentifierStart then .word
  else if cs.head?.any Char.isDigit then .number
  else if cs.head?.any markChars.contains then .mark
  else .group

theorem kindOf_word {name more : List Char} (h : IdentifierText name) (hMore : breaksOff more = true) :
    kindOf (name ++ more) = .word := by
  have hStart : (name ++ more).head?.any isIdentifierStart = true := by
    rcases h with ⟨hStart, -⟩ | ⟨base, rfl, -⟩
    · cases name with
      | nil => cases hStart
      | cons c cs => exact hStart
    · exact (by decide : isIdentifierStart 'r' = true)
  rw [kindOf, notQuoted_of_identifier h hMore]
  exact (if_neg Bool.false_ne_true).trans (if_pos hStart)

theorem kindOf_number {text : List Char} (h : NumberText text)
    (more : List Char) : kindOf (text ++ more) = .number := by
  obtain ⟨hDigit, -⟩ := h
  cases text with
  | nil => cases hDigit
  | cons c cs =>
    replace hDigit : c.isDigit = true := hDigit
    have hStart : ¬ (c :: (cs ++ more)).head?.any isIdentifierStart = true := by
      simp [not_start_of_isDigit hDigit]
    rw [kindOf, List.cons_append, notQuoted_of_digit (by simp [hDigit])]
    exact (if_neg Bool.false_ne_true).trans ((if_neg hStart).trans (if_pos hDigit))

theorem kindOf_quoted {text more : List Char} (h : QuotedText text) (hMore : breaksOff more = true) :
    kindOf (text ++ more) = .quoted := by
  rw [kindOf, h more hMore]
  exact if_pos rfl

theorem kindOf_mark {c : Char} (h : c ∈ markChars) {more : List Char} (hQuoted : cutQuoted (c :: more) = none) :
    kindOf (c :: more) = .mark := by
  obtain ⟨hStart, hDigit⟩ := not_start_of_mark h
  rw [kindOf, hQuoted]
  simp [hStart, hDigit, h]

theorem kindOf_group (delimiter : Delimiter) (more : List Char) :
    kindOf (delimiter.opening.toList ++ more) = .group := by
  have hAll : isIdentifierStart '(' = false ∧ isIdentifierStart '\x7b' = false ∧ isIdentifierStart '[' = false := by
    decide
  cases delimiter <;> simp [kindOf, Delimiter.opening, cutQuoted, dropQuoted, hAll] <;> decide

/-- A word or literal behind a quote makes no character of it, whatever stands behind. -/
theorem dropCharacter_of_follows {next : Token} (h : next.FollowsQuote) {more : List Char}
    (hMore : breaksOff more = true) :
    dropCharacter false (next.spell.toList ++ more) = none := by
  have hText : ∀ text : List Char, (∃ c cs, text = c :: cs ∧ c ≠ '\x5c' ∧ cs.head? ≠ some '\x27') →
      dropCharacter false (text ++ more) = none := by
    rintro _ ⟨c, cs, rfl, hSlash, hHead⟩
    have hNext : (cs ++ more).head? ≠ some '\x27' := by
      intro hQuote
      cases cs with
      | nil =>
        rw [List.nil_append] at hQuote
        rw [breaksOff, hQuote] at hMore
        cases hMore
      | cons d cs => exact hHead hQuote
    unfold dropCharacter
    cases hBehind : cs ++ more with
    | nil => simp [hBehind]
    | cons d behind =>
      rw [hBehind] at hNext
      have hD : d ≠ '\x27' := fun hEq => hNext (congrArg some hEq)
      simp [hBehind, hD]
  cases next with
  | word name => exact hText _ h
  | literal text => exact hText _ h
  | mark c joined => exact h.elim
  | group delimiter inner => exact h.elim

/-- No mark with what stands behind it is quoted: behind a quote there is no other one where a character would end. -/
theorem notQuoted_of_mark {c : Char} {joined : Bool} {rest : List Token} (h : (Token.mark c joined).Sound)
    (hJoins : (Token.mark c joined).JoinsTo rest) {more : List Char} (hMore : endsGroup more = true) :
    cutQuoted (c :: spelledBehind (.mark c joined) rest more) = none := by
  by_cases hQuote : c = '\x27'
  · subst hQuote
    obtain rfl : joined = true := h.2 rfl
    cases rest with
    | nil => exact hJoins.elim
    | cons next rest =>
      have hFollows : next.FollowsQuote := hJoins rfl
      have hFree : next.isJoined = false := by
        cases next with
        | mark d joined => exact hFollows.elim
        | _ => rfl
      have hCharacter := dropCharacter_of_follows hFollows (behind_breaksOff hFree rest hMore)
      rw [← spellAll_cons] at hCharacter
      rw [cutQuoted]
      exact congrArg (Option.map _) hCharacter
  · have hAll : ∀ d ∈ markChars, d ≠ '\x22' ∧ d ≠ 'r' ∧ d ≠ 'b' ∧ d ≠ 'c' := forall_mem_of_all (by decide)
    obtain ⟨hString, hR, hB, hC⟩ := hAll c h.1
    have hDrop : dropQuoted (c :: spelledBehind (.mark c joined) rest more) = none := by
      unfold dropQuoted
      split <;> simp_all
    rw [cutQuoted, hDrop]
    rfl

/-- The tokens of each kind. -/
inductive OfKind : Kind → Token → Prop where
  | word {name : String} (hName : IdentifierText name.toList) : OfKind .word (.word name)
  | number {text : String} (hNumber : NumberText text.toList) : OfKind .number (.literal text)
  | quoted {text : String} (hQuoted : QuotedText text.toList) : OfKind .quoted (.literal text)
  | mark {c : Char} {joined : Bool} : OfKind .mark (.mark c joined)
  | group {delimiter : Delimiter} {inner : List Token} : OfKind .group (.group delimiter inner)

/-- A token in a text is of the kind that the text has. -/
theorem ofKind_spelled {token : Token} {rest : List Token} (h : token.Sound) (hJoins : token.JoinsTo rest)
    {more : List Char} (hMore : endsGroup more = true) :
    OfKind (kindOf (token.spell.toList ++ spelledBehind token rest more)) token := by
  cases token with
  | word name =>
    have hBehind : breaksOff (spelledBehind (.word name) rest more) = true := behind_breaksOff rfl rest hMore
    rw [Token.spell, kindOf_word h hBehind]
    exact .word h
  | literal text =>
    have hBehind : breaksOff (spelledBehind (.literal text) rest more) = true := behind_breaksOff rfl rest hMore
    rw [Token.spell]
    rcases h with hNumber | hQuoted
    · rw [kindOf_number hNumber]
      exact .number hNumber
    · rw [kindOf_quoted hQuoted hBehind]
      exact .quoted hQuoted
  | mark c joined =>
    rw [spell_mark, List.singleton_append, kindOf_mark h.1 (notQuoted_of_mark h hJoins hMore)]
    exact .mark
  | group delimiter inner =>
    rw [Token.spell, String.append_assoc, String.toList_append, List.append_assoc, kindOf_group]
    exact .group

theorem takeWhile_unbroken {text more : List Char} (h : ∀ c ∈ text, isBreak c = false) (hMore : breaksOff more = true) :
    (text ++ more).takeWhile (!isBreak ·) = text ∧ (text ++ more).dropWhile (!isBreak ·) = more := by
  apply takeWhile_append_of_all
  · intro c hMem
    rw [h c hMem]
    rfl
  · intro c hMem
    rw [breaksOff, hMem] at hMore
    rw [Bool.not_eq_false']
    exact hMore

theorem text_injective {text text' more more' : List Char} (h : ∀ c ∈ text, isBreak c = false)
    (h' : ∀ c ∈ text', isBreak c = false) (hMore : breaksOff more = true) (hMore' : breaksOff more' = true)
    (hSame : text ++ more = text' ++ more') : text = text' ∧ more = more' := by
  obtain ⟨hTake, hDrop⟩ := takeWhile_unbroken h hMore
  obtain ⟨hTake', hDrop'⟩ := takeWhile_unbroken h' hMore'
  rw [hSame] at hTake hDrop
  exact ⟨hTake.symm.trans hTake', hDrop.symm.trans hDrop'⟩

theorem IdentifierText.unbroken {text : List Char} (h : IdentifierText text) : ∀ c ∈ text, isBreak c = false := by
  rcases h with hWord | ⟨name, rfl, hWord⟩
  · exact fun c hMem => not_break_of_rest (hWord.rest c hMem)
  · intro c hMem
    rcases List.mem_cons.mp hMem with rfl | hMem
    · rfl
    rcases List.mem_cons.mp hMem with rfl | hMem
    · rfl
    · exact not_break_of_rest (hWord.rest c hMem)

theorem not_breaksOff {cs : List Char} (h : ∃ c ds, cs = c :: ds ∧ isBreak c = false) : ¬ breaksOff cs = true := by
  obtain ⟨c, ds, rfl, hC⟩ := h
  simp [breaksOff, hC]

theorem spell_group (delimiter : Delimiter) (inner : List Token) (more : List Char) :
    (Token.group delimiter inner).spell.toList ++ more
      = delimiter.opening.toList
        ++ ((spellAll inner).toList ++ ((delimiter.closing inner.isEmpty).toList ++ more)) := by
  rw [Token.spell, String.toList_append, String.toList_append, List.append_assoc, List.append_assoc]

theorem opening_injective {delimiter delimiter' : Delimiter} {more more' : List Char}
    (h : delimiter.opening.toList ++ more = delimiter'.opening.toList ++ more') :
    delimiter = delimiter' ∧ more = more' := by
  cases delimiter <;> cases delimiter' <;> simp_all [Delimiter.opening]

/-- The first token is known from a text, if the tokens inside a group are. -/
theorem token_injective {token token' : Token} {rest rest' : List Token} {more more' : List Char}
    (h : AllSound (token :: rest)) (h' : AllSound (token' :: rest')) (hMore : endsGroup more = true)
    (hMore' : endsGroup more' = true) (hInner : ∀ delimiter inner, token = .group delimiter inner →
        ToldBySpelling inner)
    (hSame : token.spell.toList ++ spelledBehind token rest more
      = token'.spell.toList ++ spelledBehind token' rest' more') :
    token = token' ∧ spelledBehind token rest more = spelledBehind token' rest' more' := by
  obtain ⟨hToken, hJoins, hRest⟩ := h
  obtain ⟨hToken', hJoins', hRest'⟩ := h'
  have hKind := ofKind_spelled hToken hJoins hMore
  have hKind' := ofKind_spelled hToken' hJoins' hMore'
  rw [← hSame] at hKind'
  generalize kindOf (token.spell.toList ++ spelledBehind token rest more) = kind at hKind hKind'
  cases hKind with
  | word hName =>
    cases hKind' with
    | word hName' =>
      obtain ⟨hEq, hBehind⟩ := text_injective hName.unbroken hName'.unbroken (behind_breaksOff rfl rest hMore)
        (behind_breaksOff rfl rest' hMore') hSame
      exact ⟨congrArg Token.word (String.toList_injective hEq), hBehind⟩
  | number hNumber =>
    cases hKind' with
    | number hNumber' =>
      obtain ⟨hEq, hBehind⟩ := text_injective hNumber.unbroken hNumber'.unbroken (behind_breaksOff rfl rest hMore)
        (behind_breaksOff rfl rest' hMore') hSame
      exact ⟨congrArg Token.literal (String.toList_injective hEq), hBehind⟩
  | @quoted text hQuoted =>
    cases hKind' with
    | @quoted text' hQuoted' =>
      have hCut := hQuoted _ (@behind_breaksOff (.literal text) rfl rest _ hMore)
      have hCut' := hQuoted' _ (@behind_breaksOff (.literal text') rfl rest' _ hMore')
      rw [Token.spell, Token.spell] at hSame
      rw [hSame] at hCut
      obtain ⟨hEq, hBehind⟩ := Prod.mk.inj (Option.some.inj (hCut.symm.trans hCut'))
      exact ⟨congrArg Token.literal (String.toList_injective hEq), hBehind⟩
  | @mark c joined =>
    cases hKind' with
    | @mark c' joined' =>
      rw [spell_mark, spell_mark, List.singleton_append, List.singleton_append] at hSame
      obtain ⟨rfl, hBehind⟩ := List.cons_eq_cons.mp hSame
      refine ⟨congrArg (Token.mark c) ?_, hBehind⟩
      -- A mark is joined exactly when no break stands behind it.
      cases joined with
      | true =>
        cases joined' with
        | true => rfl
        | false =>
          have hBreaks := @behind_breaksOff (.mark c false) rfl rest' _ hMore'
          rw [← hBehind] at hBreaks
          exact absurd hBreaks (not_breaksOff (behind_unbroken rfl hJoins hRest more))
      | false =>
        cases joined' with
        | true =>
          have hBreaks := @behind_breaksOff (.mark c false) rfl rest _ hMore
          rw [hBehind] at hBreaks
          exact absurd hBreaks (not_breaksOff (behind_unbroken rfl hJoins' hRest' more'))
        | false => rfl
  | @group delimiter inner =>
    cases hKind' with
    | @group delimiter' inner' =>
      rw [spell_group, spell_group] at hSame
      obtain ⟨rfl, hSame⟩ := opening_injective hSame
      obtain ⟨rfl, hSame⟩ := hInner delimiter inner rfl hToken' (endsGroup_closing ..) (endsGroup_closing ..) hSame
      exact ⟨rfl, List.append_cancel_left hSame⟩

/-- Sound tokens are known from their spelling. -/
theorem told_of_sound {tokens : List Token} (h : AllSound tokens) : ToldBySpelling tokens := by
  -- Both what is inside the first token and what stands behind it have fewer tokens.
  induction hCount : countAll tokens using Nat.strongRecOn generalizing tokens with
  | ind n ih =>
    subst hCount
    intro tokens' more more' h' hMore hMore' hSame
    cases tokens with
    | nil =>
      cases tokens' with
      | nil => exact ⟨rfl, hSame⟩
      | cons token' rest' =>
        have hBreaks := breaksOff_of_endsGroup hMore
        rw [show more = (spellAll (token' :: rest')).toList ++ more' from hSame] at hBreaks
        exact absurd hBreaks (not_breaksOff (spellAll_unbroken h' (by simp) more'))
    | cons token rest =>
      cases tokens' with
      | nil =>
        have hBreaks := breaksOff_of_endsGroup hMore'
        rw [show more' = (spellAll (token :: rest)).toList ++ more from hSame.symm] at hBreaks
        exact absurd hBreaks (not_breaksOff (spellAll_unbroken h (by simp) more))
      | cons token' rest' =>
        rw [spellAll_cons, spellAll_cons] at hSame
        have hInner : ∀ delimiter inner, token = .group delimiter inner → ToldBySpelling inner := by
          rintro delimiter inner rfl
          have hFewer : countAll inner < countAll (.group delimiter inner :: rest) := by
            rw [countAll_group]
            omega
          exact ih _ hFewer h.1 rfl
        obtain ⟨rfl, hBehind⟩ := token_injective h h' hMore hMore' hInner hSame
        have hFewer : countAll rest < countAll (token :: rest) := by
          cases token <;> simp only [countAll_word, countAll_literal, countAll_mark, countAll_group] <;> omega
        obtain ⟨rfl, rfl⟩ := behind_injective h.2.2 h'.2.2 hMore hMore' (ih _ hFewer h.2.2 rfl) hBehind
        exact ⟨rfl, rfl⟩

end ProtoBind.Source
