import ProtoBind.Proofs.ItemGrammar

/-!
# The grammar of files

Variants, functions and items that emitted source is made of, and that a whole file of them is parsed.
-/

set_option autoImplicit false

namespace ProtoBind.Source

open Text ProtoBind.Source.Parser

/-! ## Variants -/

theorem isThatWord_of_isDeclarable {name other : String} (hName : isDeclarable name = true)
    (hOther : isName other = false) (rest : List Token) :
    isThatWord other (.word name :: rest) = false := by
  rw [isThatWord, beq_eq_false_iff_ne]
  exact ne_of_isName (Bool.and_eq_true_iff.mp hName).2 hOther

theorem run_variant {ps qs : List Piece} {attributes : List Attribute} {name : String}
    {field : FieldItem} {front inner rest : List Token} {joined : Bool} {fuel : Nat}
    (hAttributes : AttributesForm ps attributes) (hFront : Spelled ps front)
    (hName : isDeclarable name = true) (hField : PlacesForm qs field) (hInner : Spelled qs inner)
    (hFuel : 16 * countAll inner + 8 ≤ fuel) :
    ∃ found, AttributesForm ps found
      ∧ variant fuel (front ++ Token.word name :: .group .parenthesis inner :: .mark ',' joined :: rest)
        = some (⟨found, name, .unnamed [field], none⟩, .mark ',' joined :: rest) := by
  obtain ⟨found, hFound, hRun⟩ := @run_attributes _ _ _
    (.word name :: .group .parenthesis inner :: .mark ',' joined :: rest) hAttributes hFront rfl
  obtain ⟨ended, hPlaces⟩ := run_places hField hInner hFuel
  refine ⟨found, hFound, ?_⟩
  rw [variant]
  simp [hRun, run_private (isThatWord_of_isDeclarable hName rfl _),
    run_name (Bool.and_eq_true_iff.mp hName).2, fieldItems, isGroup, run_inGroup hPlaces, eatMark]

/-- The parser takes the variants of an enum. -/
theorem parsed_variants {ps : List Piece} {variants : List Variant} (h : VariantsForm ps variants) :
    ∀ {tokens : List Token}, Spelled ps tokens → ∀ fuel, 16 * countAll tokens ≤ fuel →
      ∃ found, VariantsForm ps found ∧ ∀ n, tokens.length < n →
        ∃ ended, commasUpTo (variant fuel) n tokens = some ((found, ended), []) := by
  induction h with
  | nil =>
    intro tokens hSpelled fuel _
    cases hSpelled
    exact ⟨[], .nil, run_commasUpTo_nil⟩
  | cons hAttributes hName hField h ih =>
    intro tokens hSpelled fuel hFuel
    obtain ⟨front, back, rfl, hFront, hWord⟩ := spelled_append hSpelled
    obtain ⟨back, rfl, hGroup⟩ := spelled_word hWord
    obtain ⟨inner, back, rfl, hInner, hComma⟩ := spelled_group hGroup
    obtain ⟨joined, back, rfl, hBack⟩ := spelled_one ',' rfl hComma
    simp only [countAll_append, countAll_word, countAll_group, countAll_mark] at hFuel
    obtain ⟨found, hFound, hVariant⟩ := @run_variant _ _ _ _ _ _ _ back joined _ hAttributes hFront
      hName hField hInner (show 16 * countAll inner + 8 ≤ fuel by omega)
    obtain ⟨more, hMore, hRun⟩ := ih hBack fuel (by omega)
    exact ⟨_, .cons hFound hName hField hMore, run_commasUpTo_comma (by simp; omega) hVariant hRun⟩

/-! ## Heads of functions -/

theorem run_receiver_none {name : String} (hName : isDeclarable name = true) (fuel : Nat)
    (rest : List Token) : receiver fuel (.word name :: rest) = none := by
  have hSelf : name ≠ "self" := ne_of_isName (Bool.and_eq_true_iff.mp hName).2 rfl
  rw [receiver]
  simp [eatMark, run_eatWord_false (@isThatWord_of_isDeclarable _ "mut" hName rfl rest), word,
    hSelf]

theorem run_receiver {reference : Bool} {joined : Bool} {rest : List Token} {fuel : Nat}
    (hClear : clear [':'] [] rest = true) :
    receiver fuel ((if reference then [Token.mark '&' joined] else []) ++ Token.word "self" :: rest)
      = some (⟨if reference then some none else none, false, none⟩, rest) := by
  have hColon : afterMarks [':'] rest = none := afterMarks_of_clear hClear rfl []
  rw [receiver]
  cases reference <;> simp [eatMark, lifetime?, isLifetime, hColon]

theorem run_input {ps : List Piece} {found : Input} {tokens rest : List Token} {fuel : Nat}
    (h : InputForm ps found) (hSpelled : Spelled ps tokens) (hFuel : 16 * countAll tokens ≤ fuel)
    (hClear : clear [':', '<'] [.parenthesis] rest = true) :
    tokens ≠ [] ∧ input fuel (tokens ++ rest) = some (found, rest) := by
  have hColon : clear [':'] [] rest = true := clear_mono hClear (by simp) (by simp)
  cases h with
  | byValue =>
    obtain ⟨back, rfl, rfl⟩ := spelled_word hSpelled
    have hRun : receiver fuel (.word "self" :: rest) = _ := @run_receiver false false rest fuel hColon
    refine ⟨List.cons_ne_nil _ _, ?_⟩
    rw [input]
    simp [hRun]
  | byReference =>
    obtain ⟨joined, back, rfl, hBack⟩ := spelled_one '&' rfl hSpelled
    obtain ⟨back, rfl, rfl⟩ := spelled_word hBack
    have hRun : receiver fuel (.mark '&' joined :: .word "self" :: rest) = _ :=
      @run_receiver true joined rest fuel hColon
    refine ⟨List.cons_ne_nil _ _, ?_⟩
    rw [input]
    simp [hRun]
  | typed hName hType =>
    obtain ⟨back, rfl, hBack⟩ := spelled_word hSpelled
    obtain ⟨joined, back, rfl, hMore⟩ := spelled_one ':' rfl hBack
    simp only [countAll_word, countAll_mark] at hFuel
    obtain ⟨fuel, rfl⟩ : ∃ f, fuel = f + 2 := ⟨fuel - 2, by omega⟩
    have hParsed := parsed_of_typeForm hType hMore (fuel + 2) true rest (by omega) hClear
    have hNext := afterMarks_of_clear (clear_of_typeForm hType hMore rest) (c := ':') rfl []
    have hPattern := @run_pattern_colon _ joined _ fuel (Bool.and_eq_true_iff.mp hName).2 hNext
    refine ⟨List.cons_ne_nil _ _, ?_⟩
    rw [List.cons_append, List.cons_append, input]
    simp [run_receiver_none hName, hPattern, mark, hParsed]

/-- The parser takes the arguments of a function. -/
theorem parsed_inputs {ps : List Piece} {inputs : List Input} (h : InputsForm ps inputs) :
    ∀ {tokens : List Token}, Spelled ps tokens → ∀ n fuel, tokens.length < n →
      16 * countAll tokens ≤ fuel →
      tokens ≠ [] ∧ ∃ ended, commasUpTo (input fuel) n tokens = some ((inputs, ended), []) := by
  induction h with
  | last h =>
    intro tokens hSpelled n fuel hLength hFuel
    obtain ⟨n, rfl⟩ : ∃ m, n = m + 1 := ⟨n - 1, by omega⟩
    obtain ⟨hNe, hRun⟩ := @run_input _ _ _ [] _ h hSpelled hFuel rfl
    rw [List.append_nil] at hRun
    exact ⟨hNe, false, run_commasUpTo_last hNe hRun n⟩
  | ended h =>
    intro tokens hSpelled n fuel hLength hFuel
    obtain ⟨front, back, rfl, hFront, hBack⟩ := spelled_append hSpelled
    obtain ⟨joined, back, rfl, rfl⟩ := spelled_one ',' rfl hBack
    simp only [countAll_append] at hFuel
    obtain ⟨n, rfl⟩ : ∃ m, n = m + 1 := ⟨n - 1, by omega⟩
    obtain ⟨-, hRun⟩ := @run_input _ _ _ [.mark ',' joined] _ h hFront
      (show _ ≤ fuel by omega) rfl
    exact ⟨by simp, true, run_commasUpTo_ended (by simp) hRun n⟩
  | cons h _ ih =>
    intro tokens hSpelled n fuel hLength hFuel
    obtain ⟨front, back, rfl, hFront, hBack⟩ := spelled_append hSpelled
    obtain ⟨joined, back, rfl, hMore⟩ := spelled_one ',' rfl hBack
    simp only [countAll_append, countAll_mark, List.length_append, List.length_cons] at hFuel hLength
    obtain ⟨n, rfl⟩ : ∃ m, n = m + 1 := ⟨n - 1, by omega⟩
    obtain ⟨-, hRun⟩ := @run_input _ _ _ (.mark ',' joined :: back) _ h hFront
      (show _ ≤ fuel by omega) rfl
    obtain ⟨hNe, ended, hRest⟩ := ih hMore n fuel (by omega) (by omega)
    exact ⟨by simp, ended, run_commasUpTo_cons (by simp) hRun hNe hRest⟩

theorem run_parameter {name : String} {ps : List Piece} {bounds : List Bound} {tokens rest : List Token}
    {joined : Bool} {fuel : Nat} (hName : isDeclarable name = true) (h : TypeForm ps (.bounds bounds))
    (hSpelled : Spelled ps tokens) (hFuel : 16 * countAll tokens + 8 ≤ fuel)
    (hClear : clear [':', '<', '+', '='] [.parenthesis] rest = true) :
    parameter fuel (.word name :: .mark ':' joined :: (tokens ++ rest))
      = some (.type name bounds none, rest) := by
  have hEqual : afterMarks ['='] rest = none := afterMarks_of_clear hClear rfl []
  have hBounds := parsed_of_typeForm h hSpelled fuel rest (by omega)
    (clear_mono hClear (by simp) (by simp))
  have hConst := run_eatWord_false
    (@isThatWord_of_isDeclarable _ "const" hName rfl (.mark ':' joined :: (tokens ++ rest)))
  rw [parameter]
  simp [isLifetime, hConst, run_name (Bool.and_eq_true_iff.mp hName).2, boundsAfterColon, eatMark,
    hBounds, hEqual]

/-- The parser takes the generic parameters of a function. -/
theorem parsed_parameters {ps : List Piece} {found : List Parameter} {tokens rest : List Token}
    {fuel : Nat} (h : ParametersForm ps found) (hSpelled : Spelled ps tokens)
    (hFuel : 16 * countAll tokens ≤ fuel) (hClear : clear ['<'] [] rest = true) :
    parameters fuel (tokens ++ rest) = some (found, rest) := by
  cases h with
  | nil =>
    cases hSpelled
    have hAngle : afterMarks ['<'] rest = none := afterMarks_of_clear hClear rfl []
    rw [List.nil_append, parameters]
    simp [eatMark, hAngle]
  | last hName hBounds =>
    obtain ⟨first, back, rfl, hWord⟩ := spelled_one '<' rfl hSpelled
    obtain ⟨back, rfl, hColon⟩ := spelled_word hWord
    obtain ⟨second, back, rfl, hMore⟩ := spelled_one ':' rfl hColon
    obtain ⟨middle, back, rfl, hMiddle, hBack⟩ := spelled_append hMore
    obtain ⟨third, back, rfl, rfl⟩ := spelled_one '>' rfl hBack
    simp only [countAll_append, countAll_mark, countAll_word] at hFuel
    have hRun := @run_parameter _ _ _ _ (.mark '>' third :: rest) second fuel hName hBounds hMiddle
      (by omega) rfl
    rw [parameters]
    simp [eatMark, mark, commasBefore, commasBeforeUpTo, hRun]
  | ended hName hBounds =>
    obtain ⟨first, back, rfl, hWord⟩ := spelled_one '<' rfl hSpelled
    obtain ⟨back, rfl, hColon⟩ := spelled_word hWord
    obtain ⟨second, back, rfl, hMore⟩ := spelled_one ':' rfl hColon
    obtain ⟨middle, back, rfl, hMiddle, hBack⟩ := spelled_append hMore
    obtain ⟨third, back, rfl, hLast⟩ := spelled_one ',' rfl hBack
    obtain ⟨fourth, back, rfl, rfl⟩ := spelled_one '>' rfl hLast
    simp only [countAll_append, countAll_mark, countAll_word] at hFuel
    have hRun := @run_parameter _ _ _ _ (.mark ',' third :: .mark '>' fourth :: rest) second fuel hName
      hBounds hMiddle (by omega) rfl
    rw [parameters]
    simp [eatMark, mark, commasBefore, commasBeforeUpTo, hRun]

/-- The result of a function is either missing or a type behind an arrow. -/
theorem run_output {ps : List Piece} {found : Option Ty} {tokens rest : List Token} {fuel : Nat}
    (h : OutputForm ps found) (hSpelled : Spelled ps tokens) (hFuel : 16 * countAll tokens ≤ fuel)
    (hClear : clear ['-', ':', '<', '+'] [.parenthesis] rest = true) :
    found = none ∧ eatMark "->" (tokens ++ rest) = some (false, rest)
      ∨ ∃ type more, found = some type ∧ eatMark "->" (tokens ++ rest) = some (true, more)
        ∧ ty fuel true more = some (type, rest) := by
  cases h with
  | none =>
    cases hSpelled
    have hArrow := afterMarks_of_clear hClear (c := '-') rfl
    exact .inl ⟨rfl, run_eatMark_none (hArrow _)⟩
  | some hType =>
    obtain ⟨joined, back, rfl, hBack⟩ := spelled_two '-' '>' rfl hSpelled
    simp only [countAll_mark] at hFuel
    have hParsed := parsed_of_typeForm hType hBack fuel rest (by omega)
      (clear_mono hClear (by simp) (by simp))
    exact .inr ⟨_, _, rfl, run_eatMark_some (by simp), hParsed⟩

theorem run_qualifiers (rest : List Token) :
    qualifiers 5 (.word "fn" :: rest) = some ([], .word "fn" :: rest) := by
  rw [qualifiers]
  simp

/-- The parser takes the head of a function. -/
theorem parsed_signature {ps : List Piece} {found : Signature} {tokens rest : List Token} {fuel : Nat}
    (h : SignatureForm ps found) (hSpelled : Spelled ps tokens) (hFuel : 16 * countAll tokens ≤ fuel)
    (hClear : clear ['-', ':', '<', '+'] [.parenthesis] rest = true) :
    signature fuel (tokens ++ rest) = some (found, rest) := by
  cases h with
  | mk hName hParameters hInputs hOutput =>
    obtain ⟨back, rfl, hWord⟩ := spelled_word hSpelled
    obtain ⟨back, rfl, hMore⟩ := spelled_word hWord
    obtain ⟨front, back, rfl, hFront, hGroup⟩ := spelled_append hMore
    obtain ⟨inner, back, rfl, hInner, hBack⟩ := spelled_group hGroup
    simp only [countAll_append, countAll_word, countAll_group] at hFuel
    obtain ⟨-, ended, hCommas⟩ := parsed_inputs hInputs hInner (inner.length + 1) fuel (by omega)
      (by omega)
    have hCommas : commas (input fuel) inner = _ := hCommas
    have hFirst := @parsed_parameters _ _ _ (.group .parenthesis inner :: (back ++ rest)) fuel
      hParameters hFront (by omega) rfl
    have hLast := @run_output _ _ _ rest fuel hOutput hBack (by omega) hClear
    rw [List.cons_append, List.cons_append, List.append_assoc, List.cons_append, signature]
    simp only [run_bind, run_qualifiers, run_word, run_name (Bool.and_eq_true_iff.mp hName).2, hFirst,
      run_inGroup hCommas, andThen_some]
    rcases hLast with ⟨rfl, hArrow⟩ | ⟨type, more, rfl, hArrow, hType⟩
    · simp [hArrow]
    · simp [hArrow, hType]

/-! ## Functions -/

/-- What stands in front of an item is taken up to the word that the item begins with. -/
theorem run_lead {ps qs : List Piece} {attributes : List Attribute} {found : Visibility}
    {front middle rest : List Token} {name : String} (hAttributes : AttributesForm ps attributes)
    (hFront : Spelled ps front) (hVisibility : VisibilityForm qs found) (hMiddle : Spelled qs middle)
    (hName : name ≠ "pub") :
    ∃ attributes, AttributesForm ps attributes
      ∧ Parser.attributes (front ++ (middle ++ Token.word name :: rest))
        = some (attributes, middle ++ Token.word name :: rest)
      ∧ visibility (middle ++ Token.word name :: rest) = some (found, .word name :: rest) := by
  have hClear : clear ['#'] [] (middle ++ Token.word name :: rest) = true := by
    cases hVisibility with
    | inherited =>
      cases hMiddle
      rfl
    | everyone =>
      obtain ⟨back, rfl, rfl⟩ := spelled_word hMiddle
      rfl
  obtain ⟨attributes, hFound, hRun⟩ := run_attributes hAttributes hFront hClear
  refine ⟨attributes, hFound, hRun, ?_⟩
  apply run_visibility hVisibility hMiddle _ rfl
  rw [isThatWord, beq_eq_false_iff_ne]
  exact hName

theorem run_function {ps qs : List Piece} {attributes : List Attribute} {visibility : Visibility}
    {found : Signature} {inner : Option (List Stmt)} {front back rest : List Token} {fuel : Nat}
    (hSignature : SignatureForm ps found) (hFront : Spelled ps front) (hBody : BodyForm qs inner)
    (hBack : Spelled qs back) (hFuel : 16 * countAll (front ++ back) ≤ fuel) :
    function fuel attributes visibility (front ++ (back ++ rest))
      = some (⟨attributes, visibility, found, inner⟩, rest) := by
  rw [countAll_append] at hFuel
  cases hBody with
  | declared =>
    obtain ⟨joined, back, rfl, rfl⟩ := spelled_one ';' rfl hBack
    have hHead := @parsed_signature _ _ _ (.mark ';' joined :: rest) fuel hSignature hFront (by omega)
      rfl
    rw [function]
    simp [hHead, eatMark]
  | defined hStatements =>
    obtain ⟨within, back, rfl, hWithin, rfl⟩ := spelled_group hBack
    have hHead := @parsed_signature _ _ _ (.group .brace within :: rest) fuel hSignature hFront
      (by omega) rfl
    simp only [countAll_group, countAll_nil] at hFuel
    obtain ⟨fuel, rfl⟩ : ∃ f, fuel = f + 1 := ⟨fuel - 1, by omega⟩
    have hParsed := parsed_of_exprForm hStatements hWithin fuel (by omega)
    rw [function]
    simp [hHead, eatMark, body, run_inGroup hParsed]

theorem signature_begins {ps : List Piece} {found : Signature} {tokens : List Token}
    (h : SignatureForm ps found) (hSpelled : Spelled ps tokens) :
    ∃ more, tokens = .word "fn" :: more := by
  cases h with
  | mk _ _ _ _ =>
    obtain ⟨back, rfl, -⟩ := spelled_word hSpelled
    exact ⟨back, rfl⟩

/-- The parser takes a function among items as it takes one inside a trait. -/
theorem parsed_function {ps : List Piece} {found : Function} {tokens rest : List Token} {fuel : Nat}
    (h : FunctionForm ps found) (hSpelled : Spelled ps tokens) (hFuel : 16 * countAll tokens ≤ fuel) :
    tokens ≠ [] ∧ ∃ found, FunctionForm ps found
      ∧ member fuel (tokens ++ rest) = some (.function found, rest)
      ∧ item (fuel + 1) (tokens ++ rest) = some (.function found, rest) := by
  cases h with
  | mk hAttributes hVisibility hSignature hBody =>
    obtain ⟨first, back, rfl, hFirst, hMore⟩ := spelled_append hSpelled
    obtain ⟨second, back, rfl, hSecond, hMore⟩ := spelled_append hMore
    obtain ⟨third, fourth, rfl, hThird, hFourth⟩ := spelled_append hMore
    rw [countAll_append, countAll_append] at hFuel
    obtain ⟨more, rfl⟩ := signature_begins hSignature hThird
    obtain ⟨attributes, hForm, hLead, hAccess⟩ := @run_lead _ _ _ _ first second
      (more ++ (fourth ++ rest)) "fn" hAttributes hFirst hVisibility hSecond (by decide)
    have hRun : ∀ attributes visibility, function fuel attributes visibility
        (.word "fn" :: (more ++ (fourth ++ rest))) = _ := fun attributes visibility =>
      @run_function _ _ attributes visibility _ _ _ _ rest fuel hSignature hThird hBody hFourth
        (by omega)
    have hHead : atSignature (.word "fn" :: (more ++ (fourth ++ rest)))
        = some (true, .word "fn" :: (more ++ (fourth ++ rest))) := by
      rw [atSignature, run_succeeds, run_qualifiers]
      rfl
    have hTokens : first ++ (second ++ (.word "fn" :: more ++ fourth)) ++ rest
        = first ++ (second ++ Token.word "fn" :: (more ++ (fourth ++ rest))) := by simp
    refine ⟨by simp, _, .mk hForm hVisibility hSignature hBody, ?_, ?_⟩
    · rw [hTokens, member]
      simp [hLead, hAccess, hHead, hRun]
    · rw [hTokens, item]
      simp [hLead, hAccess, hHead, hRun]

/-! ## Members -/

/-- The parser takes what stands inside a trait or an implementation. -/
theorem parsed_members {ps : List Piece} {members : List Member} (h : MembersForm ps members) :
    ∀ {tokens : List Token}, Spelled ps tokens → ∀ fuel, 16 * countAll tokens ≤ fuel →
      ∃ found, MembersForm ps found ∧ ∀ n, tokens.length < n →
        manyUpTo (member fuel) n tokens = some (found, []) := by
  induction h with
  | nil =>
    intro tokens hSpelled fuel _
    cases hSpelled
    exact ⟨[], .nil, run_manyUpTo_nil⟩
  | cons h _ ih =>
    intro tokens hSpelled fuel hFuel
    obtain ⟨front, back, rfl, hFront, hBack⟩ := spelled_append hSpelled
    rw [countAll_append] at hFuel
    obtain ⟨hNe, found, hFound, hMember, -⟩ := @parsed_function _ _ _ back fuel h hFront (by omega)
    obtain ⟨more, hMore, hRun⟩ := ih hBack fuel (by omega)
    exact ⟨_, .cons hFound hMore, run_manyUpTo_cons (by simp [List.length_pos_iff, hNe]) hMember hRun⟩

/-! ## Items -/

theorem run_atSignature_false {name : String} {rest : List Token}
    (hName : ["fn", "extern", "const", "async", "unsafe"].contains name = false) :
    atSignature (.word name :: rest) = some (false, .word name :: rest) := by
  simp only [List.contains_eq_mem, List.mem_cons, List.not_mem_nil, or_false, decide_eq_false_iff_not,
    not_or] at hName
  obtain ⟨hFn, hExtern, hConst, hAsync, hUnsafe⟩ := hName
  rw [atSignature, run_succeeds, qualifiers]
  simp [hFn, hExtern, hConst, hAsync, hUnsafe]

theorem run_atSignature_const {name : String} {rest : List Token} (hName : isDeclarable name = true) :
    atSignature (.word "const" :: .word name :: rest)
      = some (false, .word "const" :: .word name :: rest) := by
  have hWord : ∀ other, isName other = false → name ≠ other :=
    fun _ hOther => ne_of_isName (Bool.and_eq_true_iff.mp hName).2 hOther
  have hNone : qualifiers 4 (.word name :: rest) = none := by
    rw [qualifiers]
    simp [hWord "fn" rfl, hWord "extern" rfl, hWord "const" rfl, hWord "async" rfl, hWord "unsafe" rfl]
  rw [atSignature, run_succeeds, qualifiers]
  simp [hNone]

theorem run_publicItem {ps : List Piece} {attributes : List Attribute} {front rest : List Token}
    {name : String} (hAttributes : AttributesForm ps attributes) (hFront : Spelled ps front)
    (hName : name ≠ "pub") :
    ∃ attributes, AttributesForm ps attributes
      ∧ Parser.attributes (front ++ Token.word "pub" :: .word name :: rest)
        = some (attributes, .word "pub" :: .word name :: rest)
      ∧ visibility (.word "pub" :: .word name :: rest) = some (.everyone, .word name :: rest) :=
  @run_lead _ [.word "pub"] _ _ front [.word "pub"] rest name hAttributes hFront .everyone
    ⟨[_], [], rfl, rfl, rfl⟩ hName

/-- The word that an item begins with, and the parser that takes such an item. -/
inductive ItemKind (fuel : Nat) (attributes : List Attribute) (access : Visibility) :
    String → Parser Item → Prop
  | use : ItemKind fuel attributes access "use" (Item.use <$> useItem fuel attributes access)
  | struct : ItemKind fuel attributes access "struct" (structItem fuel attributes access)
  | enum : ItemKind fuel attributes access "enum" (enumItem fuel attributes access)
  | trait : ItemKind fuel attributes access "trait" (traitItem fuel attributes access)
  | constant : ItemKind fuel attributes access "const" (constant fuel attributes access >>= fun found =>
      if found.value.isNone then fail else pure (.constant found))
  | impl (hAccess : access = .inherited) :
      ItemKind fuel attributes access "impl" (implementation fuel attributes)

theorem run_item {tokens middle rest : List Token} {attributes : List Attribute} {access : Visibility}
    {name : String} {p : Parser Item} {fuel : Nat} (hKind : ItemKind fuel attributes access name p)
    (hLead : Parser.attributes tokens = some (attributes, middle))
    (hAccess : visibility middle = some (access, .word name :: rest))
    (hSignature : atSignature (.word name :: rest) = some (false, .word name :: rest)) :
    item (fuel + 1) tokens = p (.word name :: rest) := by
  rw [item]
  cases hKind with
  | use => simp [hLead, hAccess, hSignature, Option.map_eq_bind, andThen]
  | impl hInherited => simp [hLead, hAccess, hSignature, hInherited]
  | _ => simp [hLead, hAccess, hSignature]

/-- Whether the parser takes these tokens as an item that is written so, and stops behind it. -/
def ItemParsed (ps : List Piece) (tokens : List Token) : Prop :=
  tokens ≠ [] ∧ ∀ fuel rest, 16 * countAll tokens ≤ fuel →
    ∃ found, ItemForm ps found ∧ item (fuel + 1) (tokens ++ rest) = some (found, rest)

theorem use_clear {ps : List Piece} {tree : UseTree} {tokens : List Token}
    (h : UseForm ps (.tree tree)) (hSpelled : Spelled ps tokens) (rest : List Token) :
    clear [':'] [] (tokens ++ rest) = true := by
  cases h with
  | group _ =>
    obtain ⟨inner, back, rfl, -, -⟩ := spelled_group hSpelled
    rfl
  | _ =>
    obtain ⟨back, rfl, -⟩ := spelled_word hSpelled
    rfl

theorem parsed_use {ps qs : List Piece} {found : Visibility} {tree : UseTree} {tokens : List Token}
    (hVisibility : VisibilityForm ps found) (hTree : UseForm qs (.tree tree))
    (hSpelled : Spelled (ps ++ Piece.word "use" :: (qs ++ [Piece.mark ";"])) tokens) :
    ItemParsed (ps ++ Piece.word "use" :: (qs ++ [Piece.mark ";"])) tokens := by
  obtain ⟨first, back, rfl, hFirst, hUse⟩ := spelled_append hSpelled
  obtain ⟨back, rfl, hMore⟩ := spelled_word hUse
  obtain ⟨middle, back, rfl, hMiddle, hLast⟩ := spelled_append hMore
  obtain ⟨joined, back, rfl, rfl⟩ := spelled_one ';' rfl hLast
  refine ⟨by simp, ?_⟩
  intro fuel rest hFuel
  simp only [countAll_append, countAll_word, countAll_mark] at hFuel
  obtain ⟨attributes, hForm, hLead, hAccess⟩ := @run_lead [] _ [] _ [] first
    (middle ++ Token.mark ';' joined :: rest) "use" .nil rfl hVisibility hFirst (by decide)
  have hSignature := @run_atSignature_false "use" (middle ++ Token.mark ';' joined :: rest) rfl
  have hRun := parsed_of_useForm hTree hMiddle fuel (.mark ';' joined :: rest) (by omega) rfl rfl
  have hRoot : afterMarks [':', ':'] (middle ++ Token.mark ';' joined :: rest) = none :=
    afterMarks_of_clear (use_clear hTree hMiddle _) rfl _
  cases hForm with
  | nil =>
    rw [List.nil_append] at hLead
    refine ⟨_, .use hVisibility hTree, ?_⟩
    simp [run_item .use hLead hAccess hSignature, useItem, eatMark, hRoot, hRun, mark]

/-- A public item is taken if the parser of its kind takes what stands behind `pub`. -/
theorem parsed_publicItem {ps last : List Piece} {attributes : List Attribute} {kind : String}
    {parser : Nat → List Attribute → Parser Item} {tokens : List Token}
    (hAttributes : AttributesForm ps attributes) (hPub : kind ≠ "pub")
    (hKind : ∀ fuel attributes, ItemKind fuel attributes .everyone kind (parser fuel attributes))
    (hLast : ∀ {back}, Spelled last back → ∀ fuel rest, 16 * countAll back ≤ fuel →
      atSignature (.word kind :: (back ++ rest)) = some (false, .word kind :: (back ++ rest))
        ∧ ∀ {attributes}, AttributesForm ps attributes → ∃ found,
          ItemForm (ps ++ .word "pub" :: .word kind :: last) found
            ∧ parser fuel attributes (.word kind :: (back ++ rest)) = some (found, rest))
    (hSpelled : Spelled (ps ++ .word "pub" :: .word kind :: last) tokens) :
    ItemParsed (ps ++ .word "pub" :: .word kind :: last) tokens := by
  obtain ⟨front, back, rfl, hFront, hWord⟩ := spelled_append hSpelled
  obtain ⟨back, rfl, hKindWord⟩ := spelled_word hWord
  obtain ⟨back, rfl, hBack⟩ := spelled_word hKindWord
  refine ⟨by simp, ?_⟩
  intro fuel rest hFuel
  simp only [countAll_append, countAll_word] at hFuel
  obtain ⟨hSignature, hParser⟩ := hLast hBack fuel rest (by omega)
  obtain ⟨attributes, hForm, hLead, hAccess⟩ := @run_publicItem _ _ _ (back ++ rest) _ hAttributes hFront hPub
  obtain ⟨found, hFound, hRun⟩ := hParser hForm
  refine ⟨found, hFound, ?_⟩
  rw [List.append_assoc, List.cons_append, List.cons_append, run_item (hKind fuel _) hLead hAccess hSignature, hRun]

section

variable {ps qs rs : List Piece} {attributes : List Attribute} {name : String} {tokens : List Token}

theorem parsed_struct {fields : List FieldItem} (hAttributes : AttributesForm ps attributes)
    (hName : isDeclarable name = true) (hFields : FieldsForm qs fields)
    (hSpelled : Spelled (ps ++ [Piece.word "pub", .word "struct", .word name, .group .brace qs]) tokens) :
    ItemParsed (ps ++ [Piece.word "pub", .word "struct", .word name, .group .brace qs]) tokens := by
  refine parsed_publicItem hAttributes (by decide) (fun _ _ => .struct) ?_ hSpelled
  intro back hBack fuel rest hFuel
  obtain ⟨back, rfl, hGroup⟩ := spelled_word hBack
  obtain ⟨inner, back, rfl, hInner, rfl⟩ := spelled_group hGroup
  simp only [countAll_word, countAll_group, countAll_nil] at hFuel
  obtain ⟨fields, hFound, hRun⟩ := parsed_fields hFields hInner fuel (by omega)
  obtain ⟨ended, hRun⟩ : ∃ ended, commas (namedField fuel) inner = _ := hRun _ (Nat.lt_succ_self _)
  refine ⟨run_atSignature_false rfl, fun hForm => ⟨_, .struct hForm hName hFound, ?_⟩⟩
  simp [structItem, run_name (Bool.and_eq_true_iff.mp hName).2, parameters, eatMark, fieldItems, run_inGroup hRun]

theorem parsed_newtype {field : FieldItem} (hAttributes : AttributesForm ps attributes)
    (hName : isDeclarable name = true) (hField : PlacesForm qs field)
    (hSpelled : Spelled
      (ps ++ [Piece.word "pub", .word "struct", .word name, .group .parenthesis qs, .mark ";"]) tokens) :
    ItemParsed (ps ++ [Piece.word "pub", .word "struct", .word name, .group .parenthesis qs, .mark ";"])
      tokens := by
  refine parsed_publicItem hAttributes (by decide) (fun _ _ => .struct) ?_ hSpelled
  intro back hBack fuel rest hFuel
  obtain ⟨back, rfl, hGroup⟩ := spelled_word hBack
  obtain ⟨inner, back, rfl, hInner, hLast⟩ := spelled_group hGroup
  obtain ⟨joined, back, rfl, rfl⟩ := spelled_one ';' rfl hLast
  simp only [countAll_word, countAll_group] at hFuel
  obtain ⟨ended, hRun⟩ := @run_places _ _ _ fuel hField hInner (by omega)
  refine ⟨run_atSignature_false rfl, fun hForm => ⟨_, .newtype hForm hName hField, ?_⟩⟩
  simp [structItem, run_name (Bool.and_eq_true_iff.mp hName).2, parameters, eatMark, fieldItems, run_inGroup hRun,
    mark]

theorem parsed_constant {type : Ty} {value : Expr} (hAttributes : AttributesForm ps attributes)
    (hName : isDeclarable name = true) (hType : TypeForm qs (.type type))
    (hValue : ExprForm rs (.value value))
    (hSpelled : Spelled (ps ++ Piece.word "pub" :: .word "const" :: .word name :: .mark ":"
      :: (qs ++ Piece.mark "=" :: (rs ++ [Piece.mark ";"]))) tokens) :
    ItemParsed (ps ++ Piece.word "pub" :: .word "const" :: .word name :: .mark ":"
      :: (qs ++ Piece.mark "=" :: (rs ++ [Piece.mark ";"]))) tokens := by
  refine parsed_publicItem hAttributes (by decide) (fun _ _ => .constant) ?_ hSpelled
  intro back hBack fuel rest hFuel
  obtain ⟨back, rfl, hColon⟩ := spelled_word hBack
  obtain ⟨colon, back, rfl, hMore⟩ := spelled_one ':' rfl hColon
  obtain ⟨first, back, rfl, hFirst, hEqual⟩ := spelled_append hMore
  obtain ⟨equal, back, rfl, hValueEnd⟩ := spelled_one '=' rfl hEqual
  obtain ⟨second, back, rfl, hSecond, hLast⟩ := spelled_append hValueEnd
  obtain ⟨ending, back, rfl, rfl⟩ := spelled_one ';' rfl hLast
  simp only [countAll_append, countAll_word, countAll_mark] at hFuel
  have hFound := parsed_of_typeForm hType hFirst fuel true
    (.mark '=' equal :: (second ++ Token.mark ';' ending :: rest)) (by omega) rfl
  have hResult := parsed_of_exprForm hValue hSecond fuel true (.mark ';' ending :: rest) (by omega) rfl
  have hUnderscore : name ≠ "_" := ne_of_isName (Bool.and_eq_true_iff.mp hName).2 rfl
  refine ⟨run_atSignature_const hName, fun hForm => ⟨_, .constant hForm hName hType hValue, ?_⟩⟩
  simp [constant, hUnderscore, run_name (Bool.and_eq_true_iff.mp hName).2, mark, hFound, eatMark, hResult]

theorem parsed_enum {variants : List Variant} (hAttributes : AttributesForm ps attributes)
    (hName : isDeclarable name = true) (hVariants : VariantsForm qs variants)
    (hSpelled : Spelled (ps ++ [Piece.word "pub", .word "enum", .word name, .group .brace qs]) tokens) :
    ItemParsed (ps ++ [Piece.word "pub", .word "enum", .word name, .group .brace qs]) tokens := by
  refine parsed_publicItem hAttributes (by decide) (fun _ _ => .enum) ?_ hSpelled
  intro back hBack fuel rest hFuel
  obtain ⟨back, rfl, hGroup⟩ := spelled_word hBack
  obtain ⟨inner, back, rfl, hInner, rfl⟩ := spelled_group hGroup
  simp only [countAll_word, countAll_group, countAll_nil] at hFuel
  obtain ⟨variants, hFound, hRun⟩ := parsed_variants hVariants hInner fuel (by omega)
  obtain ⟨ended, hRun⟩ : ∃ ended, commas (variant fuel) inner = _ := hRun _ (Nat.lt_succ_self _)
  refine ⟨run_atSignature_false rfl, fun hForm => ⟨_, .enum hForm hName hFound, ?_⟩⟩
  simp [enumItem, run_name (Bool.and_eq_true_iff.mp hName).2, parameters, eatMark, run_inGroup hRun]

theorem parsed_trait {found : List Bound} {members : List Member}
    (hAttributes : AttributesForm ps attributes) (hName : isDeclarable name = true)
    (hBounds : TypeForm qs (.bounds found)) (hMembers : MembersForm rs members)
    (hSpelled : Spelled (ps ++ Piece.word "pub" :: .word "trait" :: .word name :: .mark ":"
      :: (qs ++ [Piece.group .brace rs])) tokens) :
    ItemParsed (ps ++ Piece.word "pub" :: .word "trait" :: .word name :: .mark ":"
      :: (qs ++ [Piece.group .brace rs])) tokens := by
  refine parsed_publicItem hAttributes (by decide) (fun _ _ => .trait) ?_ hSpelled
  intro back hBack fuel rest hFuel
  obtain ⟨back, rfl, hColon⟩ := spelled_word hBack
  obtain ⟨colon, back, rfl, hMore⟩ := spelled_one ':' rfl hColon
  obtain ⟨middle, back, rfl, hMiddle, hGroup⟩ := spelled_append hMore
  obtain ⟨inner, back, rfl, hInner, rfl⟩ := spelled_group hGroup
  simp only [countAll_append, countAll_word, countAll_mark, countAll_group, countAll_nil] at hFuel
  have hSum := parsed_of_typeForm hBounds hMiddle fuel (.group .brace inner :: rest) (by omega) rfl
  obtain ⟨members, hFound, hRun⟩ := parsed_members hMembers hInner fuel (by omega)
  have hRun : many (member fuel) inner = _ := hRun _ (Nat.lt_succ_self _)
  refine ⟨run_atSignature_false rfl, fun hForm => ⟨_, .trait hForm hName hBounds hFound, ?_⟩⟩
  simp [traitItem, run_name (Bool.and_eq_true_iff.mp hName).2, parameters, eatMark, boundsAfterColon, hSum,
    run_inGroup hRun]

end

theorem parsed_impl {ps : List Piece} {name : String} {members : List Member} {tokens : List Token}
    (hName : isDeclarable name = true) (hMembers : MembersForm ps members)
    (hSpelled : Spelled [.word "impl", .word name, .group .brace ps] tokens) :
    ItemParsed [.word "impl", .word name, .group .brace ps] tokens := by
  obtain ⟨back, rfl, hWord⟩ := spelled_word hSpelled
  obtain ⟨back, rfl, hGroup⟩ := spelled_word hWord
  obtain ⟨inner, back, rfl, hInner, rfl⟩ := spelled_group hGroup
  refine ⟨by simp, ?_⟩
  intro fuel rest hFuel
  simp only [countAll_word, countAll_group, countAll_nil] at hFuel
  obtain ⟨attributes, hForm, hLead, hAccess⟩ := @run_lead [] _ [] _ [] []
    (.word name :: .group .brace inner :: rest) "impl" .nil rfl .inherited rfl (by decide)
  have hSignature := @run_atSignature_false "impl" (.word name :: .group .brace inner :: rest) rfl
  have hTarget := @run_ty_name _ fuel false (.group .brace inner :: rest)
    (isSegment_of_isDeclarable hName) (by omega) rfl
  obtain ⟨members, hFound, hRun⟩ := parsed_members hMembers hInner fuel (by omega)
  have hRun : many (member fuel) inner = _ := hRun _ (Nat.lt_succ_self _)
  cases hForm with
  | nil =>
    rw [List.nil_append, List.nil_append] at hLead
    rw [List.nil_append] at hAccess
    refine ⟨_, .impl hName hFound, ?_⟩
    simp [run_item (.impl rfl) hLead hAccess hSignature, implementation, parameters, eatMark,
      hTarget, run_inGroup hRun, Path.ofName]

/-- The parser takes an item and stops behind it. -/
theorem parsed_of_itemForm {ps : List Piece} {found : Item} {tokens : List Token}
    (h : ItemForm ps found) (hSpelled : Spelled ps tokens) : ItemParsed ps tokens := by
  cases h with
  | use hVisibility hTree => exact parsed_use hVisibility hTree hSpelled
  | struct hAttributes hName hFields => exact parsed_struct hAttributes hName hFields hSpelled
  | newtype hAttributes hName hField => exact parsed_newtype hAttributes hName hField hSpelled
  | constant hAttributes hName hType hValue =>
    exact parsed_constant hAttributes hName hType hValue hSpelled
  | enum hAttributes hName hVariants => exact parsed_enum hAttributes hName hVariants hSpelled
  | impl hName hMembers => exact parsed_impl hName hMembers hSpelled
  | trait hAttributes hName hBounds hMembers =>
    exact parsed_trait hAttributes hName hBounds hMembers hSpelled
  | function h =>
    refine ⟨(@parsed_function _ _ _ [] _ h hSpelled (Nat.le_refl _)).1, ?_⟩
    intro fuel rest hFuel
    obtain ⟨-, found, hFound, -, hRun⟩ := @parsed_function _ _ _ rest _ h hSpelled hFuel
    exact ⟨_, .function hFound, hRun⟩

/-- The parser takes the items of a file. -/
theorem parsed_items {ps : List Piece} {items : List Item} (h : ItemsForm ps items) :
    ∀ {tokens : List Token}, Spelled ps tokens → ∀ fuel, 16 * countAll tokens ≤ fuel →
      ∃ found, ItemsForm ps found ∧ ∀ n, tokens.length < n →
        manyUpTo (item (fuel + 1)) n tokens = some (found, []) := by
  induction h with
  | nil =>
    intro tokens hSpelled fuel _
    cases hSpelled
    exact ⟨[], .nil, run_manyUpTo_nil⟩
  | cons h _ ih =>
    intro tokens hSpelled fuel hFuel
    obtain ⟨front, back, rfl, hFront, hBack⟩ := spelled_append hSpelled
    rw [countAll_append] at hFuel
    obtain ⟨hNe, hParsed⟩ := parsed_of_itemForm h hFront
    obtain ⟨found, hFound, hItem⟩ := hParsed fuel back (by omega)
    obtain ⟨more, hMore, hRun⟩ := ih hBack fuel (by omega)
    exact ⟨_, .cons hFound hMore, run_manyUpTo_cons (by simp [List.length_pos_iff, hNe]) hItem hRun⟩

/-! ## Files -/

def isInnerAttribute : List Token → Bool
  | .mark '#' _ :: .mark '!' _ :: _ => true
  | _ => false

theorem run_atInnerAttribute (tokens : List Token) :
    atInnerAttribute tokens = some (isInnerAttribute tokens, tokens) := by
  unfold atInnerAttribute isInnerAttribute
  split <;> simp_all

theorem attributes_outer {ps : List Piece} {attributes : List Attribute} {tokens rest : List Token}
    (h : AttributesForm ps attributes) (hSpelled : Spelled ps tokens)
    (hRest : isInnerAttribute rest = false) : isInnerAttribute (tokens ++ rest) = false := by
  cases h with
  | nil =>
    cases hSpelled
    exact hRest
  | remark hOuter _ _ =>
    obtain ⟨back, rfl, -⟩ := spelled_remark hSpelled
    rw [DocComment.tokens, hOuter]
    rfl
  | list _ _ _ _ =>
    obtain ⟨joined, back, rfl, hGroup⟩ := spelled_one '#' rfl hSpelled
    obtain ⟨inner, back, rfl, -, -⟩ := spelled_group hGroup
    rfl

theorem lead_outer {ps qs : List Piece} {attributes : List Attribute} {found : Visibility}
    {front middle rest : List Token} {name : String} (hAttributes : AttributesForm ps attributes)
    (hFront : Spelled ps front) (hVisibility : VisibilityForm qs found) (hMiddle : Spelled qs middle) :
    isInnerAttribute (front ++ (middle ++ Token.word name :: rest)) = false := by
  apply attributes_outer hAttributes hFront
  cases hVisibility with
  | inherited =>
    cases hMiddle
    rfl
  | everyone =>
    obtain ⟨back, rfl, rfl⟩ := spelled_word hMiddle
    rfl

/-- An item does not begin as something that is said of its file. -/
theorem item_outer {ps : List Piece} {found : Item} {tokens : List Token} (h : ItemForm ps found)
    (hSpelled : Spelled ps tokens) (rest : List Token) : isInnerAttribute (tokens ++ rest) = false := by
  have hPublic : ∀ {ps qs : List Piece} {attributes : List Attribute} {tokens : List Token},
      AttributesForm ps attributes → Spelled (ps ++ Piece.word "pub" :: qs) tokens →
      isInnerAttribute (tokens ++ rest) = false := by
    intro ps qs attributes tokens hAttributes hSpelled
    obtain ⟨front, back, rfl, hFront, hPub⟩ := spelled_append hSpelled
    obtain ⟨back, rfl, -⟩ := spelled_word hPub
    rw [List.append_assoc]
    exact attributes_outer hAttributes hFront rfl
  cases h with
  | use hVisibility _ =>
    obtain ⟨front, back, rfl, hFront, hUse⟩ := spelled_append hSpelled
    obtain ⟨back, rfl, -⟩ := spelled_word hUse
    rw [List.append_assoc]
    exact lead_outer .nil rfl hVisibility hFront
  | impl _ _ =>
    obtain ⟨back, rfl, -⟩ := spelled_word hSpelled
    rfl
  | struct hAttributes _ _ => exact hPublic hAttributes hSpelled
  | newtype hAttributes _ _ => exact hPublic hAttributes hSpelled
  | constant hAttributes _ _ _ => exact hPublic hAttributes hSpelled
  | enum hAttributes _ _ => exact hPublic hAttributes hSpelled
  | trait hAttributes _ _ _ => exact hPublic hAttributes hSpelled
  | function h =>
    cases h with
    | mk hAttributes hVisibility hSignature _ =>
      obtain ⟨first, back, rfl, hFirst, hMore⟩ := spelled_append hSpelled
      obtain ⟨second, back, rfl, hSecond, hMore⟩ := spelled_append hMore
      obtain ⟨third, fourth, rfl, hThird, -⟩ := spelled_append hMore
      obtain ⟨more, rfl⟩ := signature_begins hSignature hThird
      rw [List.append_assoc, List.append_assoc, List.append_assoc, List.cons_append]
      exact lead_outer hAttributes hFirst hVisibility hSecond

theorem items_outer {ps : List Piece} {items : List Item} {tokens : List Token} (h : ItemsForm ps items)
    (hSpelled : Spelled ps tokens) : isInnerAttribute tokens = false := by
  cases h with
  | nil =>
    cases hSpelled
    rfl
  | cons h _ =>
    obtain ⟨front, back, rfl, hFront, -⟩ := spelled_append hSpelled
    exact item_outer h hFront back

/-- The parser takes the comments at the start of a file. -/
theorem parsed_remarks {ps : List Piece} {attributes : List Attribute} (h : RemarksForm ps attributes) :
    ∀ {tokens : List Token}, Spelled ps tokens → ∀ n rest, tokens.length ≤ n →
      isInnerAttribute rest = false →
      innerAttributesUpTo n (tokens ++ rest) = some (attributes, rest) := by
  induction h with
  | nil =>
    intro tokens hSpelled n rest _ hRest
    cases hSpelled
    cases n with
    | zero => rfl
    | succ n =>
      rw [List.nil_append, innerAttributesUpTo]
      simp [run_atInnerAttribute, hRest]
  | cons hInner _ _ ih =>
    intro tokens hSpelled n rest hLength hRest
    obtain ⟨back, rfl, hBack⟩ := spelled_remark hSpelled
    rw [DocComment.tokens, hInner] at hLength ⊢
    simp only [if_true, List.cons_append, List.nil_append, List.length_cons] at hLength ⊢
    obtain ⟨n, rfl⟩ : ∃ m, n = m + 1 := ⟨n - 1, by omega⟩
    have hMore := ih hBack n rest (by omega) hRest
    rw [innerAttributesUpTo]
    simp [run_atInnerAttribute, isInnerAttribute, mark, run_inGroup (run_remarkMeta _), hMore]

/-- The parser takes a whole file. -/
theorem parsed_file {ps : List Piece} {file : SourceFile} {tokens : List Token} (h : FileForm ps file)
    (hSpelled : Spelled ps tokens) :
    ∃ found, FileForm ps found ∧ found.attributes = file.attributes
      ∧ whole (Parser.file none) tokens = some found := by
  cases h with
  | mk hAttributes hItems =>
    obtain ⟨front, back, rfl, hFront, hBack⟩ := spelled_append hSpelled
    obtain ⟨fuel, hFuel⟩ : ∃ f, callLimit (front ++ back) = f + 1 :=
      ⟨callLimit (front ++ back) - 1, by rw [callLimit]; omega⟩
    have hLimit : 16 * countAll back ≤ fuel := by
      rw [callLimit, countAll_append] at hFuel
      omega
    have hLead : innerAttributes (front ++ back) = some (_, back) :=
      parsed_remarks hAttributes hFront _ back (by simp) (items_outer hItems hBack)
    obtain ⟨items, hFound, hRun⟩ := parsed_items hItems hBack fuel hLimit
    have hRun : many (item (fuel + 1)) back = _ := hRun _ (Nat.lt_succ_self _)
    refine ⟨_, .mk hAttributes hFound, rfl, ?_⟩
    rw [whole, Parser.file, hFuel, fileWith]
    simp [hLead, hRun]

/-- A text that consists of the lexemes of a file is read as one. The comments that it begins with keep
it apart from a text with a line for the system. -/
theorem parse_of_reads {text : String} {ps : List Piece} {file : SourceFile} (h : FileForm ps file)
    (hReads : Reads text.toList (lexemesOf ps)) (hSlash : text.toList.head? = some '/') :
    ∃ found, FileForm ps found ∧ found.attributes = file.attributes ∧ SourceFile.parse text = some found := by
  obtain ⟨tokens, hLex, hSpelled⟩ := lex_of_reads hReads
  obtain ⟨found, hFound, hAttributes, hWhole⟩ := parsed_file h hSpelled
  refine ⟨found, hFound, hAttributes, ?_⟩
  rw [SourceFile.parse]
  cases hText : text.toList with
  | nil =>
    rw [hText] at hSlash
    cases hSlash
  | cons c cs =>
    rw [hText] at hSlash hLex
    obtain rfl : c = '/' := Option.some.inj hSlash
    change (lex ('/' :: cs)).bind (whole (Parser.file none)) = some found
    rw [hLex]
    exact hWhole

end ProtoBind.Source
