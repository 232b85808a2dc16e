import ProtoBind.Proofs.UseTokens
import ProtoBind.Source.Format

/-!
# Items of use that the parser gives

What the parser makes of sound tokens is made of sound tokens again: each private item of use at the
start of a source file can be told from the text of its tokens.
-/

set_option autoImplicit false

namespace ProtoBind.Source

theorem AllSound.tail {token : Token} {rest : List Token} (h : AllSound (token :: rest)) : AllSound rest := h.2.2

theorem AllSound.drop {tokens : List Token} (h : AllSound tokens) (n : Nat) : AllSound (tokens.drop n) := by
  induction n generalizing tokens with
  | zero => exact h
  | succ n ih =>
    cases tokens with
    | nil => exact h
    | cons token rest => exact ih h.tail

namespace Parser

variable {α β : Type}

theorem bind_eq_some {p : Parser α} {f : α → Parser β} {b : β} {tokens rest : List Token}
    (h : (p >>= f) tokens = some (b, rest)) : ∃ a mid, p tokens = some (a, mid) ∧ f a mid = some (b, rest) := by
  obtain ⟨⟨a, mid⟩, hFound, hRest⟩ := Option.bind_eq_some_iff.mp h
  exact ⟨a, mid, hFound, hRest⟩

/-- Whether all that a parser gives for sound tokens has a property, with sound tokens left. -/
def Yields (p : Parser α) (P : α → Prop) : Prop :=
  ∀ ⦃tokens : List Token⦄ ⦃a : α⦄ ⦃rest : List Token⦄, AllSound tokens → p tokens = some (a, rest) →
    AllSound rest ∧ P a

namespace Yields

variable {p : Parser α} {P : α → Prop} {Q : β → Prop}

theorem bind {f : α → Parser β} (hP : Yields p P) (hF : ∀ a, P a → Yields (f a) Q) : Yields (p >>= f) Q := by
  intro tokens b rest hSound h
  obtain ⟨a, mid, hA, hB⟩ := bind_eq_some h
  obtain ⟨hMid, hPa⟩ := hP hSound hA
  exact hF a hPa hMid hB

theorem pure {a : α} (h : P a) : Yields (pure a) P := by
  intro tokens b rest hSound hPure
  cases hPure
  exact ⟨hSound, h⟩

theorem fail : Yields (fail : Parser α) P := fun _ _ _ _ h => by cases h

theorem ite {c : Prop} [Decidable c] {q : Parser α} (hP : Yields p P) (hQ : Yields q P) :
    Yields (if c then p else q) P := by
  split
  · exact hP
  · exact hQ

end Yields

theorem yields_peek : Yields peek fun next => ∀ token ∈ next, token.Sound := by
  intro tokens next rest hSound h
  cases h
  refine ⟨hSound, fun token hMem => ?_⟩
  cases tokens with
  | nil => cases hMem
  | cons token rest =>
    cases hMem
    exact hSound.1

theorem yields_atEnd : Yields atEnd fun _ => True := by
  intro tokens found rest hSound h
  cases h
  exact ⟨hSound, trivial⟩

theorem yields_atGroup (delimiter : Delimiter) : Yields (atGroup delimiter) fun _ => True := by
  intro tokens found rest hSound h
  unfold atGroup at h
  split at h <;> cases h <;> exact ⟨hSound, trivial⟩

theorem yields_atSignature : Yields atSignature fun _ => True := by
  intro tokens found rest hSound h
  cases h
  exact ⟨hSound, trivial⟩

theorem afterMarks_sound {marks : List Char} {tokens rest : List Token} (hSound : AllSound tokens)
    (h : afterMarks marks tokens = some rest) : AllSound rest := by
  fun_induction afterMarks marks tokens with
  | case1 =>
    cases h
    exact hSound
  | case2 =>
    cases h
    exact hSound.tail
  | case3 => cases h
  | case4 _ _ _ _ ih => exact ih hSound.tail h
  | case5 => cases h
  | case6 => cases h

theorem yields_mark (text : String) : Yields (mark text) fun _ => True := by
  intro tokens found rest hSound h
  obtain ⟨mid, hMarks, hPair⟩ := Option.map_eq_some_iff.mp h
  cases hPair
  exact ⟨afterMarks_sound hSound hMarks, trivial⟩

theorem yields_eatMark (text : String) : Yields (eatMark text) fun _ => True := by
  intro tokens found rest hSound h
  unfold eatMark at h
  split at h
  · rename_i hMarks
    cases h
    exact ⟨afterMarks_sound hSound hMarks, trivial⟩
  · cases h
    exact ⟨hSound, trivial⟩

theorem yields_word (name : String) : Yields (word name) fun _ => True := by
  intro tokens found rest hSound h
  unfold word at h
  split at h
  · split at h <;> cases h
    exact ⟨hSound.tail, trivial⟩
  · cases h

theorem yields_eatWord (name : String) : Yields (eatWord name) fun _ => True := by
  intro tokens found rest hSound h
  unfold eatWord at h
  split at h
  · split at h <;> cases h
    · exact ⟨hSound.tail, trivial⟩
    · exact ⟨hSound, trivial⟩
  · cases h
    exact ⟨hSound, trivial⟩

/-- Takes the first token where it is a word of some kind. -/
theorem yields_firstWord {p : Parser String} {allowed : String → Prop} [DecidablePred allowed]
    (hP : ∀ tokens, p tokens = match tokens with
      | .word found :: rest => if allowed found then some (found, rest) else none
      | _ => none) : Yields p fun found => (Token.word found).Sound := by
  intro tokens found rest hSound h
  rw [hP] at h
  split at h
  · split at h <;> cases h
    exact ⟨hSound.tail, hSound.1⟩
  · cases h

theorem yields_name : Yields name fun found => (Token.word found).Sound :=
  yields_firstWord fun _ => rfl

theorem yields_useName : Yields useName fun found => (Token.word found).Sound :=
  yields_firstWord fun _ => rfl

theorem yields_segmentName : Yields segmentName fun found => (Token.word found).Sound :=
  yields_firstWord fun _ => rfl

theorem yields_separated {p : Parser α} {P : α → Prop} (hP : Yields p P) (separator : String) :
    Yields (separated p separator) fun found => ∀ a ∈ found, P a := by
  have hUpTo : ∀ n, Yields (separatedUpTo p separator n) fun found => ∀ a ∈ found, P a := by
    intro n
    induction n with
    | zero => exact .fail
    | succ n ih =>
      refine .bind hP fun a hA => .bind (yields_eatMark separator) fun _ _ => .ite ?_ ?_
      · exact .bind ih fun more hMore => .pure (List.forall_mem_cons.mpr ⟨hA, hMore⟩)
      · exact .pure (List.forall_mem_singleton.mpr hA)
  exact fun tokens found rest hSound h => hUpTo _ hSound h

theorem yields_whole {p : Parser α} {P : α → Prop} (hP : Yields p P) {tokens : List Token} {a : α}
    (hSound : AllSound tokens) (h : whole p tokens = some a) : P a := by
  unfold whole at h
  split at h <;> cases h
  rename_i hRun
  exact (hP hSound hRun).2

theorem yields_inGroup {p : Parser α} {P : α → Prop} (hP : Yields p P) (delimiter : Delimiter) :
    Yields (inGroup delimiter p) P := by
  intro tokens found rest hSound h
  unfold inGroup at h
  split at h
  · split at h
    · obtain ⟨a, hWhole, hPair⟩ := Option.map_eq_some_iff.mp h
      cases hPair
      exact ⟨hSound.tail, yields_whole hP hSound.1 hWhole⟩
    · cases h
  · cases h

theorem yields_commas {p : Parser α} {P : α → Prop} (hP : Yields p P) :
    Yields (commas p) fun found => (∀ a ∈ found.1, P a) ∧ (found.1 = [] → found.2 = false) := by
  have hUpTo : ∀ n, Yields (commasUpTo p n)
      fun found => (∀ a ∈ found.1, P a) ∧ (found.1 = [] → found.2 = false) := by
    intro n
    have hNone : Yields (pure (([] : List α), false))
        fun found => (∀ a ∈ found.1, P a) ∧ (found.1 = [] → found.2 = false) :=
      .pure ⟨fun _ hMem => absurd hMem List.not_mem_nil, fun _ => rfl⟩
    have hOne : ∀ {a : α}, P a → ∀ ended, Yields (pure ([a], ended))
        fun found => (∀ a ∈ found.1, P a) ∧ (found.1 = [] → found.2 = false) :=
      fun hA ended => .pure ⟨List.forall_mem_singleton.mpr hA, fun hNil => by cases hNil⟩
    induction n with
    | zero => exact .bind yields_atEnd fun _ _ => .ite hNone .fail
    | succ n ih =>
      refine .bind yields_atEnd fun _ _ => .ite hNone (.bind hP fun a hA => .bind yields_atEnd fun _ _ => ?_)
      refine .ite (hOne hA false) (.bind (yields_mark ",") fun _ _ => .bind yields_atEnd fun _ _ => ?_)
      refine .ite (hOne hA true) (.bind ih fun found hFound => .pure ⟨List.forall_mem_cons.mpr ⟨hA, hFound.1⟩, ?_⟩)
      exact fun hNil => by cases hNil
  exact fun tokens found rest hSound h => hUpTo _ hSound h

theorem yields_plainPath : Yields plainPath Path.Plain :=
  .bind (yields_eatMark "::") fun _ _ => .bind (yields_separated yields_segmentName "::") fun names hNames =>
    .pure ⟨names, rfl, hNames⟩

/-- A value that is a word is one of two identifiers. -/
theorem valueToken_sound {text : String} (h : truthWords.contains text = true ∨ (Token.literal text).Sound) :
    (valueToken text).Sound := by
  have hAll : ∀ word ∈ truthWords, IdentifierText word.toList := by
    intro word hMem
    apply identifierText_of_name
    rcases List.mem_cons.mp hMem with rfl | hMem
    · decide
    · obtain rfl := List.mem_singleton.mp hMem
      decide
  unfold valueToken
  split
  · rename_i hTruth
    exact hAll text (List.elem_iff.mp hTruth)
  · rename_i hOther
    exact h.resolve_left hOther

theorem yields_value (path : Path) (hPath : path.Plain) : Yields (do
    match ← peek with
    | some (.word name) => if truthWords.contains name then return .value path (← anyWord) else fail
    | _ => return .value path (← literal)) Attribute.Proper := by
  intro tokens found rest hSound h
  obtain ⟨next, mid, hNext, h⟩ := bind_eq_some h
  cases hNext
  generalize hHead : tokens.head? = next at h
  split at h
  · rename_i name
    obtain ⟨rest, rfl⟩ : ∃ rest, tokens = .word name :: rest := by
      cases tokens <;> cases hHead
      exact ⟨_, rfl⟩
    rw [run_ite] at h
    split at h
    · rename_i hTruth
      cases h
      exact ⟨hSound.tail, hPath, valueToken_sound (.inl hTruth)⟩
    · cases h
  · obtain ⟨text, mid, hText, h⟩ := bind_eq_some h
    unfold literal at hText
    split at hText <;> cases hText
    cases h
    exact ⟨hSound.tail, hPath, valueToken_sound (.inr hSound.1)⟩

theorem yields_attributeMeta : Yields attributeMeta Attribute.Proper := by
  refine .bind yields_plainPath fun path hPath => .bind yields_peek fun next hNext => ?_
  split
  · rename_i delimiter inner
    intro tokens found rest hSound h
    cases h
    exact ⟨hSound.drop 1, hPath, hNext _ rfl⟩
  · exact .bind (yields_eatMark "=") fun _ _ => .ite (yields_value path hPath) (.pure hPath)

theorem yields_attributes : Yields attributes fun found => ∀ a ∈ found, a.Proper := by
  have hUpTo : ∀ n, Yields (attributesUpTo n) fun found => ∀ a ∈ found, a.Proper := by
    intro n
    have hNone : Yields (pure []) fun found : List Attribute => ∀ a ∈ found, a.Proper :=
      .pure fun _ hMem => absurd hMem List.not_mem_nil
    induction n with
    | zero => exact hNone
    | succ n ih =>
      refine .bind (yields_eatMark "#") fun _ _ => .ite ?_ hNone
      refine .bind (yields_inGroup yields_attributeMeta .bracket) fun first hFirst => ?_
      exact .bind ih fun more hMore => .pure (List.forall_mem_cons.mpr ⟨hFirst, hMore⟩)
  exact fun tokens found rest hSound h => hUpTo _ hSound h

theorem yields_innerAttributes : Yields innerAttributes fun _ => True := by
  have hUpTo : ∀ n, Yields (innerAttributesUpTo n) fun _ => True := by
    intro n
    induction n with
    | zero => exact .pure trivial
    | succ n ih =>
      refine .bind (P := fun _ => True) ?_ fun _ _ => .ite (.bind (yields_mark "#") fun _ _ => ?_) (.pure trivial)
      · intro tokens found rest hSound h
        unfold atInnerAttribute at h
        split at h <;> cases h <;> exact ⟨hSound, trivial⟩
      · refine .bind (yields_mark "!") fun _ _ => .bind (yields_inGroup yields_attributeMeta .bracket) fun _ _ => ?_
        exact .bind ih fun _ _ => .pure trivial
  exact fun tokens found rest hSound h => hUpTo _ hSound h

theorem yields_visibility : Yields visibility fun _ => True := by
  refine .bind (yields_eatWord "pub") fun _ _ => .ite (.bind yields_peek fun next _ => ?_) (.pure trivial)
  split
  · refine .ite ?_ (.pure trivial)
    intro tokens found rest hSound h
    cases h
    exact ⟨hSound.drop 1, trivial⟩
  · exact yields_inGroup (.bind (yields_word "in") fun _ _ => .bind yields_plainPath fun _ _ =>
      .pure trivial) .parenthesis
  · exact .pure trivial

theorem yields_useTree (fuel : Nat) : Yields (useTree fuel) UseTree.Proper := by
  have hAll : ∀ trees : List UseTree, (∀ tree ∈ trees, tree.Proper) → UseTree.AllProper trees := by
    intro trees hTrees
    induction trees with
    | nil => trivial
    | cons tree rest ih =>
      obtain ⟨hTree, hRest⟩ := List.forall_mem_cons.mp hTrees
      exact ⟨hTree, ih hRest⟩
  induction fuel with
  | zero => exact .fail
  | succ fuel ih =>
    refine .bind (yields_eatMark "*") fun _ _ => .ite (.pure trivial)
        (.bind (yields_atGroup .brace) fun _ _ => .ite ?_ ?_)
    · refine .bind (yields_inGroup (yields_commas ih) .brace) fun found hFound => .pure ?_
      exact ⟨hFound.2, hAll _ hFound.1⟩
    · refine .bind yields_useName fun n hName => .bind (yields_eatMark "::") fun _ _ => .ite ?_ ?_
      · exact .bind ih fun tree hTree => .pure ⟨hName, hTree⟩
      · refine .bind (yields_eatWord "as") fun _ _ => .ite (.bind (yields_eatWord "_") fun _ _ => .ite ?_ ?_)
          (.pure hName)
        · exact .pure ⟨hName, identifierText_of_name (by decide)⟩
        · exact .bind yields_name fun other hOther => .pure ⟨hName, hOther⟩

theorem yields_useItem (fuel : Nat) {attributes : List Attribute} (hAttributes : ∀ a ∈ attributes, a.Proper)
    (visibility : Visibility) : Yields (useItem fuel attributes visibility) UseItem.Proper :=
  .bind (yields_word "use") fun _ _ => .bind (yields_eatMark "::") fun _ _ =>
    .bind (yields_useTree fuel) fun _ hTree => .bind (yields_mark ";") fun _ _ => .pure ⟨hAttributes, hTree⟩

/-- Whether a parser gives no item of use. -/
def NoUse (p : Parser Item) : Prop :=
  ∀ ⦃tokens : List Token⦄ ⦃use : UseItem⦄ ⦃rest : List Token⦄, p tokens ≠ some (.use use, rest)

namespace NoUse

theorem bind {p : Parser α} {f : α → Parser Item} (hF : ∀ a, NoUse (f a)) : NoUse (p >>= f) := by
  intro tokens use rest h
  obtain ⟨a, mid, -, hA⟩ := bind_eq_some h
  exact hF a hA

theorem pure {item : Item} (h : ∀ use, item ≠ .use use) : NoUse (pure item) := by
  intro tokens use rest hPure
  cases hPure
  exact h use rfl

theorem fail : NoUse fail := fun _ _ _ h => by cases h

theorem ite {c : Prop} [Decidable c] {p q : Parser Item} (hP : NoUse p)
    (hQ : NoUse q) : NoUse (if c then p else q) := by
  split
  · exact hP
  · exact hQ

end NoUse

theorem noUse_structItem (fuel : Nat) (attributes : List Attribute) (visibility : Visibility) :
    NoUse (structItem fuel attributes visibility) := by
  refine .bind fun _ => .bind fun _ => .bind fun _ => .bind fun fields => ?_
  split
  · exact .pure fun _ hUse => by cases hUse
  · exact .bind fun _ => .pure fun _ hUse => by cases hUse

theorem noUse_enumItem (fuel : Nat) (attributes : List Attribute) (visibility : Visibility) :
    NoUse (enumItem fuel attributes visibility) :=
  .bind fun _ => .bind fun _ => .bind fun _ => .bind fun _ => .pure fun _ hUse => by cases hUse

theorem noUse_traitItem (fuel : Nat) (attributes : List Attribute) (visibility : Visibility) :
    NoUse (traitItem fuel attributes visibility) :=
  .bind fun _ => .bind fun _ => .bind fun _ => .bind fun _ => .bind fun _ => .bind fun _ =>
    .pure fun _ hUse => by cases hUse

theorem noUse_implementation (fuel : Nat) (attributes : List Attribute) : NoUse (implementation fuel attributes) := by
  refine .bind fun _ => .bind fun _ => .bind fun _ => .bind fun _ => .bind fun first => .bind fun _ => ?_
  refine .ite ?_ (.ite .fail ?_)
  · split
    · exact .bind fun _ => .bind fun _ => .pure fun _ hUse => by cases hUse
    · exact .fail
  · exact .bind fun _ => .pure fun _ hUse => by cases hUse

theorem noUse_externCrate (attributes : List Attribute) (visibility : Visibility) :
    NoUse (externCrate attributes visibility) := by
  have hEnd : ∀ name renamed, NoUse do
      mark ";"
      return .externCrate attributes visibility name renamed :=
    fun _ _ => .bind fun _ => .pure fun _ hUse => by cases hUse
  refine .bind fun _ => .bind fun _ => .bind fun _ => ?_
  dsimp only
  refine .ite (.bind fun name => ?_) (.bind fun name => ?_)
  all_goals
    refine .bind fun _ => .ite (.bind fun _ => .ite ?_ ?_) ?_
    all_goals exact .bind fun renamed => hEnd name renamed

/-- Whether what is left behind an item of use is sound, as the item is. -/
def YieldsUse (p : Parser Item) : Prop :=
  ∀ ⦃tokens : List Token⦄ ⦃use : UseItem⦄ ⦃rest : List Token⦄, AllSound tokens → p tokens = some (.use use, rest) →
    AllSound rest ∧ use.Proper

theorem NoUse.yieldsUse {p : Parser Item} (h : NoUse p) : YieldsUse p := fun _ _ _ _ hUse => (h hUse).elim

theorem Yields.thenUse {p : Parser α} {P : α → Prop} {f : α → Parser Item} (hP : Yields p P)
    (hF : ∀ a, P a → YieldsUse (f a)) : YieldsUse (p >>= f) := by
  intro tokens use rest hSound h
  obtain ⟨a, mid, hA, hUse⟩ := bind_eq_some h
  obtain ⟨hMid, hPa⟩ := hP hSound hA
  exact hF a hPa hMid hUse

/-- An item of use is read from sound tokens, with sound tokens left. -/
theorem yieldsUse_item (fuel : Nat) : YieldsUse (item fuel) := by
  cases fuel with
  | zero => exact NoUse.fail.yieldsUse
  | succ fuel =>
    refine yields_attributes.thenUse fun attributes hAttributes => yields_visibility.thenUse fun visibility _ => ?_
    refine yields_atSignature.thenUse fun isFunction _ => ?_
    split
    · exact NoUse.yieldsUse (.bind fun _ => .pure fun _ hUse => by cases hUse)
    refine yields_peek.thenUse fun next _ => ?_
    split
    · refine (yields_useItem fuel hAttributes visibility).thenUse fun use hUse => ?_
      intro tokens found rest hSound hPure
      cases hPure
      exact ⟨hSound, hUse⟩
    · exact (noUse_structItem fuel attributes visibility).yieldsUse
    · exact (noUse_enumItem fuel attributes visibility).yieldsUse
    · exact NoUse.yieldsUse (.bind fun _ => .ite .fail (.pure fun _ hUse => by cases hUse))
    · exact NoUse.yieldsUse (.bind fun _ => .ite .fail (.pure fun _ hUse => by cases hUse))
    · exact NoUse.yieldsUse (.bind fun _ => .ite .fail (.pure fun _ hUse => by cases hUse))
    · exact (noUse_traitItem fuel attributes visibility).yieldsUse
    · split
      · exact (noUse_implementation fuel attributes).yieldsUse
      · exact NoUse.fail.yieldsUse
    · refine NoUse.yieldsUse (.bind fun _ => .ite ?_ ?_)
      · exact noUse_traitItem fuel attributes visibility
      · exact noUse_implementation fuel attributes
    · exact (noUse_externCrate attributes visibility).yieldsUse
    · refine NoUse.yieldsUse (.bind fun _ => .bind fun _ => .bind fun _ => .ite ?_ (.bind fun _ => ?_))
      · exact .pure fun _ hUse => by cases hUse
      · exact .pure fun _ hUse => by cases hUse
    · exact NoUse.fail.yieldsUse

/-- The private items of use at the start of a file are read from sound tokens. -/
theorem many_uses {fuel : Nat} {tokens rest : List Token} {items : List Item} (hSound : AllSound tokens)
    (h : many (item fuel) tokens = some (items, rest)) :
    ∀ use, .use use ∈ emittedGrammar.leadingUses items → use.Proper := by
  have hUpTo : ∀ n {tokens : List Token} {items : List Item}, AllSound tokens →
      manyUpTo (item fuel) n tokens = some (items, rest) →
      ∀ use, .use use ∈ emittedGrammar.leadingUses items → use.Proper := by
    intro n
    induction n with
    | zero =>
      intro tokens items hSound h
      obtain ⟨isEnd, mid, hEnd, h⟩ := bind_eq_some h
      cases hEnd
      rw [run_ite] at h
      split at h <;> cases h
      exact fun _ hMem => absurd hMem List.not_mem_nil
    | succ n ih =>
      intro tokens items hSound h
      obtain ⟨isEnd, mid, hEnd, h⟩ := bind_eq_some h
      cases hEnd
      rw [run_ite] at h
      split at h
      · cases h
        exact fun _ hMem => absurd hMem List.not_mem_nil
      obtain ⟨first, mid, hFirst, h⟩ := bind_eq_some h
      obtain ⟨more, mid', hMore, h⟩ := bind_eq_some h
      cases h
      intro use hMem
      rw [Grammar.leadingUses, List.takeWhile_cons] at hMem
      split at hMem
      · rename_i hPrivate
        cases first with
        | use found =>
          obtain ⟨hMid, hFound⟩ := yieldsUse_item fuel hSound hFirst
          rcases List.mem_cons.mp hMem with hUse | hUse
          · rwa [Item.use.inj hUse]
          · exact ih hMid hMore use hUse
        | _ => cases hPrivate
      · cases hMem
  exact hUpTo _ hSound h

end Parser

/-- The private items of use at the start of a file that was parsed are known from their tokens. -/
theorem leadingUses_proper {text : String} {file : SourceFile} (h : SourceFile.parse text = some file) :
    ∀ use, .use use ∈ emittedGrammar.leadingUses file.items → use.Proper := by
  unfold SourceFile.parse at h
  dsimp only at h
  obtain ⟨tokens, hLex, hWhole⟩ := Option.bind_eq_some_iff.mp h
  unfold Parser.whole at hWhole
  split at hWhole <;> cases hWhole
  rename_i hFile
  obtain ⟨attributes, mid, hAttributes, hFile⟩ := Parser.bind_eq_some hFile
  obtain ⟨items, mid', hItems, hFile⟩ := Parser.bind_eq_some hFile
  cases hFile
  exact Parser.many_uses (Parser.yields_innerAttributes (lex_sound hLex) hAttributes).1 hItems

end ProtoBind.Source
