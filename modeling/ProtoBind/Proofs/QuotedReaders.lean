import ProtoBind.Proofs.Lexing

/-!
# How far quoted literals are read

The readers of quoted literals look at nothing behind what they take: whatever follows a literal, it is
read to the same place.
-/

set_option autoImplicit false

namespace ProtoBind.Source

open Text

/-- Whether a reader takes a front of each text and looks at no more than that. -/
def Local (drop : List Char → Option (List Char)) : Prop :=
  ∀ ⦃cs rest : List Char⦄, drop cs = some rest →
    ∃ front, cs = front ++ rest ∧ ∀ more, drop (front ++ more) = some more

/-- A reader that goes on behind a fixed front as a reader that looks at nothing more. -/
theorem Local.front {drop : List Char → Option (List Char)} (hLocal : Local drop) {cs rest : List Char}
    (h : drop cs = some rest) {next : List Char → Option (List Char)} (lead : List Char)
    (hNext : ∀ ds, next (lead ++ ds) = drop ds) :
    ∃ front, lead ++ cs = front ++ rest ∧ ∀ more, next (front ++ more) = some more := by
  obtain ⟨front, rfl, hAll⟩ := hLocal h
  refine ⟨lead ++ front, (List.append_assoc ..).symm, fun more => ?_⟩
  rw [List.append_assoc, hNext, hAll]

theorem read_local {mode : Quoted.Mode} {cs value rest : List Char}
    (h : Quoted.read mode cs = some (value, rest)) :
    ∃ front, cs = front ++ rest ∧ ∀ more, Quoted.read mode (front ++ more) = some (value, more) := by
  induction cs generalizing mode value with
  | nil => cases h
  | cons c cs ih =>
    rw [Quoted.read] at h
    split at h
    · rename_i hQuote
      cases h
      refine ⟨[c], rfl, fun more => ?_⟩
      rw [List.singleton_append, Quoted.read, if_pos hQuote]
    · rename_i hQuote
      split at h
      · cases h
      rename_i next out hStep
      obtain ⟨⟨more, found⟩, hRead, hPair⟩ := Option.map_eq_some_iff.mp h
      cases hPair
      obtain ⟨front, rfl, hAll⟩ := ih hRead
      refine ⟨c :: front, rfl, fun more => ?_⟩
      rw [List.cons_append, Quoted.read, if_neg hQuote, hStep]
      dsimp only
      rw [hAll more]
      rfl

theorem readPlain_local : Local fun cs => (Quoted.read .plain cs).map Prod.snd := by
  intro cs rest h
  obtain ⟨⟨value, found⟩, hRead, rfl⟩ := Option.map_eq_some_iff.mp h
  obtain ⟨front, hText, hAll⟩ := read_local hRead
  exact ⟨front, hText, fun more => congrArg (Option.map Prod.snd) (hAll more)⟩

/-! ## Raw strings -/

theorem dropSigns_local (n : Nat) : Local (dropSigns n) := by
  intro cs rest h
  fun_induction dropSigns n cs with
  | case1 cs =>
    cases h
    exact ⟨[], rfl, fun more => rfl⟩
  | case2 n cs ih =>
    obtain ⟨front, rfl, hAll⟩ := ih h
    exact ⟨'#' :: front, rfl, hAll⟩
  | case3 => cases h

/-- What is no run of number signs because of its first characters is none before another text. -/
theorem dropSigns_none {n : Nat} {front rest : List Char} (h : dropSigns n (front ++ rest) = none)
    (hOther : ∃ c ∈ front, c ≠ '#') (more : List Char) : dropSigns n (front ++ more) = none := by
  induction front generalizing n with
  | nil =>
    obtain ⟨c, hMem, -⟩ := hOther
    cases hMem
  | cons c front ih =>
    cases n with
    | zero => cases h
    | succ n =>
      by_cases hSign : c = '#'
      · subst hSign
        obtain ⟨d, hMem, hNe⟩ := hOther
        exact ih h ⟨d, (List.mem_cons.mp hMem).resolve_left hNe, hNe⟩
      · rw [List.cons_append, dropSigns]
        · intro cs hText
          exact hSign (List.cons_eq_cons.mp hText).1

theorem dropRaw_local (signs : Nat) : Local (dropRaw signs) := by
  -- The quote that ends the string stands in the front that is read, so that no earlier quote ends it.
  have hLocal : ∀ ⦃cs rest : List Char⦄, dropRaw signs cs = some rest →
      ∃ front, cs = front ++ rest ∧ '\x22' ∈ front ∧ ∀ more, dropRaw signs (front ++ more) = some more := by
    intro cs rest h
    fun_induction dropRaw signs cs with
    | case1 => cases h
    | case2 cs found hSigns =>
      cases h
      obtain ⟨front, rfl, hAll⟩ := dropSigns_local signs hSigns
      refine ⟨'\x22' :: front, rfl, List.mem_cons_self, fun more => ?_⟩
      rw [List.cons_append, dropRaw, hAll]
    | case3 cs hSigns ih =>
      obtain ⟨front, rfl, hQuote, hAll⟩ := ih h
      refine ⟨'\x22' :: front, rfl, List.mem_cons_self, fun more => ?_⟩
      rw [List.cons_append, dropRaw, dropSigns_none hSigns ⟨_, hQuote, by decide⟩]
      exact hAll more
    | case4 cs ih =>
      obtain ⟨front, rfl, hQuote, hAll⟩ := ih h
      exact ⟨'\r' :: '\n' :: front, rfl, List.mem_cons_of_mem _ (List.mem_cons_of_mem _ hQuote), hAll⟩
    | case5 => cases h
    | case6 c cs hNoQuote hNoPair hNoReturn ih =>
      obtain ⟨front, rfl, hQuote, hAll⟩ := ih h
      refine ⟨c :: front, rfl, List.mem_cons_of_mem _ hQuote, fun more => ?_⟩
      have hReturn : c ≠ '\r' := fun hEq => hNoReturn hEq
      rw [List.cons_append, dropRaw]
      · exact hAll more
      · exact hNoQuote
      · intro ds hEq
        exact absurd hEq hReturn
      · exact hReturn
  intro cs rest h
  obtain ⟨front, hText, -, hAll⟩ := hLocal h
  exact ⟨front, hText, hAll⟩

theorem dropRawString_local : Local dropRawString := by
  intro cs rest h
  have hSigns : ∀ d ∈ cs.takeWhile (· == '#'), (d == '#') = true :=
    fun d hMem => List.all_eq_true.mp List.all_takeWhile d hMem
  have hTake : cs.take (cs.takeWhile (· == '#')).length = cs.takeWhile (· == '#') :=
    (List.prefix_iff_eq_take.mp (List.takeWhile_prefix _)).symm
  unfold dropRawString at h
  dsimp only at h
  split at h
  · rename_i back hBack
    split at h
    · rename_i hBound
      obtain ⟨front, rfl, hAll⟩ := dropRaw_local _ h
      have hText := List.take_append_drop (cs.takeWhile (· == '#')).length cs
      rw [hTake, hBack] at hText
      refine ⟨cs.takeWhile (· == '#') ++ '\x22' :: front, ?_, fun more => ?_⟩
      · rw [List.append_assoc, List.cons_append, hText]
      · have hSame : (cs.takeWhile (· == '#') ++ '\x22' :: front ++ more).takeWhile (· == '#')
            = cs.takeWhile (· == '#') := by
          rw [List.append_assoc]
          exact (takeWhile_append_of_all hSigns (fun d hMem => by cases hMem; rfl)).1
        unfold dropRawString
        dsimp only
        rw [hSame, List.append_assoc, List.drop_left]
        exact (if_pos hBound).trans (hAll more)
    · cases h
  · cases h

/-! ## Characters and byte strings -/

theorem dropBraced_local (digits value : Nat) : Local (dropBraced digits value) := by
  intro cs rest h
  fun_induction dropBraced digits value cs with
  | case1 => cases h
  | case2 digits value cs hValid =>
    cases h
    exact ⟨['\x7d'], rfl, fun more => if_pos hValid⟩
  | case3 => cases h
  | case4 digits value cs hDigits _ ih =>
    obtain ⟨front, rfl, hAll⟩ := ih h
    exact ⟨'_' :: front, rfl, fun more => (if_pos hDigits).trans (hAll more)⟩
  | case5 => cases h
  | case6 digits value c cs hBrace hUnderscore high hHex hRoom ih =>
    obtain ⟨front, rfl, hAll⟩ := ih h
    refine ⟨c :: front, rfl, fun more => ?_⟩
    rw [List.cons_append, dropBraced, if_neg hBrace, if_neg hUnderscore, hHex]
    dsimp only
    rw [if_pos hRoom, hAll]
  | case7 => cases h
  | case8 => cases h

theorem dropEscape_local (isByte : Bool) : Local (dropEscape isByte) := by
  intro cs rest h
  unfold dropEscape at h
  split at h
  · rename_i high low cs
    split at h
    · rename_i value _ hHigh hLow
      split at h <;> cases h
      rename_i hSmall
      refine ⟨['x', high, low], rfl, fun more => ?_⟩
      rw [List.cons_append, List.cons_append, List.cons_append, List.nil_append, dropEscape, hHigh, hLow]
      exact if_pos hSmall
    · cases h
  · rename_i cs
    split at h
    · cases h
    · rename_i hByte
      obtain ⟨front, rfl, hAll⟩ := dropBraced_local 0 0 h
      exact ⟨'u' :: '\x7b' :: front, rfl, fun more => (if_neg hByte).trans (hAll more)⟩
  · rename_i c cs hNoNumber hNoBrace
    split at h <;> cases h
    rename_i hShort
    have hX : c ≠ 'x' := by
      rintro rfl
      exact absurd hShort (by decide)
    have hU : c ≠ 'u' := by
      rintro rfl
      exact absurd hShort (by decide)
    refine ⟨[c], rfl, fun more => ?_⟩
    rw [List.singleton_append, dropEscape]
    · exact if_pos hShort
    · intro _ _ _ hEq
      exact absurd hEq hX
    · intro _ hEq
      exact absurd hEq hU
  · cases h

theorem dropCharacter_local (isByte : Bool) : Local (dropCharacter isByte) := by
  intro cs rest h
  unfold dropCharacter at h
  dsimp only at h
  split at h
  · rename_i back hBack
    cases h
    split at hBack
    · rename_i cs
      obtain ⟨front, rfl, hAll⟩ := dropEscape_local isByte hBack
      refine ⟨'\x5c' :: (front ++ ['\x27']), by simp, fun more => ?_⟩
      unfold dropCharacter
      simp [hAll]
    · rename_i c cs _
      split at hBack <;> cases hBack
      rename_i hSmall
      refine ⟨[c, '\x27'], rfl, fun more => ?_⟩
      unfold dropCharacter
      simp [hSmall]
    · cases hBack
  · cases h

/-- The blanks at the end of a line are read up to the first character that is none. -/
theorem dropGap_local {cs rest : List Char} (h : dropGap cs = some rest) :
    ∃ gap c back, rest = c :: back ∧ cs = gap ++ rest
      ∧ ∀ more, dropGap (gap ++ c :: more) = some (c :: more) := by
  fun_induction dropGap cs with
  | case6 => cases h
  | case5 => cases h
  | case7 c back hBlank hTab hLine _ hReturn =>
    cases h
    refine ⟨[], c, back, rfl, rfl, fun more => ?_⟩
    rw [List.nil_append, dropGap]
    · exact hBlank
    · exact hTab
    · exact hLine
    · exact fun _ hEq => absurd hEq hReturn
    · exact hReturn
  | case1 cs ih =>
    obtain ⟨gap, c, back, rfl, rfl, hAll⟩ := ih h
    exact ⟨' ' :: gap, c, back, rfl, rfl, hAll⟩
  | case2 cs ih =>
    obtain ⟨gap, c, back, rfl, rfl, hAll⟩ := ih h
    exact ⟨'\t' :: gap, c, back, rfl, rfl, hAll⟩
  | case3 cs ih =>
    obtain ⟨gap, c, back, rfl, rfl, hAll⟩ := ih h
    exact ⟨'\n' :: gap, c, back, rfl, rfl, hAll⟩
  | case4 cs ih =>
    obtain ⟨gap, c, back, rfl, rfl, hAll⟩ := ih h
    exact ⟨'\r' :: '\n' :: gap, c, back, rfl, rfl, hAll⟩

/-- The blanks behind a backslash at the end of a line, and a byte string that goes on behind them. -/
theorem bindGap_local {fuel : Nat} {cs rest : List Char}
    (h : (dropGap cs).bind (dropByteString fuel) = some rest)
    (hLocal : ∀ ⦃cs : List Char⦄, dropByteString fuel cs = some rest → ∃ front, front ≠ [] ∧ cs = front ++ rest
      ∧ ∀ fuel more, front.length < fuel → dropByteString fuel (front ++ more) = some more) :
    ∃ front, front ≠ [] ∧ cs = front ++ rest ∧ ∀ fuel more, front.length < fuel →
      (dropGap (front ++ more)).bind (dropByteString fuel) = some more := by
  obtain ⟨mid, hGap, hRest⟩ := Option.bind_eq_some_iff.mp h
  obtain ⟨gap, c, back, rfl, rfl, hOpen⟩ := dropGap_local hGap
  obtain ⟨front, hNe, hText, hAll⟩ := hLocal hRest
  cases front with
  | nil => exact absurd rfl hNe
  | cons d front =>
    obtain ⟨rfl, rfl⟩ := List.cons_eq_cons.mp hText
    refine ⟨gap ++ c :: front, by simp, by simp, fun fuel more hFuel => ?_⟩
    rw [List.append_assoc, List.cons_append, hOpen]
    refine hAll fuel more (Nat.lt_of_le_of_lt ?_ hFuel)
    rw [List.length_append]
    exact Nat.le_add_left _ _

/-- A byte string is read with one call less behind its first characters. -/
theorem dropByteString_of_lead {lead front : List Char} (hNe : lead ≠ [])
    (h : ∀ fuel more, front.length < fuel → dropByteString (fuel + 1) (lead ++ front ++ more) = some more)
    (fuel : Nat) (more : List Char) (hFuel : (lead ++ front).length < fuel) :
    dropByteString fuel (lead ++ front ++ more) = some more := by
  have hPos := List.length_pos_iff.mpr hNe
  rw [List.length_append] at hFuel
  cases fuel with
  | zero => omega
  | succ fuel => exact h fuel more (by omega)

/-- An escape is passed as a whole: what follows the backslash ends no line. -/
theorem dropByteString_escape {escape : List Char} (hOpen : ∀ more, dropEscape true (escape ++ more) = some more)
    (fuel : Nat) (more : List Char) :
    dropByteString (fuel + 1) ('\x5c' :: (escape ++ more)) = dropByteString fuel more := by
  have hText := hOpen more
  rw [dropByteString, hText]
  · rfl
  · intro ds hEq
    rw [hEq] at hText
    cases hText
  · intro ds hEq
    rw [hEq] at hText
    cases hText

theorem dropByteString_char {c : Char} (hQuote : c ≠ '\x22') (hReturn : c ≠ '\r') (hSlash : c ≠ '\x5c')
    (fuel : Nat) (more : List Char) :
    dropByteString (fuel + 1) (c :: more) = if c.toNat < 128 then dropByteString fuel more else none := by
  rw [dropByteString]
  · exact hQuote
  · exact fun _ hEq => absurd hEq hReturn
  · exact hReturn
  · exact fun _ hEq => absurd hEq hSlash
  · exact fun _ hEq => absurd hEq hSlash
  · exact hSlash

theorem dropByteString_local {fuel : Nat} {cs rest : List Char} (h : dropByteString fuel cs = some rest) :
    ∃ front, front ≠ [] ∧ cs = front ++ rest
      ∧ ∀ fuel more, front.length < fuel → dropByteString fuel (front ++ more) = some more := by
  induction fuel generalizing cs with
  | zero => cases h
  | succ fuel ih =>
    unfold dropByteString at h
    split at h
    · cases h
    · cases h
    · rename_i cs _ _
      cases h
      exact ⟨['\x22'], by simp, rfl, @dropByteString_of_lead ['\x22'] [] (by simp) fun _ _ _ => rfl⟩
    · rename_i hFuel
      cases hFuel
      obtain ⟨front, -, rfl, hAll⟩ := ih h
      exact ⟨'\r' :: '\n' :: front, by simp, rfl, @dropByteString_of_lead ['\r', '\n'] _ (by simp) hAll⟩
    · cases h
    · rename_i hFuel
      cases hFuel
      obtain ⟨front, -, rfl, hAll⟩ := bindGap_local h fun _ => ih
      exact ⟨'\x5c' :: '\n' :: front, by simp, rfl,
        @dropByteString_of_lead ['\x5c', '\n'] _ (by simp) hAll⟩
    · rename_i hFuel
      cases hFuel
      obtain ⟨front, -, rfl, hAll⟩ := bindGap_local h fun _ => ih
      exact ⟨'\x5c' :: '\r' :: '\n' :: front, by simp, rfl,
        @dropByteString_of_lead ['\x5c', '\r', '\n'] _ (by simp) hAll⟩
    · rename_i hFuel
      cases hFuel
      obtain ⟨mid, hEscape, hRest⟩ := Option.bind_eq_some_iff.mp h
      obtain ⟨escape, rfl, hOpen⟩ := dropEscape_local true hEscape
      obtain ⟨front, -, rfl, hAll⟩ := ih hRest
      refine ⟨'\x5c' :: escape ++ front, by simp, by simp,
        dropByteString_of_lead (by simp) fun fuel more hFuel => ?_⟩
      rw [List.append_assoc, List.cons_append, dropByteString_escape hOpen]
      exact hAll fuel more hFuel
    · rename_i c cs hQuote _ hReturn _ _ hSlash hFuel
      split at h
      · rename_i hAscii
        cases hFuel
        obtain ⟨front, -, rfl, hAll⟩ := ih h
        refine ⟨c :: front, by simp, rfl, @dropByteString_of_lead [c] _ (by simp) fun fuel more hFuel => ?_⟩
        rw [List.append_assoc, List.singleton_append, dropByteString_char hQuote hReturn hSlash, if_pos hAscii]
        exact hAll fuel more hFuel
      · cases h

/-- The reader of quoted literals looks at nothing behind them. -/
theorem dropQuoted_local : Local dropQuoted := by
  intro cs rest h
  unfold dropQuoted at h
  split at h
  · exact readPlain_local.front h ['\x22'] fun _ => rfl
  · exact dropRawString_local.front h ['r'] fun _ => rfl
  · rename_i cs
    obtain ⟨front, -, rfl, hAll⟩ := dropByteString_local h
    refine ⟨'b' :: '\x22' :: front, rfl, fun more => ?_⟩
    have hFuel : front.length < (front ++ more).length + 1 := by
      rw [List.length_append]
      omega
    exact hAll _ more hFuel
  · rename_i cs
    obtain ⟨hRaw, hAscii⟩ := Option.filter_eq_some_iff.mp h
    obtain ⟨front, rfl, hAll⟩ := dropRawString_local hRaw
    rw [takenFrom_append] at hAscii
    refine ⟨'b' :: 'r' :: front, rfl, fun more => Option.filter_eq_some_iff.mpr ⟨hAll more, ?_⟩⟩
    change (takenFrom (front ++ more) more).all _ = true
    rwa [takenFrom_append]
  · exact (dropCharacter_local true).front h ['b', '\x27'] fun _ => rfl
  · exact readPlain_local.front h ['c', '\x22'] fun _ => rfl
  · exact dropRawString_local.front h ['c', 'r'] fun _ => rfl
  · exact (dropCharacter_local false).front h ['\x27'] fun _ => rfl
  · cases h

end ProtoBind.Source
