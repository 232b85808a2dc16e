import Mathlib.Data.List.TakeWhile
import Mathlib.Data.String.Basic
import Mathlib.Order.WellFounded
import ProtoBind.Directive

/-!
# The search for a marker

The directives of a comment stand behind its first usable marker: one that a blank follows at once, and something
that is no blank later. A search that goes on behind each marker that it rejects finds it, and cuts the comment
between characters only, however many bytes these have.
-/

set_option autoImplicit false

namespace ProtoBind

open Text
open String (utf8Len)

namespace Text

/-! ### Slices -/

/-- A text in two parts, the first one of `n` bytes. There are none if the cut lies outside the text or in a
character. -/
def cut? : Nat → List Char → Option (List Char × List Char)
  | 0, cs => some ([], cs)
  | _ + 1, [] => none
  | n + 1, c :: cs =>
    if c.utf8Size ≤ n + 1 then (cut? (n + 1 - c.utf8Size) cs).map fun (front, back) => (c :: front, back)
    else none

theorem cut?_append (front back : List Char) : cut? (utf8Len front) (front ++ back) = some (front, back) := by
  induction front with
  | nil => cases back <;> rfl
  | cons c cs ih =>
    have hPos := c.utf8Size_pos
    obtain ⟨n, hN⟩ : ∃ n, utf8Len (c :: cs) = n + 1 := ⟨utf8Len cs + c.utf8Size - 1, by rw [String.utf8Len_cons]; omega⟩
    have hRest : n + 1 - c.utf8Size = utf8Len cs := by
      rw [← hN, String.utf8Len_cons]
      omega
    rw [hN, List.cons_append, cut?, hRest, ih, if_pos (by rw [← hN, String.utf8Len_cons]; omega)]
    rfl

theorem cut?_eq_some_iff {n : Nat} {cs front back : List Char} :
    cut? n cs = some (front, back) ↔ cs = front ++ back ∧ utf8Len front = n := by
  constructor
  · intro h
    fun_induction cut? n cs generalizing front with
    | case1 cs =>
      cases h
      exact ⟨rfl, rfl⟩
    | case2 => cases h
    | case3 n c cs hFits ih =>
      obtain ⟨⟨before, behind⟩, hCut, hSame⟩ := Option.map_eq_some_iff.mp h
      cases hSame
      obtain ⟨rfl, hLength⟩ := ih hCut
      refine ⟨rfl, ?_⟩
      rw [String.utf8Len_cons, hLength]
      omega
    | case4 => cases h
  · rintro ⟨rfl, rfl⟩
    exact cut?_append front back

/-- A text can be cut at the positions that are valid in it. -/
theorem isSome_cut?_iff {n : Nat} {cs : List Char} :
    (cut? n cs).isSome ↔ String.Pos.Raw.IsValid (String.ofList cs) ⟨n⟩ := by
  rw [Option.isSome_iff_exists, String.Pos.Raw.isValid_iff_exists_append]
  constructor
  · rintro ⟨⟨front, back⟩, h⟩
    obtain ⟨rfl, rfl⟩ := cut?_eq_some_iff.mp h
    exact ⟨String.ofList front, String.ofList back, String.ofList_append, (String.rawEndPos_ofList front).symm⟩
  · rintro ⟨front, back, hText, hPos⟩
    refine ⟨(front.toList, back.toList), cut?_eq_some_iff.mpr ⟨?_, ?_⟩⟩
    · rw [← String.toList_append, ← hText, String.toList_ofList]
    · rw [String.utf8Len_toList]
      exact (congrArg String.Pos.Raw.byteIdx hPos).symm

theorem length_lt_of_cut? {n : Nat} {cs front back : List Char} (h : cut? n cs = some (front, back)) (hPos : 0 < n) :
    back.length < cs.length := by
  obtain ⟨rfl, rfl⟩ := cut?_eq_some_iff.mp h
  have hFront : front ≠ [] := by
    rintro rfl
    exact absurd hPos (Nat.lt_irrefl 0)
  have hLength := List.length_pos_of_ne_nil hFront
  rw [List.length_append]
  omega

def byteOf? (word : List Char) : List Char → Option Nat
  | [] => if word = [] then some 0 else none
  | c :: cs => if word <+: c :: cs then some 0 else (byteOf? word cs).map (· + c.utf8Size)

theorem byteOf?_eq_none_iff {word cs : List Char} : byteOf? word cs = none ↔ ¬ word <:+: cs := by
  induction cs with
  | nil => simp [byteOf?]
  | cons c cs ih =>
    rw [byteOf?, List.infix_cons_iff, not_or]
    split
    · rename_i hPrefix
      exact ⟨nofun, fun h => absurd hPrefix h.1⟩
    · rename_i hPrefix
      rw [Option.map_eq_none_iff, ih]
      exact (and_iff_right hPrefix).symm

/-- A text around the first place of a word behind which it goes on as asked. -/
structure FirstPlace (word : List Char) (P : List Char → Prop) (cs front back : List Char) : Prop where
  text : cs = front ++ word ++ back
  behind : P back
  first : ∀ other more, cs = other ++ word ++ more → P more → front.length ≤ other.length

theorem FirstPlace.of_append {word back : List Char} {P : List Char → Prop} (h : P back) :
    FirstPlace word P (word ++ back) [] back := ⟨rfl, h, fun _ _ _ _ => Nat.zero_le _⟩

/-- Of all places of a word one is the first. -/
theorem exists_firstPlace {word cs front back : List Char} {P : List Char → Prop} (h : cs = front ++ word ++ back)
    (hBehind : P back) : ∃ first behind, FirstPlace word P cs first behind := by
  let places : Set (List Char) := {other | ∃ more, cs = other ++ word ++ more ∧ P more}
  obtain ⟨first, ⟨behind, hText, hFirst⟩, hLeast⟩ :=
    (InvImage.wf List.length Nat.lt_wfRel.wf).has_min places ⟨front, back, h, hBehind⟩
  exact ⟨first, behind, hText, hFirst, fun other more hOther hMore =>
      Nat.le_of_not_lt (hLeast other ⟨more, hOther, hMore⟩)⟩

/-- Where a text does not begin with the word, its first place is that in the rest of the text. -/
theorem firstPlace_cons_iff {word cs front back : List Char} {P : List Char → Prop} {c : Char}
    (h : ¬ word <+: c :: cs) : FirstPlace word P (c :: cs) front back ↔
      ∃ rest, front = c :: rest ∧ FirstPlace word P cs rest back := by
  constructor
  · rintro ⟨hText, hBehind, hFirst⟩
    cases front with
    | nil => exact absurd ⟨back, hText.symm⟩ h
    | cons d rest =>
      obtain ⟨rfl, hRest⟩ := List.cons.inj hText
      refine ⟨rest, rfl, hRest, hBehind, ?_⟩
      intro other more hOther hMore
      exact Nat.le_of_succ_le_succ (hFirst (c :: other) more (congrArg (c :: ·) hOther) hMore)
  · rintro ⟨rest, rfl, hText, hBehind, hFirst⟩
    refine ⟨congrArg (c :: ·) hText, hBehind, ?_⟩
    intro other more hOther hMore
    cases other with
    | nil => exact absurd ⟨more, hOther.symm⟩ h
    | cons d other => exact Nat.succ_le_succ (hFirst other more (List.cons.inj hOther).2 hMore)

/-- A word is found at its first place. -/
theorem exists_of_byteOf? {word cs : List Char} {n : Nat} (h : byteOf? word cs = some n) :
    ∃ front back, FirstPlace word (fun _ => True) cs front back ∧ utf8Len front = n := by
  induction cs generalizing n with
  | nil =>
    rw [byteOf?] at h
    split at h
    · rename_i hEmpty
      cases h
      subst hEmpty
      exact ⟨[], [], .of_append trivial, rfl⟩
    · cases h
  | cons c cs ih =>
    rw [byteOf?] at h
    split at h
    · rename_i hPrefix
      obtain ⟨back, hBack⟩ := hPrefix
      cases h
      exact ⟨[], back, hBack ▸ .of_append trivial, rfl⟩
    · rename_i hPrefix
      obtain ⟨m, hFound, rfl⟩ := Option.map_eq_some_iff.mp h
      obtain ⟨front, back, hPlace, rfl⟩ := ih hFound
      exact ⟨c :: front, back, (firstPlace_cons_iff hPrefix).mpr ⟨front, rfl, hPlace⟩, rfl⟩

/-- A text can be cut at the end of its first line. -/
theorem cut?_line (cs : List Char) :
    ∃ rest, cut? ((byteOf? ['\n'] cs).getD (utf8Len cs)) cs = some (cs.takeWhile (· != '\n'), rest) := by
  cases hFound : byteOf? ['\n'] cs with
  | none =>
    have hAbsent : '\n' ∉ cs := by
      intro hMem
      obtain ⟨before, behind, rfl⟩ := List.append_of_mem hMem
      exact byteOf?_eq_none_iff.mp hFound ⟨before, behind, List.append_assoc _ _ _⟩
    have hAll : cs.takeWhile (· != '\n') = cs :=
      List.takeWhile_eq_self_iff.mpr fun c hC => bne_iff_ne.mpr fun hSame => hAbsent (hSame ▸ hC)
    exact ⟨[], by rw [hAll, Option.getD_none, cut?_eq_some_iff, List.append_nil]; exact ⟨rfl, rfl⟩⟩
  | some n =>
    obtain ⟨front, back, ⟨rfl, -, hFirst⟩, rfl⟩ := exists_of_byteOf? hFound
    have hFront : ∀ c ∈ front, (c != '\n') = true := by
      intro c hC
      refine bne_iff_ne.mpr ?_
      rintro rfl
      obtain ⟨before, behind, rfl⟩ := List.append_of_mem hC
      have hShort := hFirst before (behind ++ ['\n'] ++ back) (by simp) trivial
      rw [List.length_append, List.length_cons] at hShort
      omega
    refine ⟨'\n' :: back, ?_⟩
    rw [List.append_assoc, List.takeWhile_append_of_pos hFront, List.singleton_append,
      List.takeWhile_cons_of_neg (by simp), List.append_nil]
    exact cut?_append front ('\n' :: back)

end Text

/-! ### Markers -/

def marker : List Char := "@tag".toList

/-- A text opens with a blank, and goes on to something that is none. -/
def Opens (after : List Char) : Prop :=
  ∃ blank rest, after = blank :: rest ∧ isBlank blank = true ∧ ∃ c ∈ rest, isBlank c = false

/-- What a line is cut out of: blanks in front of it, carriage returns behind it, and there the end of the line or
of the text. -/
structure CutOut (after blanks line returns rest : List Char) : Prop where
  text : after = blanks ++ line ++ returns ++ rest
  blank : ∀ c ∈ blanks, isBlank c = true
  begins : ∃ c cs, line = c :: cs ∧ isBlank c = false
  ends : line.getLast? ≠ some '\r'
  returned : ∀ c ∈ returns, c = '\r'
  unbroken : '\n' ∉ line ++ returns
  stopped : rest = [] ∨ ∃ more, rest = '\n' :: more

def lineIn (after : List Char) : List Char := dropEndWhile (· == '\r') ((trimStart after).takeWhile (· != '\n'))

theorem utf8Len_marker_pos : 0 < utf8Len marker := by decide

/-- The search from marker to marker with slices by bytes. It ends with a line or with none, or not even with that
where a slice is not between characters. -/
def search (rest : List Char) : Option (Option (List Char)) :=
  match byteOf? marker rest with
  | none => some none
  | some start =>
    match h : cut? (start + utf8Len marker) rest with
    | none => none
    | some (_, after) =>
      let line := trimStart after
      if utf8Len line < utf8Len after ∧ line ≠ [] then
        match cut? ((byteOf? ['\n'] line).getD (utf8Len line)) line with
        | none => none
        | some (line, _) => some (some (dropEndWhile (· == '\r') line))
      else
        have := length_lt_of_cut? h (Nat.add_pos_right start utf8Len_marker_pos)
        search after
termination_by rest.length

/-! ### The line behind a marker -/

theorem opens_iff {after : List Char} :
    Opens after ↔ (trimStart after).length < after.length ∧ trimStart after ≠ [] := by
  have hRest : ∀ cs : List Char, trimStart cs ≠ [] ↔ ∃ c ∈ cs, isBlank c = false := by
    intro cs
    rw [trimStart, ne_eq, List.dropWhile_eq_nil_iff]
    simp
  cases after with
  | nil => exact iff_of_false nofun fun h => absurd h.1 (Nat.lt_irrefl 0)
  | cons c cs =>
    cases hBlank : isBlank c with
    | true =>
      have hTrim : trimStart (c :: cs) = trimStart cs := List.dropWhile_cons_of_pos hBlank
      have hShort : (trimStart cs).length ≤ cs.length := (List.dropWhile_suffix isBlank).length_le
      rw [hTrim, hRest cs, List.length_cons]
      constructor
      · rintro ⟨blank, rest, hText, -, hLater⟩
        cases hText
        exact ⟨by omega, hLater⟩
      · rintro ⟨-, hLater⟩
        exact ⟨c, cs, rfl, hBlank, hLater⟩
    | false =>
      have hTrim : trimStart (c :: cs) = c :: cs := List.dropWhile_cons_of_neg (by simp [hBlank])
      rw [hTrim]
      refine iff_of_false ?_ fun h => absurd h.1 (Nat.lt_irrefl _)
      rintro ⟨blank, rest, hText, hOpen, -⟩
      cases hText
      rw [hBlank] at hOpen
      cases hOpen

/-- What is left of a text before its last characters of a class ends in none of these. -/
theorem dropEndWhile_eq_iff {p : Char → Bool} {cs front : List Char} : dropEndWhile p cs = front ↔
    ∃ back, cs = front ++ back ∧ (∀ c ∈ back, p c = true) ∧ ∀ c, front.getLast? = some c → p c = false := by
  constructor
  · rintro rfl
    refine ⟨(cs.reverse.takeWhile p).reverse, ?_, ?_, ?_⟩
    · rw [dropEndWhile, ← List.reverse_append, List.takeWhile_append_dropWhile, List.reverse_reverse]
    · intro c hC
      exact List.mem_takeWhile_imp (List.mem_reverse.mp hC)
    · intro c hC
      rw [dropEndWhile, List.getLast?_reverse] at hC
      have hHead := List.head?_dropWhile_not p cs.reverse
      rw [hC] at hHead
      exact hHead
  · rintro ⟨back, rfl, hBack, hLast⟩
    have hReverse : ∀ c ∈ back.reverse, p c = true := fun c hC => hBack c (List.mem_reverse.mp hC)
    rw [dropEndWhile, List.reverse_append, List.dropWhile_append_of_pos hReverse, List.reverse_eq_iff]
    cases hFront : front.reverse with
    | nil => rfl
    | cons c cs =>
      rw [← List.head?_reverse, hFront] at hLast
      exact List.dropWhile_cons_of_neg (by simp [hLast c rfl])

theorem line_of_cutOut {after blanks line returns rest : List Char} (h : CutOut after blanks line returns rest) :
    lineIn after = line := by
  obtain ⟨c, cs, rfl, hShown⟩ := h.begins
  have hStart : trimStart after = c :: cs ++ returns ++ rest := by
    rw [trimStart, h.text, List.append_assoc, List.append_assoc, List.dropWhile_append_of_pos h.blank,
      List.cons_append, List.dropWhile_cons_of_neg (by simp [hShown]), ← List.cons_append, List.append_assoc]
  have hLine : ∀ d ∈ c :: cs ++ returns, (d != '\n') = true :=
    fun d hD => bne_iff_ne.mpr fun hSame => h.unbroken (hSame ▸ hD)
  have hRest : rest.takeWhile (· != '\n') = [] := by
    rcases h.stopped with rfl | ⟨more, rfl⟩
    · rfl
    · exact List.takeWhile_cons_of_neg (by simp)
  rw [lineIn, hStart, List.takeWhile_append_of_pos hLine, hRest, List.append_nil, dropEndWhile_eq_iff]
  refine ⟨returns, rfl, fun d hD => beq_iff_eq.mpr (h.returned d hD), ?_⟩
  intro d hLast
  refine beq_eq_false_iff_ne.mpr ?_
  rintro rfl
  exact h.ends hLast

theorem cutOut_lineIn {after : List Char} (h : Opens after) :
    ∃ blanks returns rest, CutOut after blanks (lineIn after) returns rest := by
  obtain ⟨returns, hLine, hReturns, hLast⟩ := dropEndWhile_eq_iff.mp (rfl : _ = lineIn after)
  obtain ⟨c, cs, hStart⟩ := List.exists_cons_of_ne_nil (opens_iff.mp h).2
  -- What begins the line is no blank, so neither end of the line is cut away together with it.
  have hShown : isBlank c = false := by
    have hHead := List.head?_dropWhile_not isBlank after
    rw [← trimStart, hStart] at hHead
    exact hHead
  have hNewline : c ≠ '\n' := by
    rintro rfl
    exact absurd hShown (by decide)
  have hCut : (trimStart after).takeWhile (· != '\n') = c :: cs.takeWhile (· != '\n') := by
    rw [hStart]
    exact List.takeWhile_cons_of_pos (bne_iff_ne.mpr hNewline)
  refine ⟨after.takeWhile isBlank, returns, (trimStart after).dropWhile (· != '\n'), ?_⟩
  constructor
  case text =>
    rw [List.append_assoc, List.append_assoc, ← List.append_assoc (lineIn after), ← hLine,
      List.takeWhile_append_dropWhile]
    exact List.takeWhile_append_dropWhile.symm
  case blank => exact fun d hD => List.mem_takeWhile_imp hD
  case begins =>
    rw [hCut] at hLine
    cases hFront : lineIn after with
    | nil =>
      rw [hFront, List.nil_append] at hLine
      have hReturn := hReturns c (hLine ▸ List.mem_cons_self)
      rw [beq_iff_eq.mp hReturn] at hShown
      exact absurd hShown (by decide)
    | cons d ds =>
      rw [hFront] at hLine
      exact ⟨d, ds, rfl, (List.cons.inj hLine).1 ▸ hShown⟩
  case ends =>
    intro hReturn
    exact absurd (hLast _ hReturn) (by decide)
  case returned => exact fun d hD => beq_iff_eq.mp (hReturns d hD)
  case unbroken =>
    rw [← hLine]
    intro hBroken
    exact absurd (List.mem_takeWhile_imp hBroken) (by decide)
  case stopped =>
    cases hRest : (trimStart after).dropWhile (· != '\n') with
    | nil => exact .inl rfl
    | cons d more =>
      have hHead := List.head?_dropWhile_not (· != '\n') (trimStart after)
      rw [hRest] at hHead
      refine .inr ⟨more, ?_⟩
      rw [bne_eq_false_iff_eq.mp hHead]

/-- What is cut out of a text that opens is its line. -/
theorem lineIn_eq_iff {after line : List Char} (h : Opens after) :
    lineIn after = line ↔ ∃ blanks returns rest, CutOut after blanks line returns rest := by
  constructor
  · rintro rfl
    exact cutOut_lineIn h
  · rintro ⟨blanks, returns, rest, hCut⟩
    exact line_of_cutOut hCut

/-! ### From marker to marker -/

theorem directiveLine_marker_of_opens {after : List Char} (h : Opens after) :
    directiveLine (marker ++ after) = some (lineIn after) := by
  change directiveLine ('@' :: 't' :: 'a' :: 'g' :: after) = _
  rw [directiveLine, if_pos (opens_iff.mp h)]
  rfl

theorem directiveLine_marker_of_not_opens {after : List Char} (h : ¬ Opens after) :
    directiveLine (marker ++ after) = directiveLine after := by
  change directiveLine ('@' :: 't' :: 'a' :: 'g' :: after) = _
  rw [directiveLine, if_neg (mt opens_iff.mpr h)]

theorem directiveLine_cons {c : Char} {cs : List Char} (h : ¬ marker <+: c :: cs) :
    directiveLine (c :: cs) = directiveLine cs := by
  rw [directiveLine]
  rintro after rfl rfl
  exact h ⟨after, rfl⟩

/-- Markers do not overlap. -/
theorem marker_places {after other more : List Char} (h : marker ++ after = other ++ marker ++ more) :
    other = [] ∧ more = after ∨ ∃ rest, other = marker ++ rest ∧ after = rest ++ marker ++ more := by
  have hMarker : marker = ['@', 't', 'a', 'g'] := rfl
  rw [hMarker] at h ⊢
  match other with
  | [] => exact .inl ⟨rfl, by simpa using h.symm⟩
  | [_] => simp at h
  | [_, _] => simp at h
  | [_, _, _] => simp at h
  | a :: b :: c :: d :: rest =>
    obtain ⟨rfl, rfl, rfl, rfl, hRest⟩ : '@' = a ∧ 't' = b ∧ 'a' = c ∧ 'g' = d ∧
        after = rest ++ (['@', 't', 'a', 'g'] ++ more) := by
      simpa using h
    exact .inr ⟨rest, rfl, by rw [hRest, List.append_assoc]⟩

theorem firstPlace_marker_of_opens {after before back : List Char} (h : Opens after) :
    FirstPlace marker Opens (marker ++ after) before back ↔ before = [] ∧ back = after := by
  constructor
  · rintro ⟨hText, -, hFirst⟩
    have hEmpty : before = [] := List.eq_nil_of_length_eq_zero (Nat.le_zero.mp (hFirst [] after rfl h))
    subst hEmpty
    exact ⟨rfl, (List.append_cancel_left hText).symm⟩
  · rintro ⟨rfl, rfl⟩
    exact .of_append h

theorem firstPlace_marker_of_not_opens {after before back : List Char} (h : ¬ Opens after) :
    FirstPlace marker Opens (marker ++ after) before back ↔
      ∃ rest, before = marker ++ rest ∧ FirstPlace marker Opens after rest back := by
  constructor
  · rintro ⟨hText, hBehind, hFirst⟩
    rcases marker_places hText with ⟨-, rfl⟩ | ⟨rest, rfl, hRest⟩
    · exact absurd hBehind h
    · refine ⟨rest, rfl, hRest, hBehind, ?_⟩
      intro other more hOther hMore
      have hShort := hFirst (marker ++ other) more (by rw [hOther]; simp) hMore
      rw [List.length_append, List.length_append] at hShort
      omega
  · rintro ⟨rest, rfl, rfl, hBehind, hFirst⟩
    refine ⟨by simp, hBehind, ?_⟩
    intro other more hOther hMore
    rcases marker_places hOther with ⟨-, rfl⟩ | ⟨others, rfl, hOthers⟩
    · exact absurd hMore h
    · have hShort := hFirst others more hOthers hMore
      rw [List.length_append, List.length_append]
      omega

/-- The line of a comment is that behind its first usable marker. -/
theorem directiveLine_eq_some_iff {comment line : List Char} : directiveLine comment = some line ↔
    ∃ before after, FirstPlace marker Opens comment before after ∧ lineIn after = line := by
  induction hLength : comment.length using Nat.strong_induction_on generalizing comment with
  | h n ih =>
    subst hLength
    by_cases hMarker : marker <+: comment
    · obtain ⟨after, rfl⟩ := hMarker
      by_cases hOpens : Opens after
      · rw [directiveLine_marker_of_opens hOpens, Option.some.injEq]
        simp only [firstPlace_marker_of_opens hOpens]
        exact ⟨fun hLine => ⟨[], after, ⟨rfl, rfl⟩, hLine⟩, fun ⟨_, _, ⟨_, hBack⟩, hLine⟩ => hBack ▸ hLine⟩
      · rw [directiveLine_marker_of_not_opens hOpens, ih after.length (by simp [marker]; omega) rfl]
        simp only [firstPlace_marker_of_not_opens hOpens]
        constructor
        · rintro ⟨before, back, hPlace, hLine⟩
          exact ⟨marker ++ before, back, ⟨before, rfl, hPlace⟩, hLine⟩
        · rintro ⟨-, back, ⟨before, rfl, hPlace⟩, hLine⟩
          exact ⟨before, back, hPlace, hLine⟩
    · cases comment with
      | nil =>
        refine iff_of_false nofun ?_
        rintro ⟨before, after, hPlace, -⟩
        have hText := hPlace.text
        simp [marker] at hText
      | cons c cs =>
        rw [directiveLine_cons hMarker, ih cs.length (Nat.lt_succ_self _) rfl]
        simp only [firstPlace_cons_iff hMarker]
        constructor
        · rintro ⟨before, back, hPlace, hLine⟩
          exact ⟨c :: before, back, ⟨before, rfl, hPlace⟩, hLine⟩
        · rintro ⟨-, back, ⟨before, rfl, hPlace⟩, hLine⟩
          exact ⟨before, back, hPlace, hLine⟩

theorem exists_directiveLine_iff {comment : List Char} : (∃ line, directiveLine comment = some line) ↔
    ∃ before after, comment = before ++ marker ++ after ∧ Opens after := by
  constructor
  · rintro ⟨line, hLine⟩
    obtain ⟨before, after, hPlace, -⟩ := directiveLine_eq_some_iff.mp hLine
    exact ⟨before, after, hPlace.text, hPlace.behind⟩
  · rintro ⟨before, after, hText, hOpens⟩
    obtain ⟨first, behind, hPlace⟩ := exists_firstPlace hText hOpens
    exact ⟨lineIn behind, directiveLine_eq_some_iff.mpr ⟨first, behind, hPlace, rfl⟩⟩

/-! ### The search by slices -/

theorem utf8Len_lt_iff {short long : List Char} (h : short <:+ long) :
    utf8Len short < utf8Len long ↔ short.length < long.length := by
  obtain ⟨front, rfl⟩ := h
  rw [String.utf8Len_append, List.length_append]
  cases front with
  | nil => simp
  | cons c cs =>
    have hPos := c.utf8Size_pos
    rw [String.utf8Len_cons, List.length_cons]
    exact iff_of_true (by omega) (by omega)

theorem opens_iff_utf8Len {after : List Char} :
    Opens after ↔ utf8Len (trimStart after) < utf8Len after ∧ trimStart after ≠ [] := by
  have hSuffix : trimStart after <:+ after := List.dropWhile_suffix isBlank
  rw [opens_iff, utf8Len_lt_iff hSuffix]

/-- A text is searched from its first marker on. -/
theorem directiveLine_of_firstPlace {comment before after : List Char}
    (h : FirstPlace marker (fun _ => True) comment before after) :
    directiveLine comment = directiveLine (marker ++ after) := by
  induction before generalizing comment with
  | nil => rw [h.text, List.nil_append]
  | cons c before ih =>
    obtain ⟨cs, rfl⟩ : ∃ cs, comment = c :: cs := ⟨_, h.text⟩
    have hLater : ¬ marker <+: c :: cs := by
      rintro ⟨more, hMore⟩
      exact absurd (h.first [] more hMore.symm trivial) (Nat.not_succ_le_zero _)
    obtain ⟨rest, hRest, hPlace⟩ := (firstPlace_cons_iff hLater).mp h
    cases hRest
    rw [directiveLine_cons hLater, ih hPlace]

theorem directiveLine_eq_none {comment : List Char} (h : ¬ marker <:+: comment) : directiveLine comment = none := by
  rw [Option.eq_none_iff_forall_ne_some]
  intro line hLine
  obtain ⟨before, after, hPlace, -⟩ := directiveLine_eq_some_iff.mp hLine
  exact h ⟨before, after, hPlace.text.symm⟩

/-- The search never leaves the text, nor cuts a character, and finds what a character by character reading finds. -/
theorem search_eq (comment : List Char) : search comment = some (directiveLine comment) := by
  induction hLength : comment.length using Nat.strong_induction_on generalizing comment with
  | h n ih =>
    subst hLength
    rw [search]
    split
    · rename_i hNone
      rw [directiveLine_eq_none (byteOf?_eq_none_iff.mp hNone)]
    · rename_i start hStart
      obtain ⟨before, after, hPlace, rfl⟩ := exists_of_byteOf? hStart
      have hCut : cut? (utf8Len before + utf8Len marker) comment = some (before ++ marker, after) := by
        rw [← String.utf8Len_append, hPlace.text]
        exact cut?_append _ _
      rw [directiveLine_of_firstPlace hPlace]
      split
      · rename_i hMissing
        rw [hCut] at hMissing
        cases hMissing
      · rename_i found hFound
        obtain ⟨-, rfl⟩ := Prod.mk.inj (Option.some.inj (hCut.symm.trans hFound))
        dsimp only
        split
        · rename_i hLine
          obtain ⟨rest, hRest⟩ := cut?_line (trimStart after)
          rw [hRest, directiveLine_marker_of_opens (opens_iff_utf8Len.mpr hLine)]
          rfl
        · rename_i hLine
          rw [directiveLine_marker_of_not_opens (mt opens_iff_utf8Len.mp hLine)]
          exact ih _ (length_lt_of_cut? hCut (Nat.add_pos_right _ utf8Len_marker_pos)) _ rfl

/-- A comment has a directive line exactly if one of its markers can be used, and it is cut out of the text behind the
first of these. The search finds it on every comment, and cuts only where a position of a text is valid. -/
theorem directiveLine_first_usable (comment : List Char) :
    ((∃ line, directiveLine comment = some line) ↔
      ∃ before after, comment = before ++ marker ++ after ∧ Opens after) ∧
    (∀ line, directiveLine comment = some line ↔ ∃ before after, FirstPlace marker Opens comment before after ∧
      ∃ blanks returns rest, CutOut after blanks line returns rest) ∧
    search comment = some (directiveLine comment) ∧
    ∀ n cs, (cut? n cs).isSome ↔ String.Pos.Raw.IsValid (String.ofList cs) ⟨n⟩ := by
  refine ⟨exists_directiveLine_iff, fun line => ?_, search_eq comment, fun n cs => isSome_cut?_iff⟩
  rw [directiveLine_eq_some_iff]
  exact exists_congr fun before => exists_congr fun after => and_congr_right fun hPlace => lineIn_eq_iff hPlace.behind

example : directiveLine "é@tagé @tag\u00a0\r\n k:é\r\r\n@tag l".toList = some "k:é".toList := by decide

end ProtoBind
