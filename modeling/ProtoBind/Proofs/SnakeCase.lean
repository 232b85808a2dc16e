import ProtoBind.Proofs.NameForms

/-!
# Names in snake case

The snake-case form of a name is the name in small letters with single underscores before some letters that were
capitals, and a second conversion leaves it as it is. Words that underscores join come back from Pascal case.
-/

set_option autoImplicit false

namespace ProtoBind.Naming

open Text

/-- The pieces of a name that is cut before capitals only and not behind an underscore. -/
structure CutAtCapitals (name : List Char) (pieces : List (List Char)) : Prop where
  whole : pieces.flatten = name
  nonempty : ∀ piece ∈ pieces, piece ≠ []
  apart : pieces.IsChain fun front back => front.getLast? ≠ some '_' ∧ back.head?.any Char.isUpper = true

structure IsSnakeOf (name snaked : String) : Prop where
  small : ∀ c ∈ snaked.toList, c.isUpper = false
  joined : ∃ pieces, CutAtCapitals name.toList pieces ∧
    snaked.toList = ['_'].intercalate (pieces.map fun piece => piece.map Char.toLower)
  settled : snake snaked = snaked

/-- A word of a name in snake case: a small letter, with small letters and digits behind it. -/
def isSmallWord : List Char → Bool
  | [] => false
  | c :: cs => c.isLower && cs.all fun d => d.isLower || d.isDigit

structure AreWords (words : List String) : Prop where
  nonempty : words ≠ []
  small : ∀ word ∈ words, isSmallWord word.toList = true
  long : ∀ word ∈ words.dropLast, 2 ≤ word.length

/-! ### Steps of the conversion -/

/-- Each letter is lowered, some capitals behind an underscore. -/
theorem snakeFrom_cons (previous : Option Char) (c : Char) (cs : List Char) :
    snakeFrom previous (c :: cs)
      = (if c.isUpper && startsWord previous cs.head? then ['_'] else []) ++ c.toLower :: snakeFrom (some c) cs := by
  rw [snakeFrom]
  cases hUpper : c.isUpper with
  | false => rw [toLower_of_not_upper hUpper]; rfl
  | true => cases startsWord previous cs.head? <;> rfl

/-- What holds no capitals stays as it is. -/
theorem snakeFrom_append {cs : List Char} (h : ∀ c ∈ cs, c.isUpper = false) (previous : Option Char)
    (rest : List Char) :
    snakeFrom previous (cs ++ rest) = cs ++ snakeFrom (cs.getLast?.or previous) rest := by
  induction cs generalizing previous with
  | nil => rfl
  | cons c cs ih =>
    obtain ⟨hFirst, hRest⟩ := List.forall_mem_cons.mp h
    have hLast : (c :: cs).getLast?.or previous = cs.getLast?.or (some c) := by
      rw [List.getLast?_cons]
      cases cs.getLast? <;> rfl
    rw [List.cons_append, snakeFrom_cons, hFirst, toLower_of_not_upper hFirst, ih hRest, hLast]
    rfl

theorem not_upper_of_mem_snakeFrom {cs : List Char} (previous : Option Char) :
    ∀ c ∈ snakeFrom previous cs, c.isUpper = false := by
  induction cs generalizing previous with
  | nil => exact List.forall_mem_nil _
  | cons c cs ih =>
    rw [snakeFrom_cons, List.forall_mem_append, List.forall_mem_cons]
    refine ⟨?_, isUpper_toLower c, ih _⟩
    split <;> simp

theorem snake_of_small {name : String} (h : ∀ c ∈ name.toList, c.isUpper = false) : snake name = name := by
  have hSame := snakeFrom_append h none []
  rw [List.append_nil, snakeFrom, List.append_nil] at hSame
  rw [snake, hSame, String.ofList_toList]

/-! ### Where underscores are put -/

theorem intercalate_underscore (first : List Char) (rest : List (List Char)) :
    ['_'].intercalate (first :: rest) = first ++ rest.flatMap fun piece => '_' :: piece := by
  induction rest generalizing first with
  | nil => simp
  | cons next rest ih =>
    rw [List.intercalate_cons_cons, ih, List.flatMap_cons, List.append_assoc]
    rfl

theorem ne_underscore_of_startsWord {p : Char} {next : Option Char} (h : startsWord (some p) next = true) :
    p ≠ '_' := by
  rintro rfl
  cases h

/-- The first piece begins with the character before the rest of a name. -/
theorem exists_cut (p : Char) (cs : List Char) :
    ∃ first rest, CutAtCapitals (p :: cs) ((p :: first) :: rest) ∧
      snakeFrom (some p) cs = first.map Char.toLower ++ rest.flatMap fun piece => '_' :: piece.map Char.toLower := by
  induction cs generalizing p with
  | nil => exact ⟨[], [], ⟨rfl, by simp, .singleton _⟩, rfl⟩
  | cons c cs ih =>
    obtain ⟨first, rest, hCut, hSnake⟩ := ih c
    rw [snakeFrom_cons, hSnake]
    split
    · rename_i hBreak
      obtain ⟨hUpper, hStarts⟩ := Bool.and_eq_true_iff.mp hBreak
      refine ⟨[], (c :: first) :: rest, ⟨?_, ?_, ?_⟩, rfl⟩
      · rw [List.flatten_cons, hCut.whole]
        rfl
      · exact List.forall_mem_cons.mpr ⟨List.cons_ne_nil _ _, hCut.nonempty⟩
      · have hNext : [p].getLast? ≠ some '_' ∧ (c :: first).head?.any Char.isUpper = true :=
          ⟨fun hLast => ne_underscore_of_startsWord hStarts (Option.some.inj hLast), hUpper⟩
        exact hCut.apart.cons_cons hNext
    · refine ⟨c :: first, rest, ⟨?_, ?_, ?_⟩, rfl⟩
      · have hWhole := congrArg (p :: ·) hCut.whole
        simpa using hWhole
      · exact List.forall_mem_cons.mpr ⟨List.cons_ne_nil _ _, (List.forall_mem_cons.mp hCut.nonempty).2⟩
      · exact hCut.apart.cons_of_imp fun next hNext => by simpa using hNext

theorem exists_pieces (name : String) :
    ∃ pieces, CutAtCapitals name.toList pieces ∧
      (snake name).toList = ['_'].intercalate (pieces.map fun piece => piece.map Char.toLower) := by
  rw [snake, String.toList_ofList]
  cases name.toList with
  | nil => exact ⟨[], ⟨rfl, by simp, .nil⟩, rfl⟩
  | cons c cs =>
    obtain ⟨first, rest, hCut, hSnake⟩ := exists_cut c cs
    refine ⟨_, hCut, ?_⟩
    have hNone : (c.isUpper && startsWord none cs.head?) = false := Bool.and_false _
    rw [snakeFrom_cons, hNone, hSnake, List.map_cons, intercalate_underscore, List.flatMap_map]
    rfl

theorem isSnakeOf_snake (name : String) : IsSnakeOf name (snake name) := by
  have hSmall : ∀ c ∈ (snake name).toList, c.isUpper = false := by
    rw [snake, String.toList_ofList]
    exact not_upper_of_mem_snakeFrom none
  exact ⟨hSmall, exists_pieces name, snake_of_small hSmall⟩

/-! ### Words -/

theorem isSmallWord_cons {c : Char} {cs : List Char} (h : isSmallWord (c :: cs) = true) :
    c.isLower = true ∧ ∀ d ∈ cs, (d.isLower || d.isDigit) = true := by
  obtain ⟨hFirst, hRest⟩ := Bool.and_eq_true_iff.mp h
  exact ⟨hFirst, List.all_eq_true.mp hRest⟩

theorem ne_underscore_of_isSmallWord {word : List Char} (h : isSmallWord word = true) : '_' ∉ word := by
  cases word with
  | nil => exact List.not_mem_nil
  | cons c cs =>
    obtain ⟨hFirst, hRest⟩ := isSmallWord_cons h
    intro hMem
    rcases List.mem_cons.mp hMem with rfl | hMem
    · cases hFirst
    · cases hRest '_' hMem

/-- Behind the first letter of a name in Pascal case, an underscore is put before each other word. -/
theorem snakeFrom_words {c : Char} {cs : List Char} {words : List (List Char)}
    (hSmall : ∀ word ∈ (c :: cs) :: words, isSmallWord word = true)
    (hLong : ∀ word ∈ ((c :: cs) :: words).dropLast, 2 ≤ word.length) :
    snakeFrom (some c.toUpper) (cs ++ words.flatMap capitalized) = cs ++ words.flatMap fun word => '_' :: word := by
  induction words generalizing c cs with
  | nil =>
    obtain ⟨-, hRest⟩ := isSmallWord_cons (hSmall _ List.mem_cons_self)
    exact snakeFrom_append (fun d hMem => not_upper_of_small (hRest d hMem)) _ []
  | cons word words ih =>
    obtain ⟨hFirst, hOthers⟩ := List.forall_mem_cons.mp hSmall
    obtain ⟨-, hRest⟩ := isSmallWord_cons hFirst
    rw [snakeFrom_append fun d hMem => not_upper_of_small (hRest d hMem)]
    rw [List.dropLast_cons_cons, List.forall_mem_cons] at hLong
    -- The word before has a second character, so that no capital stands directly before the next one.
    obtain ⟨q, hLast⟩ : ∃ q, cs.getLast? = some q := by
      have hNe : cs ≠ [] := by
        rintro rfl
        exact absurd hLong.1 (Nat.not_succ_le_self 1)
      exact ⟨_, List.getLast?_eq_some_getLast hNe⟩
    have hQ := hRest q (List.mem_of_getLast? hLast)
    cases word with
    | nil => cases hOthers [] List.mem_cons_self
    | cons d ds =>
      obtain ⟨hLower, -⟩ := isSmallWord_cons (hOthers _ List.mem_cons_self)
      have hBreak : ∀ next, (d.toUpper.isUpper && startsWord (some q) next) = true := by
        intro next
        rw [isUpper_toUpper hLower, startsWord, hQ]
        rfl
      rw [hLast, List.flatMap_cons, capitalized, List.cons_append, Option.some_or, snakeFrom_cons, hBreak,
        toLower_toUpper hLower, ih hOthers hLong.2]
      rfl

theorem intercalate_toList (words : List String) :
    ("_".intercalate words).toList = ['_'].intercalate (words.map String.toList) := String.toList_intercalate

theorem words_intercalate {words : List String} (h : AreWords words) :
    Naming.words ("_".intercalate words) = words.map String.toList := by
  have hAlone : ∀ word ∈ words.map String.toList, splitOn '_' word = [word] :=
    List.forall_mem_map.mpr fun word hWord => splitOn_of_not_mem (ne_underscore_of_isSmallWord (h.small word hWord))
  have hNe : words.map String.toList ≠ [] := by simpa using h.nonempty
  rw [Naming.words, intercalate_toList, splitOn_intercalate '_' hNe, List.flatMap_congr hAlone,
    List.flatMap_singleton']

/-- Words that underscores join come back from Pascal case. -/
theorem snake_pascal {words : List String} (h : AreWords words) :
    snake (pascal ("_".intercalate words)) = "_".intercalate words := by
  have hSmall : ∀ word ∈ words.map String.toList, isSmallWord word = true := List.forall_mem_map.mpr h.small
  have hLong : ∀ word ∈ (words.map String.toList).dropLast, 2 ≤ word.length := by
    rw [← List.map_dropLast]
    exact List.forall_mem_map.mpr h.long
  rw [← String.toList_inj, snake, String.toList_ofList, pascal_toList, spelling, words_intercalate h,
    intercalate_toList]
  cases hWords : words.map String.toList with
  | nil => exact absurd (List.map_eq_nil_iff.mp hWords) h.nonempty
  | cons first rest =>
    rw [hWords] at hSmall hLong
    cases first with
    | nil => cases hSmall [] List.mem_cons_self
    | cons c cs =>
      obtain ⟨hLower, -⟩ := isSmallWord_cons (hSmall _ List.mem_cons_self)
      have hDigit : c.toUpper.isDigit = false := by
        apply isDigit_toUpper
        rw [isLower_iff] at hLower
        rw [← Bool.not_eq_true, isDigit_iff]
        omega
      have hLead : lead (c.toUpper :: (cs ++ rest.flatMap capitalized)) = [] := by
        rw [lead, hDigit]
        rfl
      have hNone : ∀ next, (c.toUpper.isUpper && startsWord none next) = false := fun _ => Bool.and_false _
      rw [List.flatMap_cons, capitalized, List.cons_append, hLead, List.nil_append, snakeFrom_cons, hNone,
        toLower_toUpper hLower, snakeFrom_words hSmall hLong, intercalate_underscore]
      rfl

/-- The snake-case form of a name holds no capitals, consists of the name in small letters with single underscores
between pieces of it, and is its own snake-case form. Words in snake case are the snake-case form of what they become
in Pascal case. -/
theorem snake_canonical : (∀ name, IsSnakeOf name (snake name)) ∧
    ∀ words, AreWords words → snake (pascal ("_".intercalate words)) = "_".intercalate words :=
  ⟨isSnakeOf_snake, fun _ => snake_pascal⟩

theorem snake_canonical_shortEnd : AreWords ["http2", "is", "ok", "x"] ∧
    snake (pascal ("_".intercalate ["http2", "is", "ok", "x"])) = "_".intercalate ["http2", "is", "ok", "x"] := by
  have hWords : AreWords ["http2", "is", "ok", "x"] := by
    constructor <;> decide
  exact ⟨hWords, snake_canonical.2 _ hWords⟩

-- A word of one letter may be lost in a run of capitals.
example : snake (pascal "is_a_b") = "is_ab" := by decide

end ProtoBind.Naming
