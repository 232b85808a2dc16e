import ProtoBind.Naming.Case
import ProtoBind.Proofs.Characters
import ProtoBind.Proofs.Pieces

/-!
# Spelling of type names

A type is called by the words of the names that lead to it: underscores and the nesting of types leave no
trace. The underscore behind a reserved name cannot be mistaken for anything else.
-/

set_option autoImplicit false

namespace ProtoBind.Naming

open Text

def words (name : String) : List (List Char) := splitOn '_' name.toList

def capitalized : List Char → List Char
  | [] => []
  | c :: cs => c.toUpper :: cs

/-- The letter in front of a spelling that would be empty or begin with a digit. -/
def lead : List Char → List Char
  | [] => ['X']
  | c :: _ => if c.isDigit then ['X'] else []

def spelling (name : String) : List Char :=
  let body := (words name).flatMap capitalized
  lead body ++ body

/-- The spellings of the names of a path, one directly behind the other. -/
def flatSpelling (path : List String) : List Char := path.flatMap spelling

theorem humps_words (cs : List Char) :
    humps true cs = (splitOn '_' cs).flatMap capitalized ∧
      ∃ first rest, splitOn '_' cs = first :: rest ∧
        humps false cs = first ++ rest.flatMap capitalized := by
  induction cs with
  | nil => exact ⟨rfl, [], [], rfl, rfl⟩
  | cons c cs ih =>
    obtain ⟨hRaised, first, rest, hSplit, hPlain⟩ := ih
    by_cases hUnderscore : c = '_'
    · rw [splitOn, if_pos hUnderscore]
      have hHumps : ∀ raise, humps raise (c :: cs) = humps true cs := by
        intro raise
        rw [humps, if_pos hUnderscore]
      refine ⟨?_, [], splitOn '_' cs, rfl, ?_⟩
      · rw [hHumps, hRaised]
        rfl
      · rw [hHumps, hRaised]
        rfl
    · rw [splitOn, if_neg hUnderscore, hSplit]
      refine ⟨?_, c :: first, rest, rfl, ?_⟩
      · rw [humps, if_neg hUnderscore, hPlain]
        rfl
      · rw [humps, if_neg hUnderscore, hPlain]
        rfl

theorem pascal_toList (name : String) : (pascal name).toList = spelling name := by
  unfold pascal spelling words
  rw [← (humps_words name.toList).1]
  cases humps true name.toList with
  | nil => rfl
  | cons c cs =>
    change (String.ofList _).toList = lead (c :: cs) ++ c :: cs
    rw [String.toList_ofList, lead]
    split <;> rfl

theorem join_pascal (path : List String) :
    (String.join (path.map pascal)).toList = flatSpelling path := by
  rw [String.toList_join, List.flatMap_map]
  simp only [pascal_toList]
  rfl

theorem underscore_not_mem_capitalized {word : List Char} (h : '_' ∉ word) : '_' ∉ capitalized word := by
  cases word with
  | nil => exact h
  | cons c cs =>
    rw [List.mem_cons, not_or] at h
    rw [capitalized, List.mem_cons, not_or]
    exact ⟨(toUpper_ne_underscore (Ne.symm h.1)).symm, h.2⟩

theorem underscore_not_mem_lead (cs : List Char) : '_' ∉ lead cs := by
  cases cs with
  | nil => decide
  | cons c cs =>
    rw [lead]
    split <;> decide

theorem underscore_not_mem_flatSpelling (path : List String) : '_' ∉ flatSpelling path := by
  intro h
  obtain ⟨name, _, hName⟩ := List.mem_flatMap.mp h
  rcases List.mem_append.mp hName with hLead | hBody
  · exact underscore_not_mem_lead _ hLead
  · obtain ⟨word, hWord, hMem⟩ := List.mem_flatMap.mp hBody
    exact underscore_not_mem_capitalized (sep_not_mem_splitOn hWord) hMem

theorem escapeTypeName_toList (name : String) :
    (escapeTypeName name).toList
      = if name ∈ reservedTypeNames then name.toList ++ ['_'] else name.toList := by
  unfold escapeTypeName
  split
  · rw [String.toList_append]
    rfl
  · rfl

/-- Of names without an underscore, different ones stay different behind the escape. -/
theorem escapeTypeName_inj {a b : String} (hA : '_' ∉ a.toList) (hB : '_' ∉ b.toList) :
    escapeTypeName a = escapeTypeName b ↔ a = b := by
  refine ⟨fun h => ?_, congrArg escapeTypeName⟩
  rw [← String.toList_inj, escapeTypeName_toList, escapeTypeName_toList] at h
  split at h <;> split at h
  · exact String.toList_inj.mp (List.append_cancel_right h)
  · exact absurd (h ▸ List.mem_append_right _ List.mem_cons_self) hB
  · exact absurd (h ▸ List.mem_append_right _ List.mem_cons_self) hA
  · exact String.toList_inj.mp h

/-- Two paths share a type name exactly if they are spelled alike. -/
theorem typePathName_inj {a b : List String} :
    typePathName a = typePathName b ↔ flatSpelling a = flatSpelling b := by
  unfold typePathName
  rw [escapeTypeName_inj, ← String.toList_inj, join_pascal, join_pascal]
  · rw [join_pascal]
    exact underscore_not_mem_flatSpelling a
  · rw [join_pascal]
    exact underscore_not_mem_flatSpelling b

theorem head_flatMap_capitalized (ws : List (List Char)) :
    ws.flatMap capitalized = [] ∨ ∃ (c : Char) (cs : List Char), ws.flatMap capitalized = c.toUpper :: cs := by
  induction ws with
  | nil => exact .inl rfl
  | cons word ws ih =>
    cases word with
    | nil => exact ih
    | cons c cs => exact .inr ⟨c, cs ++ ws.flatMap capitalized, rfl⟩

/-- Neither a small letter nor a digit begins a spelling. -/
theorem exists_spelling (name : String) :
    ∃ c cs, spelling name = c :: cs ∧ c.isLower = false ∧ c.isDigit = false := by
  unfold spelling
  dsimp only
  rcases head_flatMap_capitalized (words name) with hNil | ⟨c, cs, hBody⟩
  · rw [hNil]
    exact ⟨'X', [], rfl, rfl, rfl⟩
  · rw [hBody, lead]
    split
    · exact ⟨'X', c.toUpper :: cs, rfl, rfl, rfl⟩
    · rename_i hDigit
      exact ⟨c.toUpper, cs, rfl, isLower_toUpper c, Bool.not_eq_true _ ▸ hDigit⟩

/-- A name without underscores that begins like a spelling is its own spelling. -/
theorem spelling_of_settled {name : String} {c : Char} {cs : List Char} (hName : name.toList = c :: cs)
    (hUnderscore : '_' ∉ name.toList) (hLower : c.isLower = false) (hDigit : c.isDigit = false) :
    spelling name = name.toList := by
  rw [← Bool.not_eq_true, isLower_iff] at hLower
  have hUpper : c.toUpper = c := by rw [eq_iff_toNat, toNat_toUpper, if_neg hLower]
  have hWords : (words name).flatMap capitalized = c :: cs := by
    rw [words, splitOn_of_not_mem hUnderscore, List.flatMap_singleton, hName, capitalized, hUpper]
  rw [spelling, hWords, hName]
  change lead (c :: cs) ++ c :: cs = c :: cs
  rw [lead, hDigit]
  rfl

theorem isAlphanum_of_mem_words {name : String} (h : isSchemaName name = true) {word : List Char}
    (hWord : word ∈ words name) {c : Char} (hMem : c ∈ word) : c.isAlphanum = true := by
  have hChar := isNameChar_of_mem h (mem_of_mem_splitOn hWord hMem)
  rw [isNameChar, Bool.or_eq_true, beq_iff_eq] at hChar
  rcases hChar with hAlphanum | rfl
  · exact hAlphanum
  · exact absurd hMem (sep_not_mem_splitOn hWord)

theorem isAlphanum_of_mem_spelling {name : String} (h : isSchemaName name = true) {c : Char}
    (hMem : c ∈ spelling name) : c.isAlphanum = true := by
  rcases List.mem_append.mp hMem with hLead | hBody
  · have hX : c = 'X' := by
      unfold lead at hLead
      split at hLead
      · exact List.mem_singleton.mp hLead
      · split at hLead
        · exact List.mem_singleton.mp hLead
        · cases hLead
    subst hX
    rfl
  · obtain ⟨word, hWord, hMem⟩ := List.mem_flatMap.mp hBody
    have hWordChars : ∀ d ∈ word, d.isAlphanum = true := fun d => isAlphanum_of_mem_words h hWord
    cases word with
    | nil => cases hMem
    | cons first rest =>
      rcases List.mem_cons.mp hMem with rfl | hMem
      · exact isAlphanum_toUpper (hWordChars first List.mem_cons_self)
      · exact hWordChars c (List.mem_cons_of_mem _ hMem)

/-- The type name of a path of schema names consists of their characters. -/
theorem isNameChar_of_mem_typePathName {path : List String}
    (h : ∀ name ∈ path, isSchemaName name = true) {c : Char}
    (hMem : c ∈ (typePathName path).toList) : isNameChar c = true := by
  have hFlat : ∀ d ∈ flatSpelling path, isNameChar d = true := by
    intro d hD
    obtain ⟨name, hName, hD⟩ := List.mem_flatMap.mp hD
    rw [isNameChar, isAlphanum_of_mem_spelling (h name hName) hD, Bool.true_or]
  rw [typePathName, escapeTypeName_toList, join_pascal] at hMem
  split at hMem
  · rcases List.mem_append.mp hMem with hMem | hUnderscore
    · exact hFlat c hMem
    · rw [List.mem_singleton.mp hUnderscore]
      rfl
  · exact hFlat c hMem

end ProtoBind.Naming
