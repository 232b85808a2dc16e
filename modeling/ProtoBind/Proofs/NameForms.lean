import ProtoBind.Emit.LocalNames
import ProtoBind.Graph.Constants
import ProtoBind.Proofs.LocalPackages
import ProtoBind.Proofs.TypeGrammar
import ProtoBind.Proofs.TypeNames

/-!
# Names that can be declared

The names that emission makes of the names of a schema are words of the emitted language and none of those
it keeps for itself. A single underscore is the one name that not every conversion avoids.
-/

set_option autoImplicit false

namespace ProtoBind.Naming

open Text Source

/-! ## Words and keywords -/

theorem isSchemaName_iff {name : String} :
    isSchemaName name = true ↔ (∃ c cs, name.toList = c :: cs ∧ c.isDigit = false)
      ∧ ∀ c ∈ name.toList, isNameChar c = true := by
  constructor
  · intro h
    refine ⟨?_, fun c => isNameChar_of_mem h⟩
    unfold isSchemaName at h
    split at h
    · cases h
    · rename_i c cs hName
      refine ⟨c, cs, hName, ?_⟩
      have hFirst := (Bool.and_eq_true_iff.mp h).1
      rw [Bool.or_eq_true, isAlpha_iff, beq_iff_eq, eq_iff_toNat] at hFirst
      rw [← Bool.not_eq_true, isDigit_iff]
      have hUnderscore : '_'.toNat = 95 := rfl
      omega
  · rintro ⟨⟨c, cs, hName, hDigit⟩, hChars⟩
    rw [hName] at hChars
    rw [← String.ofList_toList (s := name), hName]
    exact isSchemaName_cons (hChars c List.mem_cons_self) (by simp [hDigit])
      fun d hMem => hChars d (List.mem_cons_of_mem _ hMem)

theorem isSchemaName_append {front back : String} (hFront : isSchemaName front = true)
    (hBack : ∀ c ∈ back.toList, isNameChar c = true) : isSchemaName (front ++ back) = true := by
  rw [isSchemaName_iff] at hFront ⊢
  obtain ⟨⟨c, cs, hName, hDigit⟩, hChars⟩ := hFront
  rw [String.toList_append]
  refine ⟨⟨c, cs ++ back.toList, by rw [hName]; rfl, hDigit⟩, ?_⟩
  intro d hMem
  exact (List.mem_append.mp hMem).elim (hChars d) (hBack d)

theorem isSchemaName_repeatedly {suffix name : String} (hName : isSchemaName name = true)
    (hSuffix : ∀ c ∈ suffix.toList, isNameChar c = true) (n : Nat) :
    isSchemaName (repeatedly suffix name n) = true := by
  induction n with
  | zero => exact hName
  | succ n ih => exact isSchemaName_append ih hSuffix

theorem repeatedly_toList (suffix name : String) (n : Nat) :
    ∃ more, (repeatedly suffix name n).toList = name.toList ++ more ∧ (n ≠ 0 → suffix ≠ "" → more ≠ []) := by
  induction n with
  | zero => exact ⟨[], (List.append_nil _).symm, fun h => absurd rfl h⟩
  | succ n ih =>
    obtain ⟨more, hMore, -⟩ := ih
    refine ⟨more ++ suffix.toList, ?_, ?_⟩
    · rw [repeatedly, String.toList_append, hMore, List.append_assoc]
    · intro _ hSuffix hNil
      exact hSuffix (String.toList_eq_nil_iff.mp (List.append_eq_nil_iff.mp hNil).2)

theorem repeatedly_injective {suffix : String} (hSuffix : suffix ≠ "") (name : String) :
    Function.Injective (repeatedly suffix name) := by
  have hPositive : 0 < suffix.length := Nat.pos_of_ne_zero fun hZero =>
    hSuffix (String.toList_eq_nil_iff.mp (List.length_eq_zero_iff.mp hZero))
  have hLength : ∀ n, (repeatedly suffix name n).length = name.length + n * suffix.length := by
    intro n
    induction n with
    | zero => simp [repeatedly]
    | succ n ih => rw [repeatedly, String.length_append, ih, Nat.succ_mul, Nat.add_assoc]
  intro m n h
  have hSame := congrArg String.length h
  rw [hLength, hLength] at hSame
  exact Nat.eq_of_mul_eq_mul_right hPositive (Nat.add_left_cancel hSame)

/-- The name with some number of suffixes is the free one. -/
theorem withSuffix_eq (suffix : String) (busy : List String) (name : String) :
    ∃ n, withSuffix suffix busy name = repeatedly suffix name n := ⟨_, rfl⟩

theorem underscore_not_mem_keyword : ∀ word ∈ keywords, '_' ∉ word.toList := by decide

theorem capital_keyword : ∀ word ∈ keywords, word.toList.head?.any Char.isUpper = true → word = "Self" := by
  decide

/-- The words that are kept for the language are those that it reserves, and the underscore. -/
theorem perm_reservedWords : Parser.reservedWords.Perm ("_" :: keywords) := by decide +kernel

theorem isName_iff {name : String} : Parser.isName name = true ↔ name ∉ keywords ∧ name ≠ "_" := by
  simp [Parser.isName, perm_reservedWords.mem_iff, and_comm]

theorem isDeclarable_of_isSchemaName {name : String} (hName : isSchemaName name = true)
    (hKeyword : name ∉ keywords) (hUnderscore : name ≠ "_") : isDeclarable name = true := by
  rw [isDeclarable, isWord, hName, Bool.true_or, Bool.true_and, isName_iff]
  exact ⟨hKeyword, hUnderscore⟩

theorem isDeclarable_of_underscore {name : String} (hName : isSchemaName name = true)
    (hMem : '_' ∈ name.toList) (hUnderscore : name ≠ "_") : isDeclarable name = true :=
  isDeclarable_of_isSchemaName hName (fun hKeyword => underscore_not_mem_keyword name hKeyword hMem) hUnderscore

/-! ## Capitalized names -/

def isCapital (name : String) : Bool := isSchemaName name && name.toList.head?.any Char.isUpper

theorem isDeclarable_of_isCapital {name : String} (hName : isCapital name = true) (hSelf : name ≠ "Self") :
    isDeclarable name = true := by
  obtain ⟨hSchema, hCapital⟩ := Bool.and_eq_true_iff.mp hName
  apply isDeclarable_of_isSchemaName hSchema
  · exact fun hKeyword => hSelf (capital_keyword name hKeyword hCapital)
  · rintro rfl
    cases hCapital

theorem isCapital_append {front back : String} (hFront : isCapital front = true)
    (hBack : ∀ c ∈ back.toList, isNameChar c = true) : isCapital (front ++ back) = true := by
  obtain ⟨hSchema, hCapital⟩ := Bool.and_eq_true_iff.mp hFront
  refine Bool.and_eq_true_iff.mpr ⟨isSchemaName_append hSchema hBack, ?_⟩
  rw [String.toList_append]
  cases hName : front.toList with
  | nil =>
    rw [hName] at hCapital
    cases hCapital
  | cons c cs => rwa [hName] at hCapital

theorem spelling_begins {name : String} (h : isSchemaName name = true) :
    ∃ c cs, spelling name = c :: cs ∧ c.isUpper = true := by
  obtain ⟨c, cs, hSpelling, hLower, hDigit⟩ := exists_spelling name
  have hAlphanum : c.isAlphanum = true := by
    apply isAlphanum_of_mem_spelling h
    rw [hSpelling]
    exact List.mem_cons_self
  refine ⟨c, cs, hSpelling, ?_⟩
  rw [← Bool.not_eq_true, isLower_iff] at hLower
  rw [← Bool.not_eq_true, isDigit_iff] at hDigit
  rw [isAlphanum_iff] at hAlphanum
  rw [isUpper_iff]
  omega

theorem isNameChar_of_isAlphanum {c : Char} (h : c.isAlphanum = true) : isNameChar c = true := by
  rw [isNameChar, h, Bool.true_or]

theorem isCapital_of_toList {name : String} {c : Char} {cs : List Char} (hName : name.toList = c :: cs)
    (hCapital : c.isUpper = true) (hChars : ∀ d ∈ name.toList, isNameChar d = true) :
    isCapital name = true := by
  refine Bool.and_eq_true_iff.mpr ⟨isSchemaName_iff.mpr ⟨⟨c, cs, hName, ?_⟩, hChars⟩, ?_⟩
  · rw [isUpper_iff] at hCapital
    rw [← Bool.not_eq_true, isDigit_iff]
    omega
  · rw [hName]
    exact hCapital

theorem isCapital_pascal {name : String} (h : isSchemaName name = true) :
    isCapital (pascal name) = true := by
  obtain ⟨c, cs, hSpelling, hCapital⟩ := spelling_begins h
  apply isCapital_of_toList (by rw [pascal_toList, hSpelling]) hCapital
  intro d hMem
  rw [pascal_toList] at hMem
  exact isNameChar_of_isAlphanum (isAlphanum_of_mem_spelling h hMem)

theorem isCapital_typePathName {path : List String} (hNe : path ≠ [])
    (h : ∀ name ∈ path, isSchemaName name = true) : isCapital (typePathName path) = true := by
  obtain ⟨first, rest, rfl⟩ := List.exists_cons_of_ne_nil hNe
  obtain ⟨c, cs, hSpelling, hCapital⟩ := spelling_begins (h first List.mem_cons_self)
  have hFlat : flatSpelling (first :: rest) = c :: (cs ++ flatSpelling rest) := by
    rw [flatSpelling, List.flatMap_cons, hSpelling]
    rfl
  have hName : ∃ more, (typePathName (first :: rest)).toList = c :: more := by
    rw [typePathName, escapeTypeName_toList, join_pascal, hFlat]
    split
    · exact ⟨_, rfl⟩
    · exact ⟨_, rfl⟩
  obtain ⟨more, hName⟩ := hName
  exact isCapital_of_toList hName hCapital fun d hMem => isNameChar_of_mem_typePathName h hMem

theorem escapeTypeName_ne_self (name : String) : escapeTypeName name ≠ "Self" := by
  unfold escapeTypeName
  split
  · intro hSelf
    have hLast := congrArg (fun s => s.toList.getLast?) hSelf
    simp [String.toList_append] at hLast
  · rename_i hOther
    rintro rfl
    exact hOther (by decide)

/-- The type name of a path can be declared. -/
theorem isDeclarable_typePathName {path : List String} (hNe : path ≠ [])
    (h : ∀ name ∈ path, isSchemaName name = true) : isDeclarable (typePathName path) = true :=
  isDeclarable_of_isCapital (isCapital_typePathName hNe h) (escapeTypeName_ne_self _)

theorem isDeclarable_typeName {name : String} (h : isSchemaName name = true) :
    isDeclarable (typeName name) = true := by
  have hPath : typeName name = typePathName [name] := by
    rw [typeName, typePathName, List.map_singleton]
    simp [String.join]
  rw [hPath]
  exact isDeclarable_typePathName (by simp) (by simpa using h)

/-- A name that holds two capitals is not kept for something else. -/
theorem ne_self_of_capitals {front back : String} (hFront : front ≠ "") {c : Char} (hMem : c ∈ back.toList)
    (hCapital : c.isUpper = true) : front ++ back ≠ "Self" := by
  intro hSelf
  have hList := congrArg String.toList hSelf
  rw [String.toList_append] at hList
  cases hName : front.toList with
  | nil => exact hFront (String.toList_eq_nil_iff.mp hName)
  | cons d ds =>
    rw [hName] at hList
    have hTail : ds ++ back.toList = ['e', 'l', 'f'] := (List.cons.inj hList).2
    have hSmall : ∀ d ∈ ['e', 'l', 'f'], d.isUpper = false := forall_mem_of_all (by decide)
    have hFalse := hSmall c (hTail ▸ List.mem_append_right ds hMem)
    rw [hFalse] at hCapital
    cases hCapital

theorem isDeclarable_append_of_capitals {front back : String} (hFront : isCapital front = true)
    (hBack : isCapital back = true) (n : Nat) :
    isDeclarable (repeatedly "Oneof" (front ++ back) n) = true := by
  obtain ⟨hSchema, hCapital⟩ := Bool.and_eq_true_iff.mp hBack
  have hChars : ∀ c ∈ back.toList, isNameChar c = true := fun c => isNameChar_of_mem hSchema
  obtain ⟨c, hMem, hUpper⟩ : ∃ c ∈ back.toList, c.isUpper = true := by
    cases hName : back.toList with
    | nil =>
      rw [hName] at hCapital
      cases hCapital
    | cons c cs =>
      rw [hName] at hCapital
      exact ⟨c, List.mem_cons_self, hCapital⟩
  have hRepeated : isCapital (repeatedly "Oneof" (front ++ back) n) = true := by
    induction n with
    | zero => exact isCapital_append hFront hChars
    | succ n ih => exact isCapital_append ih (forall_mem_of_all (by decide))
  obtain ⟨more, hMore, -⟩ := repeatedly_toList "Oneof" (front ++ back) n
  have hText : repeatedly "Oneof" (front ++ back) n = front ++ (back ++ String.ofList more) := by
    rw [← String.toList_inj, hMore]
    simp
  apply isDeclarable_of_isCapital hRepeated
  rw [hText]
  refine ne_self_of_capitals ?_ (c := c) ?_ hUpper
  · rintro rfl
    cases hFront
  · rw [String.toList_append]
    exact List.mem_append_left _ hMem

/-! ## Names in lower case -/

theorem isNameChar_toLower {c : Char} (h : isNameChar c = true) : isNameChar c.toLower = true := by
  rw [isNameChar, Bool.or_eq_true, beq_iff_eq] at h
  rcases h with hAlphanum | rfl
  · apply isNameChar_of_isAlphanum
    rw [isAlphanum_iff] at hAlphanum ⊢
    rw [toNat_toLower]
    split <;> omega
  · rfl

theorem isNameChar_toUpper {c : Char} (h : isNameChar c = true) : isNameChar c.toUpper = true := by
  rw [isNameChar, Bool.or_eq_true, beq_iff_eq] at h
  rcases h with hAlphanum | rfl
  · exact isNameChar_of_isAlphanum (isAlphanum_toUpper hAlphanum)
  · rfl

theorem isNameChar_of_mem_snakeFrom {cs : List Char} (h : ∀ c ∈ cs, isNameChar c = true)
    (previous : Option Char) : ∀ c ∈ snakeFrom previous cs, isNameChar c = true := by
  induction cs generalizing previous with
  | nil =>
    intro c hMem
    cases hMem
  | cons d cs ih =>
    have hRest := ih (fun c hMem => h c (List.mem_cons_of_mem _ hMem)) (some d)
    have hFirst := h d List.mem_cons_self
    intro c hMem
    rw [snakeFrom] at hMem
    split at hMem
    · split at hMem
      · rcases List.mem_cons.mp hMem with rfl | hMem
        · rfl
        · rcases List.mem_cons.mp hMem with rfl | hMem
          · exact isNameChar_toLower hFirst
          · exact hRest c hMem
      · rcases List.mem_cons.mp hMem with rfl | hMem
        · exact isNameChar_toLower hFirst
        · exact hRest c hMem
    · rcases List.mem_cons.mp hMem with rfl | hMem
      · exact hFirst
      · exact hRest c hMem

theorem isSchemaName_snake {name : String} (h : isSchemaName name = true) :
    isSchemaName (snake name) = true := by
  obtain ⟨⟨c, cs, hName, hDigit⟩, hChars⟩ := isSchemaName_iff.mp h
  rw [isSchemaName_iff, snake, String.toList_ofList]
  refine ⟨?_, isNameChar_of_mem_snakeFrom hChars none⟩
  rw [hName, snakeFrom]
  split
  · exact ⟨_, _, rfl, isDigit_toLower hDigit⟩
  · exact ⟨_, _, rfl, hDigit⟩

theorem isSchemaName_upper {name : String} (h : isSchemaName name = true) :
    isSchemaName (upper name) = true := by
  obtain ⟨⟨c, cs, hName, hDigit⟩, hChars⟩ := isSchemaName_iff.mp h
  rw [isSchemaName_iff, upper, String.toList_ofList]
  constructor
  · rw [hName]
    exact ⟨_, _, rfl, isDigit_toUpper hDigit⟩
  · intro d hMem
    obtain ⟨c, hChar, rfl⟩ := List.mem_map.mp hMem
    exact isNameChar_toUpper (hChars c hChar)

theorem snake_eq_underscore {name : String} (h : snake name = "_") : name = "_" := by
  rw [← String.toList_inj, snake, String.toList_ofList] at h
  rw [← String.toList_inj]
  cases hName : name.toList with
  | nil =>
    rw [hName] at h
    cases h
  | cons c cs =>
    rw [hName, snakeFrom] at h
    split at h
    · rename_i hUpper
      have hUnderscore : c.toLower = '_' := (List.cons.inj h).1
      rw [isUpper_iff] at hUpper
      rw [eq_iff_toNat, toNat_toLower, if_pos hUpper] at hUnderscore
      have : '_'.toNat = 95 := rfl
      omega
    · obtain ⟨rfl, hRest⟩ := List.cons.inj h
      cases cs with
      | nil => rfl
      | cons d ds =>
        rw [snakeFrom] at hRest
        split at hRest
        · split at hRest <;> cases hRest
        · cases hRest

/-- A name with an underscore behind it where it is taken is a single underscore only if it was one. -/
theorem repeatedly_ne_underscore {name : String} (hName : name ≠ "") (hUnderscore : name ≠ "_") (n : Nat) :
    repeatedly "_" name n ≠ "_" := by
  cases n with
  | zero => exact hUnderscore
  | succ n =>
    obtain ⟨more, hMore, hNe⟩ := repeatedly_toList "_" name (n + 1)
    intro h
    rw [← String.toList_inj, hMore] at h
    cases hList : name.toList with
    | nil => exact hName (String.toList_eq_nil_iff.mp hList)
    | cons c cs =>
      rw [hList] at h
      have hNil : cs ++ more = [] := (List.cons.inj h).2
      exact hNe (by simp) (by decide) (List.append_eq_nil_iff.mp hNil).2

theorem ne_empty_of_isSchemaName {name : String} (h : isSchemaName name = true) : name ≠ "" := by
  rintro rfl
  cases h

theorem isNameChar_underscore : ∀ c ∈ "_".toList, isNameChar c = true := forall_mem_of_all (by decide)

/-! ## Names of fields, methods and constants -/

theorem isDeclarable_rootWord : ∀ word ∈ rootWords, isDeclarable (word ++ "_") = true := by decide

theorem isDeclarable_keyword :
    ∀ word ∈ keywords, word ∉ rootWords → isDeclarable ("r#" ++ word) = true := by
  decide +kernel

/-- The identifier of a field can be declared. -/
theorem isDeclarable_fieldIdentifier {name : String} (h : isSchemaName name = true) :
    isDeclarable (fieldIdentifier name) = true := by
  unfold fieldIdentifier
  split
  · rename_i hRoot
    exact isDeclarable_rootWord name hRoot
  split
  · rename_i hRoot hKeyword
    exact isDeclarable_keyword name (List.elem_iff.mp hKeyword) hRoot
  · rename_i hRoot hKeyword
    apply isDeclarable_of_isSchemaName h
    · exact fun hMem => hKeyword (List.elem_iff.mpr hMem)
    · rintro rfl
      exact hRoot (by decide)

/-- The name of a method that is not a single underscore can be declared. -/
theorem isDeclarable_methodName {name : String} (used : List String) (h : isSchemaName name = true)
    (hUnderscore : name ≠ "_") : isDeclarable (withSuffix "_" (used ++ keywords) (snake name)) = true := by
  have hFree : withSuffix "_" (used ++ keywords) (snake name) ∉ used ++ keywords :=
    firstFree_not_mem (repeatedly_injective (by decide) _) _
  obtain ⟨n, hName⟩ := withSuffix_eq "_" (used ++ keywords) (snake name)
  have hSnake := isSchemaName_snake h
  rw [hName] at hFree ⊢
  apply isDeclarable_of_isSchemaName (isSchemaName_repeatedly hSnake isNameChar_underscore n)
  · exact fun hKeyword => hFree (List.mem_append_right _ hKeyword)
  · exact repeatedly_ne_underscore (ne_empty_of_isSchemaName hSnake)
      (fun hSelf => hUnderscore (snake_eq_underscore hSelf)) n

/-- The name of a method that returns a member of a oneof can be declared. -/
theorem isDeclarable_getter {name : String} (used : List String) (h : isSchemaName name = true) :
    isDeclarable (withSuffix "_" used ("get_" ++ snake name)) = true := by
  obtain ⟨n, hName⟩ := withSuffix_eq "_" used ("get_" ++ snake name)
  obtain ⟨more, hMore, -⟩ := repeatedly_toList "_" ("get_" ++ snake name) n
  have hGetter : isSchemaName ("get_" ++ snake name) = true :=
    isSchemaName_append (by decide) fun c => isNameChar_of_mem (isSchemaName_snake h)
  have hList : (repeatedly "_" ("get_" ++ snake name) n).toList
      = 'g' :: 'e' :: 't' :: '_' :: ((snake name).toList ++ more) := by
    rw [hMore, String.toList_append]
    rfl
  rw [hName]
  apply isDeclarable_of_underscore (isSchemaName_repeatedly hGetter isNameChar_underscore n)
  · rw [hList]
    simp
  · rw [Ne, ← String.toList_inj, hList]
    simp

/-- The constant of a value can be declared. -/
theorem isDeclarable_constant {stem name : String} (used : List String)
    (hStem : stem = "" ∨ isSchemaName stem = true) (h : isSchemaName name = true) :
    isDeclarable (withSuffix "_" used (stem ++ "_" ++ upper name)) = true := by
  obtain ⟨n, hName⟩ := withSuffix_eq "_" used (stem ++ "_" ++ upper name)
  obtain ⟨more, hMore, -⟩ := repeatedly_toList "_" (stem ++ "_" ++ upper name) n
  have hUpper := isSchemaName_upper h
  have hConstant : isSchemaName (stem ++ "_" ++ upper name) = true := by
    apply isSchemaName_append _ fun c => isNameChar_of_mem hUpper
    rcases hStem with rfl | hStem
    · rfl
    · exact isSchemaName_append hStem isNameChar_underscore
  rw [hName]
  apply isDeclarable_of_underscore (isSchemaName_repeatedly hConstant isNameChar_underscore n)
  · rw [hMore]
    simp
  · obtain ⟨⟨c, cs, hList, -⟩, -⟩ := isSchemaName_iff.mp hUpper
    rw [Ne, ← String.toList_inj, hMore]
    simp only [String.toList_append, hList]
    intro hUnderscore
    have hLength := congrArg List.length hUnderscore
    simp at hLength
    omega

theorem isSchemaName_prefix {name stem : String} (h : isSchemaName name = true)
    (hPrefix : stem.toList <+: name.toList) : stem = "" ∨ isSchemaName stem = true := by
  obtain ⟨back, hBack⟩ := hPrefix
  obtain ⟨⟨c, cs, hName, hDigit⟩, hChars⟩ := isSchemaName_iff.mp h
  cases hStem : stem.toList with
  | nil => exact .inl (String.toList_eq_nil_iff.mp hStem)
  | cons d ds =>
    right
    rw [hStem, hName, List.cons_append] at hBack
    obtain rfl := (List.cons.inj hBack).1
    rw [isSchemaName_iff]
    refine ⟨⟨d, ds, hStem, hDigit⟩, ?_⟩
    intro e hMem
    apply hChars
    rw [hName, ← hBack, ← List.cons_append, ← hStem]
    exact List.mem_append_left _ hMem

theorem reverse_dropWhile_reverse_prefix (p : Char → Bool) (cs : List Char) :
    (cs.reverse.dropWhile p).reverse <+: cs := by
  have hSuffix : cs.reverse.dropWhile p <:+ cs.reverse := List.dropWhile_suffix p
  have hPrefix := List.reverse_prefix.mpr hSuffix
  rwa [List.reverse_reverse] at hPrefix

/-- What the constants of an enum begin with is a name, or nothing. -/
theorem isSchemaName_constantPrefix {e : EnumNode} (hName : isSchemaName e.decl.name = true)
    (hPath : ∀ name ∈ e.typeName, isSchemaName name = true)
    (hParent : e.parent ≠ none → e.typeName.dropLast ≠ []) :
    e.constantPrefix = "" ∨ isSchemaName e.constantPrefix = true := by
  have hStem : ∀ name : String, isSchemaName name = true →
      screamingSnake (String.ofList (name.toList.reverse.dropWhile (· == '_')).reverse) = ""
        ∨ isSchemaName (screamingSnake
          (String.ofList (name.toList.reverse.dropWhile (· == '_')).reverse)) = true := by
    intro name hSchema
    have hPrefix : (String.ofList (name.toList.reverse.dropWhile (· == '_')).reverse).toList
        <+: name.toList := by
      rw [String.toList_ofList]
      exact reverse_dropWhile_reverse_prefix _ _
    rcases isSchemaName_prefix hSchema hPrefix with hEmpty | hSome
    · rw [hEmpty]
      exact .inl (by decide)
    · exact .inr (isSchemaName_upper (isSchemaName_snake hSome))
  unfold EnumNode.constantPrefix
  cases hCase : e.parent with
  | none => exact hStem _ (Bool.and_eq_true_iff.mp (isCapital_pascal hName)).1
  | some parent =>
    have hNe := hParent (by rw [hCase]; exact Option.some_ne_none parent)
    exact hStem _ (Bool.and_eq_true_iff.mp (isCapital_typePathName hNe fun name hMem =>
      hPath name (List.dropLast_subset _ hMem))).1

/-! ## Names of modules and packages -/

theorem isNameChar_moduleChar (c : Char) : isNameChar (moduleChar c) = true := by
  unfold moduleChar
  split
  · rename_i h
    simp only [Bool.or_eq_true, beq_iff_eq] at h
    rcases h with (hLower | hDigit) | rfl
    · apply isNameChar_of_isAlphanum
      rw [isLower_iff] at hLower
      rw [isAlphanum_iff]
      omega
    · exact isNameChar_of_isDigit hDigit
    · rfl
  split
  · rename_i hUpper
    apply isNameChar_toLower
    apply isNameChar_of_isAlphanum
    rw [isUpper_iff] at hUpper
    rw [isAlphanum_iff]
    omega
  · rfl

theorem isSchemaName_padStart {cs : List Char} (h : ∀ c ∈ cs, isNameChar c = true) :
    isSchemaName (String.ofList (padStart cs)) = true := by
  rw [isSchemaName_iff, String.toList_ofList]
  cases cs with
  | nil => exact ⟨⟨'_', [], rfl, rfl⟩, forall_mem_of_all (by decide)⟩
  | cons c cs =>
    rw [padStart]
    split
    · refine ⟨⟨'_', c :: cs, rfl, rfl⟩, ?_⟩
      intro d hMem
      rcases List.mem_cons.mp hMem with rfl | hMem
      · rfl
      · exact h d hMem
    · rename_i hDigit
      exact ⟨⟨c, cs, rfl, by simpa using hDigit⟩, h⟩

theorem isSchemaName_moduleName (name : String) : isSchemaName (moduleName name) = true := by
  have hPadded : isSchemaName (String.ofList (padStart (name.toList.map moduleChar))) = true := by
    apply isSchemaName_padStart
    intro c hMem
    obtain ⟨d, -, rfl⟩ := List.mem_map.mp hMem
    exact isNameChar_moduleChar d
  unfold moduleName
  dsimp only
  split
  · exact isSchemaName_append hPadded isNameChar_underscore
  · exact hPadded

theorem moduleName_not_mem_keywords (name : String) : moduleName name ∉ keywords := by
  unfold moduleName
  dsimp only
  split
  · intro hMem
    apply underscore_not_mem_keyword _ hMem
    rw [String.toList_append]
    exact List.mem_append_right _ (by decide)
  · rename_i hKeyword
    exact fun hMem => hKeyword (List.elem_iff.mpr hMem)

/-- The name of a module that is not a single underscore can be declared. -/
theorem isDeclarable_moduleName {name : String} (h : moduleName name ≠ "_") :
    isDeclarable (moduleName name) = true :=
  isDeclarable_of_isSchemaName (isSchemaName_moduleName name) (moduleName_not_mem_keywords name) h

end ProtoBind.Naming

namespace ProtoBind.Emit

open Naming Text Source

theorem isNumber_toString (n : Nat) : isNumber (toString n) = true := by
  rw [isNumber, Bool.and_eq_true]
  constructor
  · simp
  · rw [List.all_eq_true]
    exact fun c hMem => isDigit_of_mem_toString hMem

theorem isSchemaName_numbered {base : String} (h : isSchemaName base = true) (n : Nat) :
    isSchemaName (numbered base n) = true := by
  cases n with
  | zero => exact h
  | succ n =>
    apply isSchemaName_append h
    have hDigits := (Bool.and_eq_true_iff.mp (isNumber_toString (n + 1))).2
    exact fun c hMem => isNameChar_of_isDigit (List.all_eq_true.mp hDigits c hMem)

theorem numbered_eq_underscore {base : String} (hBase : base ≠ "") {n : Nat} (h : numbered base n = "_") :
    base = "_" := by
  cases n with
  | zero => exact h
  | succ n =>
    have hLength := congrArg String.length h
    have hDigits : toString (n + 1) ≠ "" := Nat.repr_ne_empty
    rw [numbered, String.length_append, show "_".length = 1 from rfl] at hLength
    have hFirst := mt String.length_eq_zero_iff.mp hBase
    have hSecond := mt String.length_eq_zero_iff.mp hDigits
    omega

/-- The local name of a package whose path does not end in a single underscore can be declared. -/
theorem isDeclarable_fresh (names : LocalNames) {importPath : String}
    (h : moduleName (baseName importPath) ≠ "_") : isDeclarable (names.fresh importPath) = true := by
  have hFree : names.fresh importPath ∉ names.busy :=
    firstFree_not_mem (numbered_injective _) names.busy
  obtain ⟨n, hName⟩ : ∃ n, names.fresh importPath = numbered (moduleName (baseName importPath)) n :=
    ⟨_, rfl⟩
  rw [hName] at hFree ⊢
  apply isDeclarable_of_isSchemaName (isSchemaName_numbered (isSchemaName_moduleName _) n)
  · exact fun hKeyword => hFree (List.mem_append_left _ (List.mem_append_right _ hKeyword))
  · exact fun hUnderscore => h (numbered_eq_underscore (ne_empty_of_isSchemaName
      (isSchemaName_moduleName _)) hUnderscore)

/-- Every package has a local name that can be declared, if none ends in a single underscore. -/
theorem isDeclarable_ofPaths {importPaths : List String}
    (h : ∀ path ∈ importPaths, moduleName (baseName path) ≠ "_") :
    ∀ e ∈ (LocalNames.ofPaths importPaths).entries, e.1 ∈ importPaths ∧ isDeclarable e.2 = true :=
  @LocalNames.forall_ofPaths _ (fun path name => path ∈ importPaths ∧ isDeclarable name = true)
    fun names path hPath => ⟨hPath, isDeclarable_fresh names (h path hPath)⟩

end ProtoBind.Emit
