import ProtoBind.Proofs.CodeTexts
import ProtoBind.Proofs.ConstantNames
import ProtoBind.Proofs.Numerals
import ProtoBind.Proofs.PathParts
import ProtoBind.Proofs.QuotedText

/-!
# Names of enum values

The printed type of an enum has a constant for every value and a method that finds the name of a number again. The
method has one arm for each number, in ascending order, and answers with the value that is declared first.
-/

set_option autoImplicit false

namespace ProtoBind.Emit

open Naming Text

/-! ### What is printed -/

def Denotes (literal value : String) : Prop :=
  ∃ body, literal.toList = '\x22' :: body ∧ Quoted.read .plain body = some (value.toList, [])

/-- An arm gives a number a name. -/
def Gives (arm : String) (number : Int) (name : String) : Prop :=
  ∃ literal, arm = toString number ++ " => Some(" ++ literal ++ ")," ∧ Denotes literal name

/-- What a match over a number comes to: the first arm with that number decides, the last one is for all numbers. -/
inductive Answers (number : Int) : List String → Option String → Prop
  | found {arm name : String} {arms : List String} (hArm : Gives arm number name) :
      Answers number (arm :: arms) (some name)
  | passed {arm name : String} {other : Int} {arms : List String} {answer : Option String}
      (hArm : Gives arm other name) (hOther : other ≠ number) (hRest : Answers number arms answer) :
      Answers number (arm :: arms) answer
  | missing : Answers number ["_ => None,"] none

/-- The numbers and names of arms: all numbers of the values, each once and in ascending order, with the name of the
first value that has it. -/
structure NamesFirst (values : List EnumValueDecl) (named : List (Int × String)) : Prop where
  ascending : (named.map (·.1)).Pairwise (· < ·)
  numbers : ∀ n, n ∈ named.map (·.1) ↔ ∃ value ∈ values, value.number = n
  first : ∀ e ∈ named, ∃ front value back, values = front ++ value :: back ∧ value.number = e.1 ∧
    value.name = e.2 ∧ ∀ earlier ∈ front, earlier.number ≠ e.1

/-- The constants of an enum: one for each value, with its own name and number. -/
structure ConstantsPrinted (e : EnumNode) (constants : List String) : Prop where
  length : constants.length = e.decl.values.length
  each : ∀ (i : Nat) (value : EnumValueDecl), e.decl.values[i]? = some value →
      ∃ name : String, e.constants[i]? = some name ∧
    constants[i]? = some ("pub const " ++ name ++ ": " ++ typePathName e.typeName ++ " = " ++ typePathName e.typeName
      ++ "(" ++ toString value.number ++ ");")

/-- The code of an enum: its type, its constants, and the method that matches on its number. -/
structure EnumPrinted (e : EnumNode) (texts : List String) : Prop where
  parts : ∃ constants arms named,
    texts = ["#[derive(Clone, Copy, Debug, Default, PartialEq, Eq, Hash, PartialOrd, Ord, Serialize, Deserialize)]",
        "#[serde(transparent)]", "pub struct " ++ typePathName e.typeName ++ "(pub i32);"] ++ constants
      ++ ["impl " ++ typePathName e.typeName ++ " \x7b", "pub fn name(self) -> Option<&'static str> \x7b",
        "match self.0 \x7b"] ++ (arms ++ ["_ => None,"]) ++ ["\x7d", "\x7d", "\x7d"] ∧
    ConstantsPrinted e constants ∧
    List.Forall₂ (fun arm given => Gives arm given.1 given.2) arms named ∧ NamesFirst e.decl.values named ∧
    ∀ n answer, Answers n (arms ++ ["_ => None,"]) answer ↔ answer = (e.decl.values.find? (·.number = n)).map (·.name)

/-! ### One value for each number -/

theorem mem_insertFirst {value other : EnumValueDecl} {named : List EnumValueDecl}
    (h : other ∈ insertFirst value named) : other = value ∨ other ∈ named := by
  induction named with
  | nil => exact .inl (List.mem_singleton.mp h)
  | cons first rest ih =>
    rw [insertFirst] at h
    split at h
    · exact List.mem_cons.mp h
    split at h
    · exact .inr h
    · rcases List.mem_cons.mp h with rfl | hRest
      · exact .inr List.mem_cons_self
      · exact (ih hRest).imp_right (List.mem_cons_of_mem _)

theorem ascending_insertFirst (value : EnumValueDecl) {named : List EnumValueDecl}
    (h : named.Pairwise (·.number < ·.number)) : (insertFirst value named).Pairwise (·.number < ·.number) := by
  induction named with
  | nil => exact List.pairwise_singleton _ _
  | cons first rest ih =>
    obtain ⟨hFirst, hRest⟩ := List.pairwise_cons.mp h
    rw [insertFirst]
    split
    · rename_i hLess
      refine List.pairwise_cons.mpr ⟨List.forall_mem_cons.mpr ⟨hLess, fun other hOther => ?_⟩, h⟩
      exact Int.lt_trans hLess (hFirst other hOther)
    split
    · exact h
    · rename_i hLess hSame
      refine List.pairwise_cons.mpr ⟨fun other hOther => ?_, ih hRest⟩
      rcases mem_insertFirst hOther with rfl | hMem
      · omega
      · exact hFirst other hMem

/-- A number that is named keeps its name. -/
theorem find?_insertFirst (value : EnumValueDecl) {named : List EnumValueDecl}
    (h : named.Pairwise (·.number < ·.number)) (n : Int) :
    (insertFirst value named).find? (·.number = n)
      = (named.find? (·.number = n)).or (if value.number = n then some value else none) := by
  induction named with
  | nil =>
    rw [insertFirst, List.find?_cons, List.find?_nil, Option.none_or]
    by_cases hValue : value.number = n <;> simp [hValue]
  | cons first rest ih =>
    obtain ⟨hFirst, hRest⟩ := List.pairwise_cons.mp h
    rw [insertFirst]
    split
    · rename_i hLess
      by_cases hValue : value.number = n
      · have hNone : (first :: rest).find? (·.number = n) = none := by
          rw [List.find?_eq_none, List.forall_mem_cons]
          refine ⟨by simp; omega, fun other hOther => ?_⟩
          have hAbove := hFirst other hOther
          simp
          omega
        rw [hNone, List.find?_cons]
        simp [hValue]
      · rw [List.find?_cons]
        simp [hValue]
    split
    · rename_i hSame
      by_cases hValue : value.number = n
      · simp [← hSame, hValue]
      · simp [hValue]
    · rw [List.find?_cons, List.find?_cons, ih hRest]
      by_cases hFound : first.number = n <;> simp [hFound]

theorem ascending_namedValues (values : List EnumValueDecl) :
    (namedValues values).Pairwise (·.number < ·.number) := by
  induction values using List.reverseRecOn with
  | nil => exact List.Pairwise.nil
  | append_singleton front value ih =>
    rw [namedValues, List.foldl_append]
    exact ascending_insertFirst value ih

/-- Among the named values a number has the one that is declared first. -/
theorem find?_namedValues (values : List EnumValueDecl) (n : Int) :
    (namedValues values).find? (·.number = n) = values.find? (·.number = n) := by
  induction values using List.reverseRecOn with
  | nil => rfl
  | append_singleton front value ih =>
    have hLast : namedValues (front ++ [value]) = insertFirst value (namedValues front) := by
      rw [namedValues, List.foldl_append]
      rfl
    rw [hLast, find?_insertFirst value (ascending_namedValues front), ih, List.find?_append, List.find?_cons,
      List.find?_nil]
    by_cases hValue : value.number = n <;> simp [hValue]

theorem find?_of_mem_namedValues {values : List EnumValueDecl} {value : EnumValueDecl}
    (h : value ∈ namedValues values) : values.find? (·.number = value.number) = some value := by
  obtain ⟨front, back, hNamed⟩ := List.append_of_mem h
  have hAscending := ascending_namedValues values
  rw [hNamed, List.pairwise_append] at hAscending
  rw [← find?_namedValues, List.find?_eq_some_iff_append]
  refine ⟨by simp, front, back, hNamed, fun earlier hEarlier => ?_⟩
  have hBelow := hAscending.2.2 earlier hEarlier value List.mem_cons_self
  simp
  omega

theorem namesFirst (values : List EnumValueDecl) :
    NamesFirst values ((namedValues values).map fun value => (value.number, value.name)) := by
  constructor
  case ascending =>
    rw [List.map_map, List.pairwise_map]
    exact ascending_namedValues values
  case numbers =>
    intro n
    have hSame := congrArg Option.isSome (find?_namedValues values n)
    rw [Bool.eq_iff_iff, List.find?_isSome, List.find?_isSome] at hSame
    simpa using hSame
  case first =>
    intro e hE
    obtain ⟨value, hValue, rfl⟩ := List.mem_map.mp hE
    obtain ⟨-, front, back, hValues, hFront⟩ := List.find?_eq_some_iff_append.mp (find?_of_mem_namedValues hValue)
    exact ⟨front, value, back, hValues, rfl, rfl, fun earlier hEarlier => by simpa using hFront earlier hEarlier⟩

/-! ### The arms -/

theorem denotes_encode (value : String) : Denotes (Quoted.encode value) value :=
  ⟨_, Quoted.encode_toList value, Quoted.read_encodeBody value.toList []⟩

def armText (value : EnumValueDecl) : String :=
  toString value.number ++ " => Some(" ++ Quoted.encode value.name ++ "),"

theorem gives_armText (value : EnumValueDecl) : Gives (armText value) value.number value.name :=
  ⟨Quoted.encode value.name, rfl, denotes_encode value.name⟩

theorem gives_toList {arm name : String} {n : Int} (h : Gives arm n name) : ∃ body,
    arm.toList = (toString n).toList ++ ' ' :: ("=> Some(".toList ++ '\x22' :: (body ++ "),".toList)) ∧
      Quoted.read .plain body = some (name.toList, []) := by
  obtain ⟨literal, rfl, body, hLiteral, hRead⟩ := h
  refine ⟨body, ?_, hRead⟩
  simp [String.toList_append, hLiteral]

/-- An arm gives one number one name. -/
theorem Gives.unique {arm name other : String} {m n : Int} (h : Gives arm m name) (hOther : Gives arm n other) :
    m = n ∧ name = other := by
  obtain ⟨body, hText, hRead⟩ := gives_toList h
  obtain ⟨otherBody, hOtherText, hOtherRead⟩ := gives_toList hOther
  have hBlank : ∀ k : Int, ' ' ∉ (toString k).toList := not_mem_toString (by decide) (by decide)
  have hCut := splitOnce_append (hBlank m) ("=> Some(".toList ++ '\x22' :: (body ++ "),".toList))
  rw [← hText, hOtherText, splitOnce_append (hBlank n), Option.some_inj, Prod.mk.injEq] at hCut
  have hNumber : toString n = toString m := String.toList_inj.mp hCut.1
  have hBody : otherBody = body := by simpa using hCut.2
  rw [hBody, hRead, Option.some_inj, Prod.mk.injEq] at hOtherRead
  exact ⟨(int_of_toString hNumber).symm, String.toList_inj.mp hOtherRead.1⟩

theorem not_gives_wildcard (n : Int) (name : String) : ¬ Gives "_ => None," n name := by
  intro h
  obtain ⟨body, hText, -⟩ := gives_toList h
  cases hDigits : (toString n).toList with
  | nil =>
    rw [hDigits] at hText
    exact absurd (List.cons.inj hText).1 (by decide)
  | cons c cs =>
    rw [hDigits, List.cons_append] at hText
    have hC : '_' = c := (List.cons.inj hText).1
    rcases mem_toString (hDigits ▸ List.mem_cons_self : c ∈ (toString n).toList) with hMinus | hDigit
    · exact absurd (hC.trans hMinus) (by decide)
    · exact absurd hDigit (hC ▸ by decide)

theorem Answers.unique {n : Int} {arms : List String} {answer other : Option String} (h : Answers n arms answer)
    (hOther : Answers n arms other) : answer = other := by
  induction h generalizing other with
  | found hArm =>
    cases hOther with
    | found hSecond => rw [(hArm.unique hSecond).2]
    | passed hSecond hDiffers _ => exact absurd (hSecond.unique hArm).1 hDiffers
    | missing => exact absurd hArm (not_gives_wildcard _ _)
  | passed hArm hDiffers hRest ih =>
    cases hOther with
    | found hSecond => exact absurd (hArm.unique hSecond).1 hDiffers
    | passed _ _ hOtherRest => exact ih hOtherRest
    | missing => exact absurd hArm (not_gives_wildcard _ _)
  | missing =>
    cases hOther with
    | found hSecond => exact absurd hSecond (not_gives_wildcard _ _)
    | passed hSecond _ _ => exact absurd hSecond (not_gives_wildcard _ _)
    | missing => rfl

theorem answers_arms (named : List EnumValueDecl) (n : Int) :
    Answers n (named.map armText ++ ["_ => None,"]) ((named.find? (·.number = n)).map (·.name)) := by
  induction named with
  | nil => exact .missing
  | cons value rest ih =>
    rw [List.map_cons, List.cons_append, List.find?_cons]
    by_cases hFound : value.number = n
    · subst hFound
      rw [decide_eq_true rfl]
      exact .found (gives_armText value)
    · rw [decide_eq_false hFound]
      exact .passed (gives_armText value) hFound ih

/-! ### The constants -/

def constantText (type : String) (value : EnumValueDecl) (name : String) : String :=
  "pub const " ++ name ++ ": " ++ type ++ " = " ++ type ++ "(" ++ toString value.number ++ ");"

theorem codeTexts_constants (file : FileNode) (e : EnumNode) (type : String) (i : Nat)
    (values : List EnumValueDecl) (names : List String) :
    codeTexts (EnumLines.constants file e type i (values.zip names))
        = List.zipWith (constantText type) values names := by
  induction values generalizing names i with
  | nil => rfl
  | cons value values ih =>
    cases names with
    | nil => rfl
    | cons name names =>
      rw [List.zip_cons_cons, EnumLines.constants, EnumLines.constant, codeTexts_append, ih, codeTexts_append,
        codeTexts_documentation]
      rfl

theorem constantsPrinted {e : EnumNode} (h : e.constants.length = e.decl.values.length) :
    ConstantsPrinted e (List.zipWith (constantText (typePathName e.typeName)) e.decl.values e.constants) := by
  constructor
  · rw [List.length_zipWith, h, Nat.min_self]
  · intro i value hValue
    obtain ⟨hInside, -⟩ := List.getElem?_eq_some_iff.mp hValue
    obtain ⟨name, hName⟩ : ∃ name, e.constants[i]? = some name := ⟨_, List.getElem?_eq_getElem (h ▸ hInside)⟩
    refine ⟨name, hName, ?_⟩
    rw [List.getElem?_zipWith, hValue, hName]
    rfl

theorem codeTexts_nameMethod (values : List EnumValueDecl) : codeTexts (EnumLines.nameMethod values)
    = ["pub fn name(self) -> Option<&'static str> \x7b", "match self.0 \x7b"]
      ++ ((namedValues values).map armText ++ ["_ => None,"]) ++ ["\x7d", "\x7d"] := by
  have hArms : codeTexts ((namedValues values).map EnumLines.arm) = (namedValues values).map armText :=
    codeTexts_map _ armText
  rw [EnumLines.nameMethod, codeTexts_doc, codeTexts_block, codeTexts_block, codeTexts_append, hArms]
  simp

theorem codeTexts_enumLines (file : FileNode) (e : EnumNode) : codeTexts (enumLines file e)
    = ["#[derive(Clone, Copy, Debug, Default, PartialEq, Eq, Hash, PartialOrd, Ord, Serialize, Deserialize)]",
        "#[serde(transparent)]", "pub struct " ++ typePathName e.typeName ++ "(pub i32);"]
      ++ List.zipWith (constantText (typePathName e.typeName)) e.decl.values e.constants
      ++ ["impl " ++ typePathName e.typeName ++ " \x7b", "pub fn name(self) -> Option<&'static str> \x7b",
        "match self.0 \x7b"]
      ++ ((namedValues e.decl.values).map armText ++ ["_ => None,"]) ++ ["\x7d", "\x7d", "\x7d"] := by
  have hDerive : "#[derive(Clone, Copy, Debug, Default, PartialEq, Eq, Hash, PartialOrd, Ord, "
      ++ "Serialize, Deserialize)]"
        = "#[derive(Clone, Copy, Debug, Default, PartialEq, Eq, Hash, PartialOrd, Ord, Serialize, Deserialize)]" := rfl
  simp only [enumLines, codeTexts_append, codeTexts_documentation, codeTexts_code, codeTexts_blank, codeTexts_nil,
    codeTexts_constants, codeTexts_block, codeTexts_nameMethod, hDerive]
  simp

theorem enumPrinted (file : FileNode) {e : EnumNode} (h : e.constants.length = e.decl.values.length) :
    EnumPrinted e (codeTexts (enumLines file e)) := by
  refine ⟨_, _, _, codeTexts_enumLines file e, constantsPrinted h, ?_, namesFirst e.decl.values, ?_⟩
  · exact List.forall₂_map_left_iff.mpr (List.forall₂_map_right_iff.mpr
      (List.forall₂_same.mpr fun value _ => gives_armText value))
  · intro n answer
    rw [← find?_namedValues]
    constructor
    · exact fun hAnswer => hAnswer.unique (answers_arms _ n)
    · rintro rfl
      exact answers_arms _ n

/-- Every enum of a file prints a constant for each of its values, and a method that finds the first name of each
number again, and of no other. -/
theorem enum_names_found (g : Graph) : ∀ file ∈ g.withConstants.files, ∀ e ∈ file.enums,
    EnumPrinted e (codeTexts (enumLines file e)) := by
  intro file hFile e hE
  obtain ⟨first, -, rfl⟩ := List.mem_map.mp hFile
  exact enumPrinted _ ((constantsNamed rfl).count e hE)

/-- An enum with a negative number and a number of two names, in no order. -/
def stateFile : FileNode where
  decl := { name := "order.proto" }
  generate := true
  messages := []
  enums := [{
    decl := { name := "State", values := [{ name := "DONE", number := 1 }, { name := "FINISHED", number := 1 },
      { name := "LOST", number := -5 }] }
    typeName := ["State"]
    path := .enum 0
    parent := none }]

theorem enum_names_found_stateFile : ∃ file ∈ (Graph.withConstants ⟨[stateFile], [0]⟩).files, ∃ e ∈ file.enums,
    EnumPrinted e (codeTexts (enumLines file e)) ∧ (codeTexts (enumLines file e)).drop 3
      = ["pub const STATE_DONE: State = State(1);", "pub const STATE_FINISHED: State = State(1);",
        "pub const STATE_LOST: State = State(-5);", "impl State \x7b",
        "pub fn name(self) -> Option<&'static str> \x7b", "match self.0 \x7b", "-5 => Some(\"LOST\"),",
        "1 => Some(\"DONE\"),", "_ => None,", "\x7d", "\x7d", "\x7d"] := by
  refine ⟨_, List.mem_cons_self, _, List.mem_cons_self, ?_, by decide +kernel⟩
  exact enum_names_found ⟨[stateFile], [0]⟩ _ List.mem_cons_self _ List.mem_cons_self

end ProtoBind.Emit
