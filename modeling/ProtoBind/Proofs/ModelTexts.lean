import ProtoBind.Proofs.QuotedText
import ProtoBind.Proofs.UseItems
import ProtoBind.Proofs.WrittenReferences

/-!
# Texts in the body of a model

The forms that a line of code in the body of a model can have. Where serialization is asked for, where the
test for default values is referred to, and where it is defined, is told by these forms.
-/

set_option autoImplicit false

namespace ProtoBind.Emit

open Naming Text

/-- The attribute of a field that is left out while it holds its default value. -/
def skipAttribute (wireName : String) : String :=
  "#[serde(rename = " ++ Quoted.encode wireName ++ ", skip_serializing_if = \"is_default\")]"

def aliasText (names : LocalNames) (importPath name : String) : String :=
  "pub use " ++ names.get importPath ++ "::" ++ name ++ ";"

/-- What all lines of code in the body of a model begin with, besides the attributes that rename, the arms of
matches, the variants, and the test for default values. -/
@[simp] def bodyHeads : List String :=
  ["pub use ", "pub struct ", "pub const ", "pub enum ", "pub fn ", "pub ", "impl ", "match &self.", "Some(",
    "pub fn name(self) -> Option<&'static str> \x7b", "match self.0 \x7b", "_ => None,", "\x7d",
    "#[derive(Clone, Copy, Debug, Default, PartialEq, Eq, Hash, PartialOrd, Ord, ",
    "#[derive(Clone, Debug, Default, PartialEq, Serialize, Deserialize)]",
    "#[derive(Clone, Debug, PartialEq, Serialize, Deserialize)]",
    "#[serde(transparent)]", "#[serde(default)]", "#[serde(flatten)]"]

inductive BodyText (model : ModelFile) : String → Prop where
  | headed {text : String} (h : Headed bodyHeads text) : BodyText model text
  | closed (front : String) : BodyText model (front ++ "),")
  | renamed (wireName : String) : BodyText model (renameAttribute wireName)
  | field {field : PlainField} (h : .plain field ∈ model.fields) : BodyText model field.serdeAttribute
  | test {text : String} (h : model.usesDefaultTest = true) (hText : text ∈ codeTexts ModelFile.defaultTest) :
      BodyText model text

variable {model : ModelFile}

/-! ### Forms of all lines -/

theorem BodyText.of_mem {text : String} (h : text ∈ bodyHeads) : BodyText model text :=
  .headed (headed_of_mem h)

theorem mem_aliasTexts {text : String} : text ∈ codeTexts model.aliasLines ↔
    ∃ a ∈ model.aliases, ∃ name ∈ a.names, aliasText model.names a.importPath name = text := by
  have hItems : codeTexts model.aliasLines = codeTexts (model.aliases.flatMap fun a => a.names.map fun name =>
      code (aliasText model.names a.importPath name)) := by
    unfold ModelFile.aliasLines
    dsimp only
    split
    · rename_i hEmpty
      exact (congrArg codeTexts (List.isEmpty_iff.mp hEmpty)).symm
    · rw [codeTexts_append, codeTexts_blank, codeTexts_nil, List.append_nil]
      rfl
  simp only [hItems, codeTexts_flatMap, codeTexts_map, List.mem_flatMap, List.mem_map]

theorem begins_aliasText (names : LocalNames) (importPath name : String) :
    Begins "pub use " (aliasText names importPath name) := by
  have hSelf : Begins "pub use " "pub use " := List.prefix_refl _
  exact (((hSelf.append _).append _).append _).append _

theorem begins_aliasLines : AllTexts (Begins "pub use ") model.aliasLines := by
  intro text hText
  obtain ⟨a, -, name, -, rfl⟩ := mem_aliasTexts.mp hText
  exact begins_aliasText model.names a.importPath name

theorem bodyText_aliasLines : AllTexts (BodyText model) model.aliasLines := by
  intro text hText
  exact .headed ⟨"pub use ", by simp, begins_aliasLines text hText⟩

theorem bodyText_constants (file : FileNode) (e : EnumNode) (name : String) (i : Nat)
    (values : List (EnumValueDecl × String)) :
    AllTexts (BodyText model) (EnumLines.constants file e name i values) := by
  induction values generalizing i with
  | nil => exact allTexts_nil.mpr trivial
  | cons value rest ih =>
    have hConst : Headed bodyHeads "pub const " := headed_of_mem (by simp)
    simp only [EnumLines.constants, EnumLines.constant, allTexts_append, allTexts_documentation, allTexts_code,
      allTexts_nil, true_and, and_true]
    refine ⟨.headed ?_, ih (i + 1)⟩
    exact (((((((hConst.append _).append _).append _).append _).append _).append _).append _).append _

theorem bodyText_arms (values : List EnumValueDecl) : AllTexts (BodyText model) (values.map EnumLines.arm) := by
  intro text hText
  have hTexts : codeTexts (values.map EnumLines.arm) = values.map fun value =>
      toString value.number ++ " => Some(" ++ Quoted.encode value.name ++ ")," := codeTexts_map values _
  rw [hTexts] at hText
  obtain ⟨value, -, rfl⟩ := List.mem_map.mp hText
  exact .closed _

theorem bodyText_enumLines (file : FileNode) (e : EnumNode) :
    AllTexts (BodyText model) (enumLines file e) := by
  have hDerive : Headed bodyHeads "#[derive(Clone, Copy, Debug, Default, PartialEq, Eq, Hash, PartialOrd, Ord, " :=
    headed_of_mem (by simp)
  have hStruct : Headed bodyHeads "pub struct " := headed_of_mem (by simp)
  have hImpl : Headed bodyHeads "impl " := headed_of_mem (by simp)
  have hMethod : AllTexts (BodyText model) (EnumLines.nameMethod e.decl.values) := by
    simp only [EnumLines.nameMethod, allTexts_doc, allTexts_block, allTexts_append, allTexts_code, allTexts_nil,
      and_true]
    exact ⟨.of_mem (by simp), ⟨.of_mem (by simp), ⟨bodyText_arms _, .of_mem (by simp)⟩,
      .of_mem (by simp)⟩, .of_mem (by simp)⟩
  simp only [enumLines, allTexts_append, allTexts_documentation, allTexts_code, allTexts_blank, allTexts_nil,
    allTexts_block, true_and, and_true]
  exact ⟨⟨⟨.headed (hDerive.append _), .of_mem (by simp), .headed ((hStruct.append _).append _)⟩,
    bodyText_constants _ _ _ _ _⟩, .headed ((hImpl.append _).append _), hMethod, .of_mem (by simp)⟩

theorem bodyText_field {field : Field} (hField : field ∈ model.fields) :
    AllTexts (BodyText model) (field.lines model.names) := by
  have hPub : Headed bodyHeads "pub " := headed_of_mem (by simp)
  cases field with
  | plain field =>
    simp only [Field.lines, PlainField.lines, allTexts_append, allTexts_documentation, allTexts_code, allTexts_nil,
      true_and, and_true]
    exact ⟨.field hField, .headed ((((hPub.append _).append _).append _).append _)⟩
  | oneof field =>
    simp only [Field.lines, OneofField.lines, allTexts_append, allTexts_documentation, allTexts_code, allTexts_nil,
      true_and, and_true]
    exact ⟨.of_mem (by simp), .headed ((((hPub.append _).append _).append _).append _)⟩

theorem bodyText_variant (member : Member) : AllTexts (BodyText model) (member.variantLines model.names) := by
  simp only [Member.variantLines, allTexts_append, allTexts_documentation, allTexts_code, allTexts_nil, true_and,
    and_true]
  exact ⟨.renamed _, .closed _⟩

theorem bodyText_enum (field : Field) : AllTexts (BodyText model) (field.enumLines model.names) := by
  cases field with
  | plain field => exact allTexts_nil.mpr trivial
  | oneof field =>
    have hEnum : Headed bodyHeads "pub enum " := headed_of_mem (by simp)
    simp only [Field.enumLines, OneofField.enumLines, allTexts_append, allTexts_code, allTexts_block,
      allTexts_flatMap, allTexts_blank, allTexts_nil, and_true]
    exact ⟨.of_mem (by simp), .headed ((hEnum.append _).append _), fun member _ => bodyText_variant member,
      .of_mem (by simp)⟩

theorem bodyText_getters (field : Field) : AllTexts (BodyText model) (field.getterLines model.names) := by
  cases field with
  | plain field => exact allTexts_nil.mpr trivial
  | oneof field =>
    have hFn : Headed bodyHeads "pub fn " := headed_of_mem (by simp)
    have hMatch : Headed bodyHeads "match &self." := headed_of_mem (by simp)
    have hSome : Headed bodyHeads "Some(" := headed_of_mem (by simp)
    simp only [Field.getterLines, Member.getterLines, allTexts_flatMap, allTexts_block, allTexts_code, allTexts_nil,
      and_true]
    intro member _
    refine ⟨.headed ((((hFn.append _).append _).append _).append _), ⟨.headed ((hMatch.append _).append _), ?_,
      .of_mem (by simp)⟩, .of_mem (by simp)⟩
    exact ⟨.headed ((((hSome.append _).append _).append _).append _), .of_mem (by simp)⟩

theorem bodyText_struct {s : Struct} (hS : s ∈ model.structs) :
    AllTexts (BodyText model) (s.lines model.names) := by
  have hFields : ∀ field ∈ s.fields, field ∈ model.fields :=
    fun field hField => List.mem_flatMap.mpr ⟨s, hS, hField⟩
  have hNote : AllTexts (BodyText model) (if s.group then [.doc 0 Struct.groupNote] else []) := by
    split <;> exact allTexts_nil.mpr trivial
  have hDeclaration : AllTexts (BodyText model) (s.declaration model.names) := by
    have hStruct : Headed bodyHeads "pub struct " := headed_of_mem (by simp)
    unfold Struct.declaration
    split
    · rw [allTexts_code, allTexts_nil, and_true]
      exact .headed ((hStruct.append _).append _)
    · rw [allTexts_block, allTexts_flatMap]
      exact ⟨.headed ((hStruct.append _).append _), fun field hField => bodyText_field (hFields field hField),
        .of_mem (by simp)⟩
  have hMethods : AllTexts (BodyText model) (s.methods model.names) := by
    have hImpl : Headed bodyHeads "impl " := headed_of_mem (by simp)
    unfold Struct.methods
    split
    · rw [allTexts_append, allTexts_block, allTexts_flatMap, allTexts_blank, allTexts_nil, and_true]
      exact ⟨.headed ((hImpl.append _).append _), fun field _ => bodyText_getters field, .of_mem (by simp)⟩
    · exact allTexts_nil.mpr trivial
  simp only [Struct.lines, allTexts_append, allTexts_documentation, allTexts_code, allTexts_blank, allTexts_flatMap,
    allTexts_nil, true_and, and_true]
  exact ⟨⟨⟨⟨hNote, .of_mem (by simp), .of_mem (by simp)⟩, hDeclaration⟩, fun field _ => bodyText_enum field⟩,
    hMethods⟩

theorem bodyText_body : AllTexts (BodyText model) model.body := by
  have hTest : AllTexts (BodyText model) (if model.usesDefaultTest then ModelFile.defaultTest else []) := by
    split
    · rename_i hUses
      exact fun text hText => .test hUses hText
    · exact allTexts_nil.mpr trivial
  simp only [ModelFile.body, allTexts_append, allTexts_flatMap]
  exact ⟨⟨⟨bodyText_aliasLines, fun e _ => bodyText_enumLines model.file e⟩, fun s hS => bodyText_struct hS⟩,
    hTest⟩

/-! ### The test for default values -/

/-- The line that opens the definition of the test for default values. -/
def testHead : String := "fn is_default<T: Default + PartialEq>(value: &T) -> bool \x7b"

/-- What stands behind a quoted text does not depend on the text. -/
theorem rest_inj_of_encode {head back other s t : String}
    (h : head ++ Quoted.encode s ++ back = head ++ Quoted.encode t ++ other) : back = other := by
  have hLists : head.toList ++ '\x22' :: (Quoted.encodeBody s.toList ++ '\x22' :: back.toList)
      = head.toList ++ '\x22' :: (Quoted.encodeBody t.toList ++ '\x22' :: other.toList) := by
    simpa [Quoted.encode_toList] using congrArg String.toList h
  have hBodies := (List.cons.inj (List.append_cancel_left hLists)).2
  have hRead := Quoted.read_encodeBody s.toList back.toList
  rw [hBodies, Quoted.read_encodeBody] at hRead
  exact (String.toList_injective (congrArg Prod.snd (Option.some.inj hRead))).symm

/-- An attribute that leaves a field out is not one that only renames. -/
theorem renameAttribute_ne (name wireName : String) : renameAttribute name ≠ skipAttribute wireName := by
  intro hSame
  exact absurd (rest_inj_of_encode hSame) (by decide)

theorem begins_renameAttribute (wireName : String) : Begins "#[serde(rename = " (renameAttribute wireName) := by
  have hSelf : Begins "#[serde(rename = " "#[serde(rename = " := List.prefix_refl _
  exact (hSelf.append _).append _

theorem begins_skipAttribute (wireName : String) : Begins "#[serde(rename = " (skipAttribute wireName) := by
  have hSelf : Begins "#[serde(rename = " "#[serde(rename = " := List.prefix_refl _
  exact (hSelf.append _).append _

theorem begins_serdeAttribute (field : PlainField) : Begins "#[serde(rename = " field.serdeAttribute := by
  unfold PlainField.serdeAttribute
  split
  · exact begins_skipAttribute field.wireName
  · exact begins_renameAttribute field.wireName

theorem lastChar_closed (front : String) : (front ++ "),").toList.getLast? = some ',' :=
  getLast?_append_of_ne_nil rfl

theorem usesDefaultTest_of_skips {wireName : String} (h : skipAttribute wireName ∈ codeTexts model.body) :
    model.usesDefaultTest = true := by
  have hForm := bodyText_body _ h
  generalize hText : skipAttribute wireName = text at hForm
  have hRename : Begins "#[serde(rename = " text := hText ▸ begins_skipAttribute wireName
  cases hForm with
  | headed hHead => exact absurd hRename (hHead.not_begins (by decide +kernel))
  | closed front =>
    have hEnd : ", skip_serializing_if = \"is_default\")]".toList.getLast? = some ']' := by decide
    have hLast : (skipAttribute wireName).toList.getLast? = some ']' := getLast?_append_of_ne_nil hEnd
    rw [hText, lastChar_closed] at hLast
    exact absurd hLast (by decide)
  | renamed name => exact absurd hText.symm (renameAttribute_ne name wireName)
  | @field field hField =>
    rw [PlainField.serdeAttribute] at hText
    split at hText
    · rename_i hOmits
      exact List.any_eq_true.mpr ⟨_, hField, hOmits⟩
    · exact absurd hText.symm (renameAttribute_ne _ wireName)
  | test hUses _ => exact hUses

theorem usesDefaultTest_of_defines (h : code testHead ∈ model.body) : model.usesDefaultTest = true := by
  have hForm := bodyText_body _ (mem_codeTexts_of_mem h)
  generalize hText : testHead = text at hForm
  have hFn : Begins "fn " text := by
    rw [← hText]
    decide
  cases hForm with
  | headed hHead => exact absurd hFn (hHead.not_begins (by decide +kernel))
  | closed front =>
    have hLast : testHead.toList.getLast? = some '{' := by decide
    rw [hText, lastChar_closed] at hLast
    exact absurd hLast (by decide)
  | renamed name => exact absurd hFn ((begins_renameAttribute name).not_of_apart (by decide) (by decide))
  | @field field _ => exact absurd hFn ((begins_serdeAttribute field).not_of_apart (by decide) (by decide))
  | test hUses _ => exact hUses

end ProtoBind.Emit
