import ProtoBind.Proofs.LinePhrases

/-!
# Models as sentences

The lines of a model are sentences of the grammar of items, if the names in them can be declared and no line of a
comment has a carriage return in it.
-/

set_option autoImplicit false

namespace ProtoBind.Emit

open Source Naming Text

/-! ## Attributes -/

def attributePieces (name : String) (entries : List Piece) : List Piece :=
  [.mark "#", .group .bracket [.word name, .group .parenthesis entries]]

theorem phrased_attribute {tail : Tail} {text name : String} {entries : List Piece}
    (h : Writes tail text.toList (lexemesOf (attributePieces name entries))) (hName : isDeclarable name = true)
    (hEntries : ∀ p ∈ entries, IsEntry p) : Phrased AttributesForm [code text] := by
  obtain ⟨tokens, hTokens⟩ := exists_spelled entries
  exact ⟨_, _, Lined.code h rfl, .list hName hEntries hTokens .nil⟩

def listed (words : List String) : List Piece := (words.map .word).intersperse (.mark ",")

theorem isEntry_listed {words : List String} (h : ∀ word ∈ words, isWord word = true) :
    ∀ p ∈ listed words, IsEntry p := by
  induction words with
  | nil => exact fun p hP => absurd hP List.not_mem_nil
  | cons word rest ih =>
    have hWord := h word List.mem_cons_self
    cases rest with
    | nil => exact List.forall_mem_singleton.mpr hWord
    | cons next rest =>
      refine List.forall_mem_cons.mpr ⟨hWord, List.forall_mem_cons.mpr ⟨.inl rfl, ?_⟩⟩
      exact ih fun other hOther => h other (List.mem_cons_of_mem _ hOther)

/-- An attribute that lists words. -/
theorem phrased_words {text name : String} {words : List String}
    (hScan : scan text.length text.toList = some (lexemesOf (attributePieces name (listed words))))
    (hName : isDeclarable name = true) (hWords : ∀ word ∈ words, isWord word = true) :
    Phrased AttributesForm [code text] :=
  phrased_attribute (writes_of_scan hScan) hName (isEntry_listed hWords)

/-- How an attribute begins that gives a name for the serialized form. -/
theorem writes_rename (wireName : String) : Writes .word ("#[serde(rename = " ++ Quoted.encode wireName).toList
    [.mark "#", .opening .bracket, .word "serde", .opening .parenthesis, .word "rename", .mark "=",
      .literal (Quoted.encode wireName)] :=
  (Writes.ofFixed "#[serde(rename = " [.mark "#", .opening .bracket, .word "serde", .opening .parenthesis,
    .word "rename", .mark "="] (by decide +kernel)).next rfl (Writes.quoted wireName)

theorem isEntry_rename (wireName : String) :
    ∀ p ∈ [Piece.word "rename", .mark "=", .literal (Quoted.encode wireName)], IsEntry p := by
  simp only [List.forall_mem_cons]
  exact ⟨(by decide : isWord "rename" = true), .inr rfl, .inr ⟨_, rfl⟩, fun p hP => absurd hP List.not_mem_nil⟩

theorem phrased_renameAttribute (wireName : String) : Phrased AttributesForm [code (renameAttribute wireName)] := by
  have hText := (writes_rename wireName).fixed ")]" [.closing .parenthesis, .closing .bracket] rfl rfl
  exact @phrased_attribute _ _ "serde" _ hText (by decide) (isEntry_rename wireName)

theorem phrased_serdeAttribute (field : PlainField) : Phrased AttributesForm [code field.serdeAttribute] := by
  unfold PlainField.serdeAttribute
  split
  · have hFront := (writes_rename field.wireName).fixed ", skip_serializing_if = "
      [.mark ",", .word "skip_serializing_if", .mark "="] (by decide +kernel) (by decide +kernel)
    have hText := (hFront.next rfl (Writes.quoted "is_default")).fixed ")]" [.closing .parenthesis, .closing .bracket]
      rfl rfl
    have hEntries : ∀ p ∈ [Piece.word "rename", .mark "=", .literal (Quoted.encode field.wireName)]
        ++ [.mark ",", .word "skip_serializing_if", .mark "=", .literal (Quoted.encode "is_default")], IsEntry p := by
      refine List.forall_mem_append.mpr ⟨isEntry_rename field.wireName, ?_⟩
      simp only [List.forall_mem_cons]
      exact ⟨.inl rfl, (by decide : isWord "skip_serializing_if" = true), .inr rfl, .inr ⟨_, rfl⟩,
        fun p hP => absurd hP List.not_mem_nil⟩
    have hEnd : ", skip_serializing_if = \"is_default\")]" = ", skip_serializing_if = "
        ++ (Quoted.encode "is_default" ++ ")]") := by
      decide +kernel
    rw [hEnd, ← String.append_assoc, ← String.append_assoc]
    exact @phrased_attribute _ _ "serde" _ hText (by decide) hEntries
  · exact phrased_renameAttribute field.wireName

/-! ## Fields -/

variable {names : LocalNames}

/-- A field of a structure, as it is declared. -/
theorem phrased_field {lines : List Line} {name type : String} (h : Phrased AttributesForm lines)
    (hName : isDeclarable name = true) (hType : IsType type) :
    Phrased FieldsForm (lines ++ [code ("pub " ++ name ++ ": " ++ type ++ ",")]) := by
  obtain ⟨ps, attributes, hLines, hAttributes⟩ := h
  obtain ⟨qs, found, hForm, hText⟩ := hType
  have hWord := Writes.word (isWord_of_isDeclarable hName)
  have hFront := ((Writes.ofFixed "pub " [.word "pub"] rfl).next rfl hWord).fixed ": " [.mark ":"] rfl rfl
  have hCode := (hFront.next rfl hText).fixed "," [.mark ","] rfl rfl
  have hLexemes : [Lexeme.word "pub"] ++ [Lexeme.word name] ++ [Lexeme.mark ":"] ++ lexemesOf qs ++ [Lexeme.mark ","]
      = lexemesOf (Piece.word "pub" :: .word name :: .mark ":" :: (qs ++ Piece.mark "," :: [])) := by
    simp [lexemesOf_append]
  exact ⟨_, _, hLines.append (Lined.code hCode hLexemes), .cons hAttributes hName hForm .nil⟩

structure PlainField.Named (names : LocalNames) (field : PlainField) : Prop where
  name : isSchemaName field.name = true
  shape : field.shape.Named names
  comment : Plain field.comment

structure Member.Named (names : LocalNames) (member : Member) : Prop where
  variant : isDeclarable member.variant = true
  getter : isDeclarable member.getter = true
  element : member.element.Named names
  comment : Plain member.comment

structure OneofField.Named (names : LocalNames) (oneof : OneofField) : Prop where
  name : isSchemaName oneof.name = true
  enumName : isDeclarable oneof.enumName = true
  comment : Plain oneof.comment
  members : ∀ member ∈ oneof.members, member.Named names

def Field.Named (names : LocalNames) : Field → Prop
  | .plain field => field.Named names
  | .oneof field => field.Named names

theorem phrased_fieldLines {field : Field} (h : field.Named names) : Phrased FieldsForm (field.lines names) := by
  cases field with
  | plain field =>
    have hAttributes := (phrased_documentation h.comment field.deprecated).append .append (phrased_serdeAttribute field)
    have hField := phrased_field hAttributes (isDeclarable_fieldIdentifier h.name) h.shape.isType
    rwa [List.append_assoc] at hField
  | oneof field =>
    have hFlatten := @phrased_words "#[serde(flatten)]" "serde" ["flatten"] (by decide +kernel) (by decide) (by decide)
    have hAttributes := (phrased_documentation h.comment false).append .append hFlatten
    have hType : IsType ("Option<" ++ field.enumName ++ ">") :=
      @IsType.applied _ "Option<" "Option" (isType_name h.enumName) (by decide) rfl
    have hField := phrased_field hAttributes (isDeclarable_fieldIdentifier h.name) hType
    have hText : "pub " ++ fieldIdentifier field.name ++ ": Option<" ++ field.enumName ++ ">,"
        = "pub " ++ fieldIdentifier field.name ++ ": " ++ ("Option<" ++ field.enumName ++ ">") ++ "," := by
      rw [← String.toList_inj]
      simp
    rw [Field.lines, OneofField.lines, hText]
    rwa [List.append_assoc] at hField

/-! ## Enums of oneofs -/

theorem Member.Named.isType {member : Member} (h : member.Named names) : IsType (member.payload names) := by
  unfold Member.payload
  have hElement := h.element
  split
  · rename_i message hMessage
    rw [hMessage] at hElement
    exact @IsType.applied _ "Box<" "Box" (Reference.Named.isType hElement) (by decide) rfl
  · exact hElement.isType

theorem phrased_variantLines {member : Member} (h : member.Named names) :
    Phrased VariantsForm (member.variantLines names) := by
  obtain ⟨ps, attributes, hLines, hAttributes⟩ := (phrased_documentation h.comment member.deprecated).append .append
    (phrased_renameAttribute member.wireName)
  obtain ⟨qs, found, hForm, hText⟩ := h.isType
  have hWord := Writes.word (isWord_of_isDeclarable h.variant)
  have hFront := (hWord.fixed "(" [.opening .parenthesis] rfl rfl).next rfl hText
  have hCode := hFront.fixed ")," [.closing .parenthesis, .mark ","] rfl rfl
  have hLexemes : [Lexeme.word member.variant] ++ [Lexeme.opening .parenthesis] ++ lexemesOf qs
        ++ [Lexeme.closing .parenthesis, .mark ","]
      = lexemesOf (Piece.word member.variant :: .group .parenthesis qs :: .mark "," :: []) := by
    simp
  have hAll := hLines.append (Lined.code hCode hLexemes)
  rw [List.append_assoc] at hAll
  exact ⟨_, _, hAll, .cons hAttributes h.variant (.last (.inherited hForm)) .nil⟩

theorem phrased_enumLines {oneof : OneofField} (h : oneof.Named names) : Phrased ItemsForm (oneof.enumLines names) := by
  obtain ⟨ps, attributes, hLines, hAttributes⟩ := @phrased_words
    "#[derive(Clone, Debug, PartialEq, Serialize, Deserialize)]" "derive"
    ["Clone", "Debug", "PartialEq", "Serialize", "Deserialize"] (by decide +kernel) (by decide) (by decide)
  obtain ⟨qs, variants, hBody, hVariants⟩ : Phrased VariantsForm (oneof.members.flatMap (Member.variantLines names)) :=
    .flatMap .nil .append fun member hMember => phrased_variantLines (h.members member hMember)
  have hWord := Writes.word (isWord_of_isDeclarable h.enumName)
  have hOpening := ((Writes.ofFixed "pub enum " [.word "pub", .word "enum"] rfl).next rfl hWord).fixed " \x7b"
    [.opening .brace] rfl rfl
  have hClosing := Writes.ofFixed "\x7d" [.closing .brace] rfl
  have hBlock : Lined (block ("pub enum " ++ oneof.enumName ++ " \x7b")
      (oneof.members.flatMap (Member.variantLines names)) "\x7d")
      [Piece.word "pub", .word "enum", .word oneof.enumName, .group .brace qs] :=
    Lined.block hOpening hBody hClosing (by simp)
  have hItem : Phrased ItemForm ([code "#[derive(Clone, Debug, PartialEq, Serialize, Deserialize)]"]
      ++ block ("pub enum " ++ oneof.enumName ++ " \x7b") (oneof.members.flatMap (Member.variantLines names)) "\x7d") :=
    ⟨_, _, hLines.append hBlock, .enum hAttributes h.enumName hVariants⟩
  exact hItem.item

/-! ## Methods -/

/-- The arm for everything else. -/
theorem arms_none : ExprForm [.word "_", .mark "=>", .word "None", .mark ","]
    (.arms [.mk .wild none (.path (.mk false [.mk "None" .none]))]) :=
  @ExprForm.arm [.word "_"] [.word "None"] [] _ _ _ .wild (value_name "None" (by decide)) .noArms

theorem lined_none : Lined [code "_ => None,"] [.word "_", .mark "=>", .word "None", .mark ","] :=
  Lined.code (Writes.ofFixed "_ => None," [.word "_", .mark "=>", .word "None", .mark ","] (by decide +kernel)) rfl

/-- The arm for the value of a member. -/
theorem lined_memberArm {enumName variant : String} (hEnum : isDeclarable enumName = true)
    (hVariant : isDeclarable variant = true) :
    Lined [code ("Some(" ++ enumName ++ "::" ++ variant ++ "(value)) => Some(value),")]
      [.word "Some", .group .parenthesis [.word enumName, .mark "::", .word variant,
        .group .parenthesis [.word "value"]], .mark "=>", .word "Some", .group .parenthesis [.word "value"],
        .mark ","] := by
  have hFront := (Writes.ofFixed "Some(" [.word "Some", .opening .parenthesis] rfl).next rfl
    (Writes.word (isWord_of_isDeclarable hEnum))
  have hName := (hFront.fixed "::" [.mark "::"] rfl rfl).next rfl (Writes.word (isWord_of_isDeclarable hVariant))
  have hCode := hName.fixed "(value)) => Some(value),"
    [.opening .parenthesis, .word "value", .closing .parenthesis, .closing .parenthesis, .mark "=>", .word "Some",
      .opening .parenthesis, .word "value", .closing .parenthesis, .mark ","] (by decide +kernel) rfl
  exact Lined.code hCode (by simp)

theorem arms_member {enumName variant : String} (hEnum : isDeclarable enumName = true)
    (hVariant : isDeclarable variant = true) {qs : List Piece} {arms : List Arm} (hRest : ExprForm qs (.arms arms)) :
    ∃ found, ExprForm ([.word "Some", .group .parenthesis [.word enumName, .mark "::", .word variant,
        .group .parenthesis [.word "value"]], .mark "=>", .word "Some", .group .parenthesis [.word "value"],
        .mark ","] ++ qs) (.arms found) := by
  have hValue : isDeclarable "value" = true := by decide
  obtain ⟨inner, hInner⟩ := pattern_applied enumName [variant] hEnum
    (List.forall_mem_singleton.mpr (isSegment_of_isDeclarable hVariant)) (.bind hValue)
  obtain ⟨pattern, hPattern⟩ := pattern_applied "Some" [] (by decide) (by simp) hInner
  exact ⟨_, .arm hPattern (value_call "Some" (by decide) (value_name "value" (by decide))) hRest⟩

/-- A method that everyone can call. -/
theorem membersForm_method {lead inputs result body : List Piece} {attributes : List Attribute} {name : String}
    {input : Input} {type : Ty} {statements : List Stmt} (hAttributes : AttributesForm lead attributes)
    (hName : isDeclarable name = true) (hInput : InputForm inputs input) (hType : TypeForm result (.type type))
    (hBody : ExprForm body (.statements statements)) :
    ∃ members, MembersForm (lead ++ Piece.word "pub" :: .word "fn" :: .word name :: .group .parenthesis inputs
      :: .mark "->" :: (result ++ [Piece.group .brace body])) members := by
  have hFunction := FunctionForm.mk hAttributes .everyone
    (.mk hName .nil (.last hInput) (.some (.plain hType))) (.defined hBody)
  have hAll := MembersForm.cons hFunction .nil
  simp only [List.append_nil, List.nil_append, List.cons_append] at hAll
  exact ⟨_, hAll⟩

theorem phrased_getterLines {oneof : OneofField} {member : Member} (hOneof : oneof.Named names)
    (h : member.Named names) : Phrased MembersForm (member.getterLines names oneof) := by
  have hField := isDeclarable_fieldIdentifier hOneof.name
  obtain ⟨arms, hArms⟩ := arms_member hOneof.enumName h.variant arms_none
  obtain ⟨statements, hMatch⟩ := statements_match
    (.reference (.receiver (.field (receiver_name "self" (by decide)) hField))) hArms
  obtain ⟨qs, type, hForm, hText⟩ := h.element.isType
  have hResult := TypeForm.path (@TypeForm.angled "Option" _ _ (by decide) (.last (.argument (.reference hForm))))
  obtain ⟨members, hMembers⟩ := membersForm_method .nil h.getter .byReference hResult hMatch
  have hSubject := (Writes.ofFixed "match &self." [.word "match", .mark "&", .word "self", .mark "."]
    (by decide +kernel)).next rfl (Writes.word (isWord_of_isDeclarable hField))
  have hInner := lined_match hSubject rfl ((lined_memberArm hOneof.enumName h.variant).append lined_none)
    [.mark "&", .word "self", .mark ".", .word (fieldIdentifier oneof.name)] rfl
  have hHead := (Writes.ofFixed "pub fn " [.word "pub", .word "fn"] rfl).next rfl
    (Writes.word (isWord_of_isDeclarable h.getter))
  have hInput := hHead.fixed "(&self) -> Option<&" [.opening .parenthesis, .mark "&", .word "self",
    .closing .parenthesis, .mark "->", .word "Option", .mark "<", .mark "&"] (by decide +kernel) rfl
  have hOpening := (hInput.next rfl hText).fixed "> \x7b" [.mark ">", .opening .brace] rfl rfl
  exact ⟨_, members, Lined.block hOpening hInner (Writes.ofFixed "\x7d" [.closing .brace] rfl)
    (by simp [lexemesOf_append]), hMembers⟩

/-! ## Structures -/

structure Struct.Named (names : LocalNames) (s : Struct) : Prop where
  name : isDeclarable s.name = true
  comment : Plain s.comment
  fields : ∀ field ∈ s.fields, field.Named names

theorem phrased_declaration {s : Struct} (h : s.Named names) :
    Phrased (fun ps fields => ∃ qs, ps = [Piece.word "pub", .word "struct", .word s.name, .group .brace qs] ∧
      FieldsForm qs fields) (s.declaration names) := by
  have hFront := (Writes.ofFixed "pub struct " [.word "pub", .word "struct"] rfl).next rfl
    (Writes.word (isWord_of_isDeclarable h.name))
  unfold Struct.declaration
  split
  · have hCode := hFront.fixed " \x7b\x7d" [.opening .brace, .closing .brace] rfl rfl
    exact ⟨_, [], Lined.code hCode rfl, [], rfl, .nil⟩
  · obtain ⟨qs, fields, hBody, hFields⟩ : Phrased FieldsForm (s.fields.flatMap (Field.lines names)) :=
      .flatMap .nil .append fun field hField => phrased_fieldLines (h.fields field hField)
    have hOpening := hFront.fixed " \x7b" [.opening .brace] rfl rfl
    exact ⟨_, fields, Lined.block hOpening hBody (Writes.ofFixed "\x7d" [.closing .brace] rfl) (by simp), qs, rfl,
        hFields⟩

/-- An implementation with its methods. -/
theorem phrased_impl {name : String} {lines : List Line} (hName : isDeclarable name = true)
    (h : Phrased MembersForm lines) :
    Phrased ItemsForm (block ("impl " ++ name ++ " \x7b") lines "\x7d" ++ [.blank]) := by
  obtain ⟨qs, members, hBody, hMembers⟩ := h
  have hOpening := ((Writes.ofFixed "impl " [.word "impl"] rfl).next rfl
    (Writes.word (isWord_of_isDeclarable hName))).fixed " \x7b" [.opening .brace] rfl rfl
  have hItem : Phrased ItemForm (block ("impl " ++ name ++ " \x7b") lines "\x7d") :=
    ⟨_, _, Lined.block hOpening hBody (Writes.ofFixed "\x7d" [.closing .brace] rfl) (by simp), .impl hName hMembers⟩
  exact hItem.item

theorem phrased_methods {s : Struct} (h : s.Named names) : Phrased ItemsForm (s.methods names) := by
  unfold Struct.methods
  split
  · refine phrased_impl h.name (.flatMap .nil .append fun field hField => ?_)
    have hNamed := h.fields field hField
    cases field with
    | plain field => exact phrased_nothing .nil
    | oneof field =>
      exact .flatMap .nil .append fun member hMember => phrased_getterLines hNamed (hNamed.members member hMember)
  · exact phrased_nothing .nil

theorem phrased_struct {s : Struct} (h : s.Named names) : Phrased ItemsForm (s.lines names) := by
  have hGroup : Phrased AttributesForm (if s.group then [.doc 0 Struct.groupNote] else []) := by
    split
    · exact phrased_docs (by decide : ∀ text ∈ [Struct.groupNote], _)
    · exact phrased_nothing .nil
  have hDerive := @phrased_words "#[derive(Clone, Debug, Default, PartialEq, Serialize, Deserialize)]" "derive"
    ["Clone", "Debug", "Default", "PartialEq", "Serialize", "Deserialize"] (by decide +kernel) (by decide) (by decide)
  have hDefault := @phrased_words "#[serde(default)]" "serde" ["default"] (by decide +kernel) (by decide) (by decide)
  obtain ⟨ps, attributes, hLead, hAttributes⟩ := ((phrased_documentation h.comment s.deprecated).append .append
    hGroup).append .append (hDerive.append .append hDefault)
  obtain ⟨_, fields, hDeclaration, qs, rfl, hFields⟩ := phrased_declaration h
  have hItem : Phrased ItemForm _ := ⟨_, _, hLead.append hDeclaration, .struct hAttributes h.name hFields⟩
  have hEnums : Phrased ItemsForm (s.fields.flatMap (Field.enumLines names)) := by
    refine .flatMap .nil .append fun field hField => ?_
    have hNamed := h.fields field hField
    cases field with
    | plain field => exact phrased_nothing .nil
    | oneof field => exact phrased_enumLines hNamed
  exact (hItem.item.append .append hEnums).append .append (phrased_methods h)

/-! ## Enums -/

structure EnumNamed (file : FileNode) (e : EnumNode) : Prop where
  name : isDeclarable (typePathName e.typeName) = true
  constants : ∀ constant ∈ e.constants, isDeclarable constant = true
  comment : Plain (file.comment? e.path)
  valueComment : ∀ i, Plain (file.comment? (e.path.value i))

theorem phrased_constant {file : FileNode} {e : EnumNode} {name constantName : String} {i : Nat} {value : EnumValueDecl}
    (hComment : Plain (file.comment? (e.path.value i))) (hName : isDeclarable name = true)
    (hConstant : isDeclarable constantName = true) :
    Phrased ItemsForm (EnumLines.constant file e name i value constantName) := by
  obtain ⟨ps, attributes, hLead, hAttributes⟩ := phrased_documentation hComment value.deprecated
  obtain ⟨qs, number, -, hNumber, hExpr, -⟩ := writes_int value.number
  have hFront := ((Writes.ofFixed "pub const " [.word "pub", .word "const"] rfl).next rfl
    (Writes.word (isWord_of_isDeclarable hConstant))).fixed ": " [.mark ":"] rfl rfl
  have hType := (hFront.next rfl (Writes.word (isWord_of_isDeclarable hName))).fixed " = " [.mark "="] rfl rfl
  have hCall := (hType.next rfl (Writes.word (isWord_of_isDeclarable hName))).fixed "(" [.opening .parenthesis] rfl rfl
  have hCode := (hCall.next rfl hNumber).fixed ");" [.closing .parenthesis, .mark ";"] rfl rfl
  have hSegment := isSegment_of_isDeclarable hName
  have hItem := ItemForm.constant hAttributes hConstant (.path (.name false hSegment))
    (value_call name hSegment (.operand hExpr))
  have hLine : Lined [code ("pub const " ++ constantName ++ ": " ++ name ++ " = " ++ name ++ "("
      ++ toString value.number ++ ");")] (Piece.word "pub" :: .word "const" :: .word constantName :: .mark ":"
        :: ([Piece.word name] ++ Piece.mark "=" :: ([Piece.word name, .group .parenthesis qs] ++ [Piece.mark ";"]))) :=
    Lined.code hCode (by simp)
  exact ⟨_, _, hLead.append hLine, hItem.alone⟩

theorem phrased_constants {file : FileNode} {e : EnumNode} {name : String} (h : EnumNamed file e)
    (hName : isDeclarable name = true) (i : Nat) {values : List (EnumValueDecl × String)}
    (hValues : ∀ value ∈ values, isDeclarable value.2 = true) :
    Phrased ItemsForm (EnumLines.constants file e name i values) := by
  induction values generalizing i with
  | nil => exact phrased_nothing .nil
  | cons value rest ih =>
    obtain ⟨hValue, hRest⟩ := List.forall_mem_cons.mp hValues
    exact (phrased_constant (h.valueComment i) hName hValue).append .append (ih (i + 1) hRest)

/-- The arm for a value with a name. -/
theorem phrased_arm (value : EnumValueDecl) {lines : List Line} {qs : List Piece} {arms : List Arm}
    (hLines : Lined lines qs) (hArms : ExprForm qs (.arms arms)) :
    ∃ ps found, Lined (EnumLines.arm value :: lines) ps ∧ ExprForm ps (.arms found) := by
  obtain ⟨ps, -, pattern, hNumber, -, hPattern⟩ := writes_int value.number
  have hText := hNumber.fixed " => Some(" [.mark "=>", .word "Some", .opening .parenthesis] rfl rfl
  have hCode := (hText.next rfl (Writes.quoted value.name)).fixed ")," [.closing .parenthesis, .mark ","] rfl rfl
  have hLine : Lined [EnumLines.arm value] (ps ++ [Piece.mark "=>", .word "Some",
      .group .parenthesis [.literal (Quoted.encode value.name)], .mark ","]) :=
    Lined.code hCode (by simp [lexemesOf_append])
  have hValue := value_call "Some" (by decide) (.operand (.literal (.inr ⟨value.name, rfl⟩)))
  have hAll : Lined (EnumLines.arm value :: lines) (ps ++ Piece.mark "=>" :: ([Piece.word "Some",
      .group .parenthesis [.literal (Quoted.encode value.name)]] ++ Piece.mark "," :: qs)) := by
    simpa using hLine.append hLines
  exact ⟨_, _, hAll, .arm hPattern hValue hArms⟩

theorem phrased_arms (values : List EnumValueDecl) :
    ∃ ps arms, Lined (values.map EnumLines.arm ++ [code "_ => None,"]) ps ∧ ExprForm ps (.arms arms) := by
  induction values with
  | nil => exact ⟨_, _, lined_none, arms_none⟩
  | cons value rest ih =>
    obtain ⟨qs, arms, hLines, hArms⟩ := ih
    exact phrased_arm value hLines hArms

theorem phrased_nameMethod (values : List EnumValueDecl) : Phrased MembersForm (EnumLines.nameMethod values) := by
  obtain ⟨ps, attributes, hLead, hAttributes⟩ := phrased_docs (by decide :
    ∀ text ∈ ["The name of the value as declared in the schema, if it is known."], _)
  obtain ⟨qs, arms, hLines, hArms⟩ := phrased_arms (namedValues values)
  obtain ⟨statements, hMatch⟩ := statements_match (.place (receiver_name "self" (by decide))) hArms
  have hStr : TypeForm [.word "str"] (.type (.path (.mk false [.mk "str" .none]))) := .path (.name false (by decide))
  have hResult := TypeForm.path (@TypeForm.angled "Option" _ _ (by decide) (.last (.argument (.static hStr))))
  obtain ⟨members, hMembers⟩ := membersForm_method hAttributes
      (by decide : isDeclarable "name" = true) .byValue hResult hMatch
  have hInner := @lined_match "match self.0" qs _ _ _
    (Writes.ofFixed "match self.0" [.word "match", .word "self", .mark ".", .literal "0"] (by decide +kernel))
    rfl hLines [.word "self", .mark ".", .literal "0"] rfl
  have hOpening := Writes.ofFixed "pub fn name(self) -> Option<&'static str> \x7b" [.word "pub", .word "fn",
    .word "name", .opening .parenthesis, .word "self", .closing .parenthesis, .mark "->", .word "Option",
    .mark "<", .mark "&", .mark "'", .word "static", .word "str", .mark ">", .opening .brace] (by decide +kernel)
  exact ⟨_, members, hLead.append (Lined.block hOpening hInner (Writes.ofFixed "\x7d" [.closing .brace] rfl) (by simp)),
    hMembers⟩

theorem phrased_enum {file : FileNode} {e : EnumNode} (h : EnumNamed file e) :
    Phrased ItemsForm (enumLines file e) := by
  have hDerive := @phrased_words
    "#[derive(Clone, Copy, Debug, Default, PartialEq, Eq, Hash, PartialOrd, Ord, Serialize, Deserialize)]" "derive"
    ["Clone", "Copy", "Debug", "Default", "PartialEq", "Eq", "Hash", "PartialOrd", "Ord", "Serialize", "Deserialize"]
    (by decide +kernel) (by decide) (by decide)
  have hTransparent := @phrased_words "#[serde(transparent)]" "serde" ["transparent"] (by decide +kernel) (by decide)
    (by decide)
  obtain ⟨ps, attributes, hLead, hAttributes⟩ := (phrased_documentation h.comment e.decl.deprecated).append .append
    (hDerive.append .append hTransparent)
  have hCode := ((Writes.ofFixed "pub struct " [.word "pub", .word "struct"] rfl).next rfl
    (Writes.word (isWord_of_isDeclarable h.name))).fixed "(pub i32);"
      [.opening .parenthesis, .word "pub", .word "i32", .closing .parenthesis, .mark ";"] (by decide +kernel) rfl
  have hPlace : PlacesForm [.word "pub", .word "i32"] _ := .last
      (.everyone (.name false (by decide : isSegment "i32" = true)))
  have hLine : Lined [code ("pub struct " ++ typePathName e.typeName ++ "(pub i32);")] [.word "pub", .word "struct",
      .word (typePathName e.typeName), .group .parenthesis [.word "pub", .word "i32"], .mark ";"] :=
    Lined.code hCode (by simp)
  have hItem : Phrased ItemForm _ := ⟨_, _, hLead.append hLine, .newtype hAttributes h.name hPlace⟩
  have hConstants := @phrased_constants file e _ h h.name 0 (e.decl.values.zip e.constants)
    fun value hValue => h.constants value.2 (List.of_mem_zip hValue).2
  have hBlank : Phrased ItemsForm [.blank] := ⟨[], [], Lined.blank, .nil⟩
  have hImpl := phrased_impl h.name (phrased_nameMethod e.decl.values)
  have hAll := ((hItem.item.append .append hConstants).append .append hBlank).append .append hImpl
  have hText : "#[derive(Clone, Copy, Debug, Default, PartialEq, Eq, Hash, PartialOrd, Ord, "
      ++ "Serialize, Deserialize)]"
      = "#[derive(Clone, Copy, Debug, Default, PartialEq, Eq, Hash, PartialOrd, Ord, Serialize, Deserialize)]" := by
    decide +kernel
  rw [enumLines, hText]
  simpa only [List.append_assoc, List.cons_append, List.nil_append] using hAll

/-! ## Functions -/

theorem phrased_defaultTest : Phrased ItemsForm ModelFile.defaultTest := by
  have hGiven : TypeForm [.word "T"] (.type (.path (.mk false [.mk "T" .none]))) := .path (.name false (by decide))
  have hBool : TypeForm [.word "bool"] (.type (.path (.mk false [.mk "bool" .none]))) := .path (.name false (by decide))
  have hBounds : TypeForm [.word "Default", .mark "+", .word "PartialEq"]
      (.bounds [.trait false (.mk false [.mk "Default" .none]),
      .trait false (.mk false [.mk "PartialEq" .none])]) :=
    @TypeForm.bounds [.word "Default"] [.word "PartialEq"] _ _ (.name false (by decide))
        (.bound (.name false (by decide)))
  have hDefault : ExprForm (pathPieces ["T", "default"] ++ [.group .parenthesis []]) (.receiver _) :=
    .call (typeForm_path (by simp) (by decide) true) .noArguments
  have hBody : ExprForm ((.mark "*" :: [.word "value"]) ++ Piece.mark "==" :: (pathPieces ["T", "default"]
      ++ [.group .parenthesis []])) (.statements [.eval _ false]) :=
    .result (.equal (.target (.receiver (receiver_name "value" (by decide)))) (.receiver hDefault))
  have hFunction := FunctionForm.mk .nil .inherited (.mk (by decide : isDeclarable "is_default" = true)
    (.last (by decide : isDeclarable "T" = true) hBounds)
    (.last (.typed (by decide : isDeclarable "value" = true) (.reference hGiven))) (.some (.plain hBool)))
    (.defined hBody)
  have hOpening := Writes.ofFixed "fn is_default<T: Default + PartialEq>(value: &T) -> bool \x7b" [.word "fn",
    .word "is_default", .mark "<", .word "T", .mark ":", .word "Default", .mark "+", .word "PartialEq", .mark ">",
    .opening .parenthesis, .word "value", .mark ":", .mark "&", .word "T", .closing .parenthesis, .mark "->",
    .word "bool", .opening .brace] (by decide +kernel)
  have hInner : Lined [code "*value == T::default()"] ((.mark "*" :: [.word "value"]) ++ Piece.mark "=="
      :: (pathPieces ["T", "default"] ++ [.group .parenthesis []])) :=
    Lined.code (Writes.ofFixed "*value == T::default()" [.mark "*", .word "value", .mark "==", .word "T", .mark "::",
      .word "default", .opening .parenthesis, .closing .parenthesis] (by decide +kernel)) rfl
  exact ⟨_, _, Lined.block hOpening hInner (Writes.ofFixed "\x7d" [.closing .brace] rfl) (by simp),
    (ItemForm.function hFunction).alone⟩

/-! ## Imports -/

theorem phrased_modelUses {params : Parameters} {model : ModelFile} (h : PackagesNamed params model.names) :
    Phrased ItemsForm (model.uses params) := by
  have hSerde : Phrased ItemsForm [code "use serde::\x7bDeserialize, Serialize\x7d;"] := by
    have hGroup : UseForm (.word "serde" :: .mark "::" :: [.group .brace ([Piece.word "Deserialize"] ++ Piece.mark ","
        :: [Piece.word "Serialize"])]) (.tree (.path "serde"
            (.group [.name "Deserialize", .name "Serialize"] false))) :=
      .path (by decide) (.inl (by decide)) (.group (.cons (.name (by decide)) (.last (.name (by decide)))))
    exact phrased_use (Writes.ofFixed "use serde::\x7bDeserialize, Serialize\x7d;" [.word "use", .word "serde",
        .mark "::",
      .opening .brace, .word "Deserialize", .mark ",", .word "Serialize", .closing .brace, .mark ";"]
          (by decide +kernel))
      hGroup (by simp)
  have hMap : Phrased ItemsForm [code "use std::collections::HashMap;"] := by
    have hPath : UseForm (.word "std" :: .mark "::" :: .word "collections" :: .mark "::" :: [.word "HashMap"])
        (.tree (.path "std" (.path "collections" (.name "HashMap")))) :=
      .path (by decide) (.inl (by decide)) (.path (by decide) (.inl (by decide)) (.name (by decide)))
    exact phrased_use (Writes.ofFixed "use std::collections::HashMap;" [.word "use", .word "std", .mark "::",
      .word "collections", .mark "::", .word "HashMap", .mark ";"] (by decide +kernel)) hPath (by simp)
  unfold ModelFile.uses
  refine (Phrased.append .append (Phrased.append .append ?_ ?_) (phrased_packageUses h))
  · split
    · exact hSerde
    · exact phrased_nothing .nil
  · split
    · exact hMap
    · exact phrased_nothing .nil

theorem phrased_aliasLines {model : ModelFile}
    (h : ∀ a ∈ model.aliases, isDeclarable (model.names.get a.importPath) = true ∧
      ∀ name ∈ a.names, isDeclarable name = true) : Phrased ItemsForm model.aliasLines := by
  have hItems : Phrased ItemsForm (model.aliases.flatMap fun a =>
      a.names.map fun name => code ("pub use " ++ model.names.get a.importPath ++ "::" ++ name ++ ";")) := by
    refine .flatMap .nil .append fun a hA => ?_
    obtain ⟨hPackage, hNames⟩ := h a hA
    rw [List.map_eq_flatMap]
    refine .flatMap .nil .append fun name hMem => ?_
    have hName := hNames name hMem
    have hFront := ((Writes.ofFixed "pub use " [.word "pub", .word "use"] rfl).next rfl
      (Writes.word (isWord_of_isDeclarable hPackage))).fixed "::" [.mark "::"] rfl rfl
    have hCode := (hFront.next rfl (Writes.word (isWord_of_isDeclarable hName))).fixed ";" [.mark ";"] rfl rfl
    have hItem := ItemForm.use .everyone (.path (isWord_of_isDeclarable hPackage)
      (passes_of_isDeclarable hPackage).2 (.name hName))
    exact ⟨_, _, Lined.code hCode rfl, hItem.alone⟩
  unfold ModelFile.aliasLines
  dsimp only
  split
  · exact phrased_nothing .nil
  · exact hItems.append .append ⟨[], [], Lined.blank, .nil⟩

/-! ## Files -/

structure ModelFile.Named (params : Parameters) (model : ModelFile) : Prop where
  header : HeaderPlain model.file
  packages : PackagesNamed params model.names
  aliases : ∀ a ∈ model.aliases, isDeclarable (model.names.get a.importPath) = true ∧
    ∀ name ∈ a.names, isDeclarable name = true
  enums : ∀ e ∈ model.enums, EnumNamed model.file e
  structs : ∀ s ∈ model.structs, s.Named model.names

/-- A model whose names can be declared is formatted. -/
theorem format_of_model {params : Parameters} {model : ModelFile} (h : model.Named params) (name : String) :
    ∃ text, format name (render (model.lines params)) = .ok text := by
  have hBlank : Phrased ItemsForm [.blank] := ⟨[], [], Lined.blank, .nil⟩
  have hTest : Phrased ItemsForm (if model.usesDefaultTest then ModelFile.defaultTest else []) := by
    split
    · exact phrased_defaultTest
    · exact phrased_nothing .nil
  have hBody : Phrased ItemsForm model.body :=
    (((phrased_aliasLines h.aliases).append .append
      (.flatMap .nil .append fun e hE => phrased_enum (h.enums e hE))).append .append
        (.flatMap .nil .append fun s hS => phrased_struct (h.structs s hS))).append .append hTest
  have hItems := ((phrased_modelUses h.packages).append .append hBlank).append .append hBody
  have hAll := format_of_items h.header hItems name
  rwa [← List.append_assoc, ← List.append_assoc] at hAll

end ProtoBind.Emit
