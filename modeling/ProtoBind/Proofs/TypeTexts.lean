import ProtoBind.Emit.Api
import ProtoBind.Emit.Model
import ProtoBind.Proofs.LineLexemes
import ProtoBind.Proofs.NameForms

/-!
# Emitted paths and types

The paths and types that emission writes are phrases of the grammar of types, if the names in them can be
declared.
-/

set_option autoImplicit false

namespace ProtoBind.Source

open Text

/-! ## Paths -/

def pathPieces : List String → List Piece
  | [] => []
  | [name] => [.word name]
  | name :: rest => .word name :: .mark "::" :: pathPieces rest

theorem typeForm_path {names : List String} (hNe : names ≠ [])
    (h : ∀ name ∈ names, isSegment name = true) (inExpr : Bool) :
    TypeForm (pathPieces names) (.segments inExpr (names.map fun name => .mk name .none)) := by
  induction names with
  | nil => exact absurd rfl hNe
  | cons name rest ih =>
    have hName := h name List.mem_cons_self
    cases rest with
    | nil => exact .name inExpr hName
    | cons next rest =>
      exact .within hName (ih (by simp) fun other hMem => h other (List.mem_cons_of_mem _ hMem))

theorem writes_path {names : List String} (hNe : names ≠ []) (h : ∀ name ∈ names, isSegment name = true) :
    Writes .word ("::".intercalate names).toList (lexemesOf (pathPieces names)) := by
  induction names with
  | nil => exact absurd rfl hNe
  | cons name rest ih =>
    have hWord := Writes.word (Bool.and_eq_true_iff.mp (h name List.mem_cons_self)).1
    cases rest with
    | nil => rwa [String.intercalate_singleton]
    | cons next rest =>
      rw [String.intercalate_cons_cons]
      have hMark := hWord.fixed "::" [.mark "::"] rfl rfl
      exact hMark.next rfl (ih (by simp) fun other hMem => h other (List.mem_cons_of_mem _ hMem))

def IsType (text : String) : Prop :=
  ∃ ps type, TypeForm ps (.type type) ∧ Writes .word text.toList (lexemesOf ps)

theorem isType_path {names : List String} (hNe : names ≠ []) (h : ∀ name ∈ names, isSegment name = true) :
    IsType ("::".intercalate names) :=
  ⟨_, _, .path (typeForm_path hNe h false), writes_path hNe h⟩

/-- A type with one argument. -/
theorem IsType.applied {text opening head : String} (h : IsType text) (hHead : isDeclarable head = true)
    (hOpening : opening = head ++ "<") : IsType (opening ++ text ++ ">") := by
  subst hOpening
  obtain ⟨ps, type, hForm, hText⟩ := h
  have hWord := Writes.word (Bool.and_eq_true_iff.mp hHead).1
  have hAll := ((hWord.fixed "<" [.mark "<"] rfl rfl).next rfl hText).fixed ">" [.mark ">"] rfl rfl
  refine ⟨_, _, .path (.angled hHead (.last (.argument hForm))), ?_⟩
  have hLexemes : lexemesOf (.word head :: .mark "<" :: (ps ++ [Piece.mark ">"]))
      = [Lexeme.word head] ++ [Lexeme.mark "<"] ++ lexemesOf ps ++ [Lexeme.mark ">"] := by
    simp [lexemesOf_append]
  rw [hLexemes]
  exact hAll.weaken .word

/-- A type with two arguments. -/
theorem IsType.applied₂ {first second opening head : String} (hFirst : IsType first)
    (hSecond : IsType second) (hHead : isDeclarable head = true) (hOpening : opening = head ++ "<") :
    IsType (opening ++ first ++ ", " ++ second ++ ">") := by
  subst hOpening
  obtain ⟨ps, type, hForm, hText⟩ := hFirst
  obtain ⟨qs, other, hOther, hMore⟩ := hSecond
  have hWord := Writes.word (Bool.and_eq_true_iff.mp hHead).1
  have hFront := ((hWord.fixed "<" [.mark "<"] rfl rfl).next rfl hText).fixed ", " [.mark ","] rfl rfl
  have hAll := (hFront.next rfl hMore).fixed ">" [.mark ">"] rfl rfl
  refine ⟨_, _, .path (.angled hHead (.cons (.argument hForm) (.last (.argument hOther)))), ?_⟩
  have hLexemes : lexemesOf (.word head :: .mark "<" :: ((ps ++ Piece.mark "," :: qs) ++ [Piece.mark ">"]))
      = [Lexeme.word head] ++ [Lexeme.mark "<"] ++ lexemesOf ps ++ [Lexeme.mark ","] ++ lexemesOf qs
        ++ [Lexeme.mark ">"] := by
    simp [lexemesOf_append]
  rw [hLexemes]
  exact hAll.weaken .word

end ProtoBind.Source

namespace ProtoBind.Emit

open Source Naming

/-! ## Types of fields and methods -/

variable {names : LocalNames}

namespace Reference

def path (names : LocalNames) (r : Reference) : List String :=
  match r.home with
  | .here => [r.name]
  | .sibling => ["super", r.name]
  | .package importPath => [names.get importPath, r.name]

/-- Whether all names in the path of a referenced type can be declared. -/
def Named (names : LocalNames) (r : Reference) : Prop :=
  isDeclarable r.name = true
    ∧ ∀ importPath, r.home = .package importPath → isDeclarable (names.get importPath) = true

theorem text_eq (r : Reference) : r.text names = "::".intercalate (r.path names) := by
  unfold text path
  cases r.home <;> simp [String.intercalate_cons_cons]

theorem path_ne_nil (r : Reference) : r.path names ≠ [] := by
  unfold path
  cases r.home <;> simp

theorem Named.path {r : Reference} (h : r.Named names) :
    ∀ name ∈ r.path names, isSegment name = true := by
  have hName := isSegment_of_isDeclarable h.1
  unfold Reference.path
  cases hHome : r.home with
  | here => simpa using hName
  | sibling =>
    intro name hMem
    rcases List.mem_cons.mp hMem with rfl | hMem
    · decide
    · rwa [List.mem_singleton.mp hMem]
  | package importPath =>
    intro name hMem
    rcases List.mem_cons.mp hMem with rfl | hMem
    · exact isSegment_of_isDeclarable (h.2 importPath hHome)
    · rwa [List.mem_singleton.mp hMem]

theorem Named.isType {r : Reference} (h : r.Named names) : IsType (r.text names) := by
  rw [text_eq]
  exact isType_path (path_ne_nil r) h.path

end Reference

theorem isType_name {name : String} (h : isDeclarable name = true) : IsType name := by
  have hPath := @isType_path [name] (by simp) (by simpa using isSegment_of_isDeclarable h)
  rwa [String.intercalate_singleton] at hPath

theorem isType_scalar (type : Scalar) : IsType type.text := by
  cases type with
  | bytes => exact @IsType.applied "u8" "Vec<" "Vec" (isType_name (by decide)) (by decide) rfl
  | _ => exact isType_name (by decide)

theorem isType_freeForm (form : FreeForm) : IsType form.text := by
  have hNames : ∀ name ∈ ["serde_json", "Value"], isSegment name = true := by decide
  have hForm := typeForm_path (List.cons_ne_nil _ _) hNames false
  have hValue : IsType "serde_json::Value" := @isType_path ["serde_json", "Value"] (by simp) hNames
  cases form with
  | value => exact hValue
  | object =>
    have hString : TypeForm [.word "String"] (.type (.path (.mk false [.mk "String" .none]))) :=
      .path (.name false rfl)
    have hMap : TypeForm (.word "serde_json" :: .mark "::" :: .word "Map" :: .mark "<"
        :: ([Piece.word "String", .mark ",", .word "serde_json", .mark "::", .word "Value"]
          ++ [Piece.mark ">"])) _ :=
      .path (.within rfl (.angled rfl (.cons (.argument hString) (.last (.argument (.path hForm))))))
    refine ⟨_, _, hMap, Writes.weaken ?_ .word⟩
    exact Writes.ofFixed "serde_json::Map<String, serde_json::Value>" _ (by decide +kernel)
  | list =>
    have hText : FreeForm.list.text = "Vec<" ++ "serde_json::Value" ++ ">" := by decide +kernel
    rw [hText]
    exact @IsType.applied _ "Vec<" "Vec" hValue (by decide) rfl

namespace Element

def Named (names : LocalNames) : Element → Prop
  | .enum type | .message type => type.Named names
  | _ => True

theorem Named.isType {element : Element} (h : element.Named names) : IsType (element.text names) := by
  cases element with
  | scalar type => exact isType_scalar type
  | enum type => exact Reference.Named.isType h
  | message type => exact Reference.Named.isType h
  | freeForm form => exact isType_freeForm form

end Element

namespace Shape

def Named (names : LocalNames) : Shape → Prop
  | .one element | .optional element | .many element => element.Named names
  | .boxed message => message.Named names
  | .map key value => key.Named names ∧ value.Named names

theorem Named.isType {shape : Shape} (h : shape.Named names) : IsType (shape.text names) := by
  cases shape with
  | one element => exact Element.Named.isType h
  | optional element => exact @IsType.applied _ "Option<" "Option" (Element.Named.isType h) (by decide) rfl
  | boxed message =>
    have hBox := @IsType.applied _ "Box<" "Box" (Reference.Named.isType h) (by decide) rfl
    have hAll := @IsType.applied _ "Option<" "Option" hBox (by decide) rfl
    have hText : "Option<Box<" ++ message.text names ++ ">>"
        = "Option<" ++ ("Box<" ++ message.text names ++ ">") ++ ">" := by
      rw [← String.toList_inj]
      simp
    rw [text, hText]
    exact hAll
  | many element => exact @IsType.applied _ "Vec<" "Vec" (Element.Named.isType h) (by decide) rfl
  | map key value =>
    exact @IsType.applied₂ _ _ "HashMap<" "HashMap" (Element.Named.isType h.1) (Element.Named.isType h.2)
      (by decide) rfl

end Shape

/-- Whether all names in what a method takes or gives can be declared. -/
def Payload.Named (names : LocalNames) : Payload → Prop
  | .empty => True
  | .named reference => reference.Named names

def Payload.path (names : LocalNames) : Payload → List String
  | .empty => ["router", "Empty"]
  | .named reference => reference.path names

end ProtoBind.Emit
