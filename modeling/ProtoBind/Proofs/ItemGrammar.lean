import ProtoBind.Proofs.ExpressionGrammar
import ProtoBind.Source.Parser.Item

/-!
# The grammar of items

The items that emitted source is made of. What an attribute says is kept as tokens, so how it is spelled
is not settled by how it is written, and a phrase may stand for more than one attribute.
-/

set_option autoImplicit false

namespace ProtoBind.Source

open Text ProtoBind.Source.Parser

def IsEntry : Piece → Prop
  | .word name => isWord name = true
  | .literal text => IsLiteral text
  | .mark text => text = "," ∨ text = "="
  | _ => False

/-- Attributes in front of something: comments, and lists of entries. -/
inductive AttributesForm : List Piece → List Attribute → Prop where
  | nil : AttributesForm [] []
  | remark {ps : List Piece} {comment : DocComment} {attributes : List Attribute}
      (hOuter : comment.inner = false) (hLine : comment.isLine = true)
      (h : AttributesForm ps attributes) :
      AttributesForm (.remark comment :: ps)
        (.value (.ofName "doc")
            (String.ofList ('\x22' :: (docLiteralBody comment.text ++ ['\x22'])))
          :: attributes)
  | list {name : String} {ps qs : List Piece} {tokens : List Token} {attributes : List Attribute}
      (hName : isDeclarable name = true) (hEntries : ∀ p ∈ qs, IsEntry p) (hTokens : Spelled qs tokens)
      (h : AttributesForm ps attributes) :
      AttributesForm (.mark "#" :: .group .bracket [.word name, .group .parenthesis qs] :: ps)
        (.list (.ofName name) .parenthesis tokens :: attributes)

inductive VisibilityForm : List Piece → Visibility → Prop where
  | inherited : VisibilityForm [] .inherited
  | everyone : VisibilityForm [.word "pub"] .everyone

inductive UsePhrase where
  | tree (tree : UseTree)
  | trees (trees : List UseTree) (ended : Bool)

inductive UseForm : List Piece → UsePhrase → Prop where
  | name {name : String} (hName : isDeclarable name = true) :
      UseForm [.word name] (.tree (.name name))
  | root {name : String} (hName : name ∈ pathWords) : UseForm [.word name] (.tree (.name name))
  | rename {name other : String} (hName : isWord name = true)
      (hSegment : isName name = true ∨ name ∈ pathWords) (hOther : isDeclarable other = true) :
      UseForm [.word name, .word "as", .word other] (.tree (.rename name other))
  | path {name : String} {ps : List Piece} {tree : UseTree} (hName : isWord name = true)
      (hSegment : isName name = true ∨ name ∈ pathWords) (h : UseForm ps (.tree tree)) :
      UseForm (.word name :: .mark "::" :: ps) (.tree (.path name tree))
  | group {ps : List Piece} {first second : UseTree} {trees : List UseTree} {ended : Bool}
      (h : UseForm ps (.trees (first :: second :: trees) ended)) :
      UseForm [.group .brace ps] (.tree (.group (first :: second :: trees) ended))
  | last {ps : List Piece} {tree : UseTree} (h : UseForm ps (.tree tree)) :
      UseForm ps (.trees [tree] false)
  | ended {ps : List Piece} {tree : UseTree} (h : UseForm ps (.tree tree)) :
      UseForm (ps ++ [Piece.mark ","]) (.trees [tree] true)
  | cons {ps qs : List Piece} {tree next : UseTree} {trees : List UseTree} {ended : Bool}
      (h : UseForm ps (.tree tree)) (hRest : UseForm qs (.trees (next :: trees) ended)) :
      UseForm (ps ++ Piece.mark "," :: qs) (.trees (tree :: next :: trees) ended)

inductive FieldsForm : List Piece → List FieldItem → Prop where
  | nil : FieldsForm [] []
  | cons {ps qs rs : List Piece} {attributes : List Attribute} {name : String} {type : Ty}
      {fields : List FieldItem} (hAttributes : AttributesForm ps attributes)
      (hName : isDeclarable name = true) (hType : TypeForm qs (.type type))
      (h : FieldsForm rs fields) :
      FieldsForm (ps ++ Piece.word "pub" :: .word name :: .mark ":" :: (qs ++ Piece.mark "," :: rs))
        (⟨attributes, .everyone, some name, type⟩ :: fields)

inductive PlaceForm : List Piece → FieldItem → Prop where
  | inherited {ps : List Piece} {type : Ty} (h : TypeForm ps (.type type)) :
      PlaceForm ps ⟨[], .inherited, none, type⟩
  | everyone {ps : List Piece} {segments : List Segment} (h : TypeForm ps (.segments false segments)) :
      PlaceForm (.word "pub" :: ps) ⟨[], .everyone, none, .path (.mk false segments)⟩

inductive PlacesForm : List Piece → FieldItem → Prop where
  | last {ps : List Piece} {field : FieldItem} (h : PlaceForm ps field) : PlacesForm ps field
  | ended {ps : List Piece} {field : FieldItem} (h : PlaceForm ps field) :
      PlacesForm (ps ++ [Piece.mark ","]) field

inductive VariantsForm : List Piece → List Variant → Prop where
  | nil : VariantsForm [] []
  | cons {ps qs rs : List Piece} {attributes : List Attribute} {name : String} {field : FieldItem}
      {variants : List Variant} (hAttributes : AttributesForm ps attributes)
      (hName : isDeclarable name = true) (hField : PlacesForm qs field)
      (h : VariantsForm rs variants) :
      VariantsForm (ps ++ Piece.word name :: .group .parenthesis qs :: .mark "," :: rs)
        (⟨attributes, name, .unnamed [field], none⟩ :: variants)

inductive InputForm : List Piece → Input → Prop where
  | byValue : InputForm [.word "self"] (.receiver ⟨none, false, none⟩)
  | byReference : InputForm [.mark "&", .word "self"] (.receiver ⟨some none, false, none⟩)
  | typed {name : String} {ps : List Piece} {type : Ty} (hName : isDeclarable name = true)
      (h : TypeForm ps (.type type)) :
      InputForm (.word name :: .mark ":" :: ps) (.typed (.bind false false name none) type)

inductive InputsForm : List Piece → List Input → Prop where
  | last {ps : List Piece} {input : Input} (h : InputForm ps input) : InputsForm ps [input]
  | ended {ps : List Piece} {input : Input} (h : InputForm ps input) :
      InputsForm (ps ++ [Piece.mark ","]) [input]
  | cons {ps qs : List Piece} {input : Input} {inputs : List Input} (h : InputForm ps input)
      (hRest : InputsForm qs inputs) : InputsForm (ps ++ Piece.mark "," :: qs) (input :: inputs)

inductive ParametersForm : List Piece → List Parameter → Prop where
  | nil : ParametersForm [] []
  | last {name : String} {ps : List Piece} {bounds : List Bound} (hName : isDeclarable name = true)
      (h : TypeForm ps (.bounds bounds)) :
      ParametersForm (.mark "<" :: .word name :: .mark ":" :: (ps ++ [Piece.mark ">"]))
        [.type name bounds none]
  | ended {name : String} {ps : List Piece} {bounds : List Bound} (hName : isDeclarable name = true)
      (h : TypeForm ps (.bounds bounds)) :
      ParametersForm (.mark "<" :: .word name :: .mark ":" :: (ps ++ [Piece.mark ",", .mark ">"]))
        [.type name bounds none]

inductive OutputForm : List Piece → Option Ty → Prop where
  | none : OutputForm [] none
  | some {ps : List Piece} {type : Ty} (h : TypeForm ps (.sum type)) :
      OutputForm (.mark "->" :: ps) (some type)

inductive SignatureForm : List Piece → Signature → Prop where
  | mk {name : String} {ps qs rs : List Piece} {parameters : List Parameter} {inputs : List Input}
      {output : Option Ty} (hName : isDeclarable name = true)
      (hParameters : ParametersForm ps parameters) (hInputs : InputsForm qs inputs)
      (hOutput : OutputForm rs output) :
      SignatureForm (.word "fn" :: .word name :: (ps ++ Piece.group .parenthesis qs :: rs))
        ⟨[], name, parameters, inputs, output⟩

inductive BodyForm : List Piece → Option (List Stmt) → Prop where
  | declared : BodyForm [.mark ";"] none
  | defined {ps : List Piece} {body : List Stmt} (h : ExprForm ps (.statements body)) :
      BodyForm [.group .brace ps] (some body)

inductive FunctionForm : List Piece → Function → Prop where
  | mk {ps qs rs ss : List Piece} {attributes : List Attribute} {visibility : Visibility}
      {signature : Signature} {body : Option (List Stmt)} (hAttributes : AttributesForm ps attributes)
      (hVisibility : VisibilityForm qs visibility) (hSignature : SignatureForm rs signature)
      (hBody : BodyForm ss body) :
      FunctionForm (ps ++ (qs ++ (rs ++ ss))) ⟨attributes, visibility, signature, body⟩

inductive MembersForm : List Piece → List Member → Prop where
  | nil : MembersForm [] []
  | cons {ps qs : List Piece} {function : Function} {members : List Member}
      (h : FunctionForm ps function) (hRest : MembersForm qs members) :
      MembersForm (ps ++ qs) (.function function :: members)

inductive ItemForm : List Piece → Item → Prop where
  | use {ps qs : List Piece} {visibility : Visibility} {tree : UseTree}
      (hVisibility : VisibilityForm ps visibility) (h : UseForm qs (.tree tree)) :
      ItemForm (ps ++ Piece.word "use" :: (qs ++ [Piece.mark ";"]))
        (.use { visibility, tree })
  | struct {ps qs : List Piece} {attributes : List Attribute} {name : String} {fields : List FieldItem}
      (hAttributes : AttributesForm ps attributes) (hName : isDeclarable name = true)
      (h : FieldsForm qs fields) :
      ItemForm (ps ++ [Piece.word "pub", .word "struct", .word name, .group .brace qs])
        (.struct attributes .everyone name [] (.named fields))
  | newtype {ps qs : List Piece} {attributes : List Attribute} {name : String} {field : FieldItem}
      (hAttributes : AttributesForm ps attributes) (hName : isDeclarable name = true)
      (h : PlacesForm qs field) :
      ItemForm (ps ++ [Piece.word "pub", .word "struct", .word name, .group .parenthesis qs, .mark ";"])
        (.struct attributes .everyone name [] (.unnamed [field]))
  | constant {ps qs rs : List Piece} {attributes : List Attribute} {name : String} {type : Ty}
      {value : Expr} (hAttributes : AttributesForm ps attributes) (hName : isDeclarable name = true)
      (hType : TypeForm qs (.type type)) (h : ExprForm rs (.value value)) :
      ItemForm (ps ++ Piece.word "pub" :: .word "const" :: .word name :: .mark ":"
          :: (qs ++ Piece.mark "=" :: (rs ++ [Piece.mark ";"])))
        (.constant ⟨attributes, .everyone, "const ", name, type, some value⟩)
  | enum {ps qs : List Piece} {attributes : List Attribute} {name : String} {variants : List Variant}
      (hAttributes : AttributesForm ps attributes) (hName : isDeclarable name = true)
      (h : VariantsForm qs variants) :
      ItemForm (ps ++ [Piece.word "pub", .word "enum", .word name, .group .brace qs])
        (.enum attributes .everyone name [] variants)
  | impl {ps : List Piece} {name : String} {members : List Member} (hName : isDeclarable name = true)
      (h : MembersForm ps members) :
      ItemForm [.word "impl", .word name, .group .brace ps]
        (.impl [] false [] none (.path (.ofName name)) members)
  | trait {ps qs rs : List Piece} {attributes : List Attribute} {name : String} {bounds : List Bound}
      {members : List Member} (hAttributes : AttributesForm ps attributes)
      (hName : isDeclarable name = true) (hBounds : TypeForm qs (.bounds bounds))
      (h : MembersForm rs members) :
      ItemForm (ps ++ Piece.word "pub" :: .word "trait" :: .word name :: .mark ":"
          :: (qs ++ [Piece.group .brace rs]))
        (.trait attributes .everyone false name [] bounds members)
  | function {ps : List Piece} {function : Function} (h : FunctionForm ps function) :
      ItemForm ps (.function function)

inductive ItemsForm : List Piece → List Item → Prop where
  | nil : ItemsForm [] []
  | cons {ps qs : List Piece} {item : Item} {items : List Item} (h : ItemForm ps item)
      (hRest : ItemsForm qs items) : ItemsForm (ps ++ qs) (item :: items)

inductive RemarksForm : List Piece → List Attribute → Prop where
  | nil : RemarksForm [] []
  | cons {ps : List Piece} {comment : DocComment} {attributes : List Attribute}
      (hInner : comment.inner = true) (hLine : comment.isLine = true) (h : RemarksForm ps attributes) :
      RemarksForm (.remark comment :: ps)
        (.value (.ofName "doc")
            (String.ofList ('\x22' :: (docLiteralBody comment.text ++ ['\x22'])))
          :: attributes)

inductive FileForm : List Piece → SourceFile → Prop where
  | mk {ps qs : List Piece} {attributes : List Attribute} {items : List Item}
      (hAttributes : RemarksForm ps attributes) (h : ItemsForm qs items) :
      FileForm (ps ++ qs) { attributes, items }

/-! ## Attributes -/

theorem run_plainPath {name : String} (hName : isSegment name = true) {rest : List Token}
    (hRest : clear [':'] [] rest = true) :
    plainPath (.word name :: rest) = some (.ofName name, rest) := by
  have hColons := afterMarks_of_clear hRest (c := ':') rfl
  rw [plainPath]
  simp [eatMark, separated, separatedUpTo, run_segmentName hName, hColons, Path.ofName]

theorem run_remarkMeta (text : String) :
    attributeMeta [.word "doc", .mark '=' false, .literal text] = some (.value (.ofName "doc") text, []) := by
  have hPath := @run_plainPath "doc" (by decide) [.mark '=' false, .literal text] rfl
  rw [attributeMeta]
  simp [hPath, eatMark]

/-- The parser takes the attributes that are there. -/
theorem parsed_attributes {ps : List Piece} {attributes : List Attribute}
    (h : AttributesForm ps attributes) : ∀ {tokens : List Token}, Spelled ps tokens →
      ∀ n rest, tokens.length ≤ n → clear ['#'] [] rest = true →
      ∃ found, AttributesForm ps found ∧ attributesUpTo n (tokens ++ rest) = some (found, rest) := by
  induction h with
  | nil =>
    intro tokens hSpelled n rest _ hClear
    cases hSpelled
    have hMark : afterMarks ['#'] rest = none := afterMarks_of_clear hClear rfl []
    refine ⟨[], .nil, ?_⟩
    cases n with
    | zero => rfl
    | succ n =>
      rw [attributesUpTo]
      simp [eatMark, hMark]
  | @remark ps comment attributes hOuter hLine h ih =>
    intro tokens hSpelled n rest hLength hClear
    obtain ⟨back, rfl, hBack⟩ := spelled_remark hSpelled
    rw [DocComment.tokens, hOuter] at hLength ⊢
    simp only [Bool.false_eq_true, if_false, List.nil_append, List.cons_append, List.length_cons]
      at hLength ⊢
    obtain ⟨n, rfl⟩ : ∃ m, n = m + 1 := ⟨n - 1, by omega⟩
    obtain ⟨found, hFound, hRun⟩ := ih hBack n rest (by omega) hClear
    refine ⟨_, .remark hOuter hLine hFound, ?_⟩
    rw [attributesUpTo]
    simp [eatMark, run_inGroup (run_remarkMeta _), hRun]
  | @list name ps qs tokens attributes hName hEntries hTokens h ih =>
    intro tokens hSpelled n rest hLength hClear
    obtain ⟨joined, back, rfl, hGroup⟩ := spelled_one '#' rfl hSpelled
    obtain ⟨inner, back, rfl, hInner, hBack⟩ := spelled_group hGroup
    obtain ⟨inner, rfl, hMore⟩ := spelled_word hInner
    obtain ⟨entries, more, rfl, hSpelledEntries, rfl⟩ := spelled_group hMore
    simp only [List.length_cons] at hLength
    obtain ⟨n, rfl⟩ : ∃ m, n = m + 1 := ⟨n - 1, by omega⟩
    obtain ⟨found, hFound, hRun⟩ := ih hBack n rest (by omega) hClear
    refine ⟨_, .list hName hEntries hSpelledEntries hFound, ?_⟩
    have hPath := @run_plainPath _ (isSegment_of_isDeclarable hName) [.group .parenthesis entries] rfl
    have hMeta : attributeMeta [.word name, .group .parenthesis entries]
        = some (.list (.ofName name) .parenthesis entries, []) := by
      rw [attributeMeta]
      simp [hPath]
    rw [attributesUpTo]
    simp [eatMark, run_inGroup hMeta, hRun]

theorem run_attributes {ps : List Piece} {attributes : List Attribute} {tokens rest : List Token}
    (h : AttributesForm ps attributes) (hSpelled : Spelled ps tokens) (hClear : clear ['#'] [] rest = true) :
    ∃ found, AttributesForm ps found ∧ Parser.attributes (tokens ++ rest) = some (found, rest) := by
  rw [Parser.attributes]
  apply parsed_attributes h hSpelled _ _ _ hClear
  rw [List.length_append]
  omega

theorem run_pub {rest : List Token} (hGroup : isGroup .parenthesis rest = false) :
    visibility (.word "pub" :: rest) = some (.everyone, rest) := by
  rw [visibility]
  simp only [run_bind, run_eatWord, run_peek, andThen_some, if_true]
  cases rest with
  | nil => rfl
  | cons token rest =>
    cases token with
    | group delimiter inner =>
      cases delimiter with
      | parenthesis => cases hGroup
      | _ => rfl
    | _ => rfl

theorem run_private {rest : List Token} (hPub : isThatWord "pub" rest = false) :
    visibility rest = some (.inherited, rest) := by
  rw [visibility]
  simp [run_eatWord_false hPub]

theorem run_visibility {ps : List Piece} {found : Visibility} {tokens rest : List Token}
    (h : VisibilityForm ps found) (hSpelled : Spelled ps tokens) (hPub : isThatWord "pub" rest = false)
    (hGroup : isGroup .parenthesis rest = false) :
    visibility (tokens ++ rest) = some (found, rest) := by
  cases h with
  | inherited =>
    cases hSpelled
    exact run_private hPub
  | everyone =>
    obtain ⟨back, rfl, rfl⟩ := spelled_word hSpelled
    exact run_pub hGroup

/-! ## Use trees -/

def UsePhrase.ParsedFrom (tokens : List Token) : UsePhrase → Prop
  | .tree found => ∀ fuel rest, countAll tokens < fuel → clear [':'] [] rest = true →
      isThatWord "as" rest = false → useTree fuel (tokens ++ rest) = some (found, rest)
  | .trees found ended => ∀ n fuel, tokens.length < n → countAll tokens < fuel →
      commasUpTo (useTree fuel) n tokens = some ((found, ended), [])

theorem run_useName {name : String} (h : isName name = true ∨ name ∈ pathWords) (rest : List Token) :
    useName (.word name :: rest) = some (name, rest) := by
  rw [useName, if_pos]
  simpa using h

theorem run_useTree_end {name : String} {rest : List Token} {fuel : Nat}
    (hName : isName name = true ∨ name ∈ pathWords) (hClear : clear [':'] [] rest = true)
    (hAs : isThatWord "as" rest = false) :
    useTree (fuel + 1) (.word name :: rest) = some (.name name, rest) := by
  have hColons := afterMarks_of_clear hClear (c := ':') rfl
  rw [useTree]
  simp [eatMark, run_useName hName, hColons, run_eatWord_false hAs]

theorem use_begins {ps : List Piece} {phrase : UsePhrase} (h : UseForm ps phrase) :
    ∀ {tokens : List Token}, Spelled ps tokens → tokens ≠ [] := by
  induction h with
  | name _ =>
    intro tokens hSpelled
    obtain ⟨back, rfl, -⟩ := spelled_word hSpelled
    exact List.cons_ne_nil _ _
  | root _ =>
    intro tokens hSpelled
    obtain ⟨back, rfl, -⟩ := spelled_word hSpelled
    exact List.cons_ne_nil _ _
  | rename _ _ _ =>
    intro tokens hSpelled
    obtain ⟨back, rfl, -⟩ := spelled_word hSpelled
    exact List.cons_ne_nil _ _
  | path _ _ _ _ =>
    intro tokens hSpelled
    obtain ⟨back, rfl, -⟩ := spelled_word hSpelled
    exact List.cons_ne_nil _ _
  | group _ _ =>
    intro tokens hSpelled
    obtain ⟨within, back, rfl, -, -⟩ := spelled_group hSpelled
    exact List.cons_ne_nil _ _
  | last _ ih => exact ih
  | ended _ ih =>
    intro tokens hSpelled
    obtain ⟨front, back, rfl, hFront, -⟩ := spelled_append hSpelled
    exact List.append_ne_nil_of_left_ne_nil (ih hFront) _
  | cons _ _ ih _ =>
    intro tokens hSpelled
    obtain ⟨front, back, rfl, hFront, -⟩ := spelled_append hSpelled
    exact List.append_ne_nil_of_left_ne_nil (ih hFront) _

theorem parsed_of_useForm {ps : List Piece} {phrase : UsePhrase} (h : UseForm ps phrase) :
    ∀ {tokens : List Token}, Spelled ps tokens → phrase.ParsedFrom tokens := by
  induction h with
  | name hName =>
    intro tokens hSpelled fuel rest hFuel hClear hAs
    obtain ⟨back, rfl, rfl⟩ := spelled_word hSpelled
    obtain ⟨fuel, rfl⟩ : ∃ f, fuel = f + 1 := ⟨fuel - 1, by omega⟩
    exact run_useTree_end (.inl (Bool.and_eq_true_iff.mp hName).2) hClear hAs
  | root hName =>
    intro tokens hSpelled fuel rest hFuel hClear hAs
    obtain ⟨back, rfl, rfl⟩ := spelled_word hSpelled
    obtain ⟨fuel, rfl⟩ : ∃ f, fuel = f + 1 := ⟨fuel - 1, by omega⟩
    exact run_useTree_end (.inr hName) hClear hAs
  | @rename _ other _ hSegment hOther =>
    intro tokens hSpelled fuel rest hFuel hClear hAs
    obtain ⟨back, rfl, hBack⟩ := spelled_word hSpelled
    obtain ⟨back, rfl, hLast⟩ := spelled_word hBack
    obtain ⟨back, rfl, rfl⟩ := spelled_word hLast
    obtain ⟨fuel, rfl⟩ : ∃ f, fuel = f + 1 := ⟨fuel - 1, by omega⟩
    have hOther := (Bool.and_eq_true_iff.mp hOther).2
    rw [List.cons_append, useTree]
    have hUnderscore : other ≠ "_" := ne_of_isName hOther rfl
    simp [eatMark, run_useName hSegment, hUnderscore, run_name hOther]
  | path _ hSegment _ ih =>
    intro tokens hSpelled fuel rest hFuel hClear hAs
    obtain ⟨back, rfl, hBack⟩ := spelled_word hSpelled
    obtain ⟨joined, back, rfl, hLast⟩ := spelled_two ':' ':' rfl hBack
    simp only [countAll_word, countAll_mark] at hFuel
    obtain ⟨fuel, rfl⟩ : ∃ f, fuel = f + 1 := ⟨fuel - 1, by omega⟩
    have hFound := ih hLast fuel rest (by omega) hClear hAs
    rw [List.cons_append, useTree]
    simp [eatMark, run_useName hSegment, hFound]
  | group _ ih =>
    intro tokens hSpelled fuel rest hFuel hClear hAs
    obtain ⟨inner, back, rfl, hInner, rfl⟩ := spelled_group hSpelled
    simp only [countAll_group, countAll_nil] at hFuel
    obtain ⟨fuel, rfl⟩ : ∃ f, fuel = f + 1 := ⟨fuel - 1, by omega⟩
    have hFound : commas (useTree fuel) inner = some ((_, _), []) :=
      ih hInner (inner.length + 1) fuel (by omega) (by omega)
    rw [List.singleton_append, useTree]
    simp [eatMark, run_inGroup hFound]
  | last h ih =>
    intro tokens hSpelled n fuel hLength hFuel
    obtain ⟨n, rfl⟩ : ∃ m, n = m + 1 := ⟨n - 1, by omega⟩
    have hFound := ih hSpelled fuel [] (by omega) rfl rfl
    rw [List.append_nil] at hFound
    exact run_commasUpTo_last (use_begins h hSpelled) hFound n
  | ended h ih =>
    intro tokens hSpelled n fuel hLength hFuel
    obtain ⟨front, back, rfl, hFront, hBack⟩ := spelled_append hSpelled
    obtain ⟨joined, back, rfl, rfl⟩ := spelled_one ',' rfl hBack
    simp only [countAll_append, countAll_mark, countAll_nil] at hFuel
    obtain ⟨n, rfl⟩ : ∃ m, n = m + 1 := ⟨n - 1, by omega⟩
    exact run_commasUpTo_ended (by simp) (ih hFront fuel [.mark ',' joined] (by omega) rfl rfl) n
  | cons h hRest ih ihRest =>
    intro tokens hSpelled n fuel hLength hFuel
    obtain ⟨front, back, rfl, hFront, hBack⟩ := spelled_append hSpelled
    obtain ⟨joined, back, rfl, hMore⟩ := spelled_one ',' rfl hBack
    simp only [countAll_append, countAll_mark, List.length_append, List.length_cons] at hFuel hLength
    obtain ⟨n, rfl⟩ : ∃ m, n = m + 1 := ⟨n - 1, by omega⟩
    exact run_commasUpTo_cons (by simp) (ih hFront fuel _ (by omega) rfl rfl)
      (use_begins hRest hMore) (ihRest hMore n fuel (by omega) (by omega))

/-! ## Fields and variants -/

theorem run_namedField {ps qs : List Piece} {attributes : List Attribute} {name : String} {type : Ty}
    {front middle rest : List Token} {joined : Bool} {fuel : Nat}
    (hAttributes : AttributesForm ps attributes) (hFront : Spelled ps front)
    (hName : isDeclarable name = true) (hType : TypeForm qs (.type type)) (hMiddle : Spelled qs middle)
    (hFuel : 16 * countAll middle + 8 ≤ fuel) (hClear : clear [':', '<'] [.parenthesis] rest = true) :
    ∃ found, AttributesForm ps found
      ∧ namedField fuel (front ++ Token.word "pub" :: .word name :: .mark ':' joined :: (middle ++ rest))
        = some (⟨found, .everyone, some name, type⟩, rest) := by
  obtain ⟨found, hFound, hRun⟩ := @run_attributes _ _ _
    (.word "pub" :: .word name :: .mark ':' joined :: (middle ++ rest)) hAttributes hFront rfl
  refine ⟨found, hFound, ?_⟩
  have hVisibility : visibility (.word "pub" :: .word name :: .mark ':' joined :: (middle ++ rest))
      = some (.everyone, .word name :: .mark ':' joined :: (middle ++ rest)) := run_pub rfl
  have hParsed := parsed_of_typeForm hType hMiddle fuel true rest hFuel hClear
  rw [namedField]
  simp [hRun, hVisibility, run_name (Bool.and_eq_true_iff.mp hName).2, mark, hParsed]

/-- The parser takes the fields of a structure. -/
theorem parsed_fields {ps : List Piece} {fields : List FieldItem} (h : FieldsForm ps fields) :
    ∀ {tokens : List Token}, Spelled ps tokens → ∀ fuel, 16 * countAll tokens + 16 ≤ fuel →
      ∃ found, FieldsForm ps found ∧ ∀ n, tokens.length < n →
        ∃ ended, commasUpTo (namedField fuel) n tokens = some ((found, ended), []) := by
  induction h with
  | nil =>
    intro tokens hSpelled fuel _
    cases hSpelled
    exact ⟨[], .nil, run_commasUpTo_nil⟩
  | @cons ps qs rs attributes name type fields hAttributes hName hType h ih =>
    intro tokens hSpelled fuel hFuel
    obtain ⟨front, back, rfl, hFront, hPub⟩ := spelled_append hSpelled
    obtain ⟨back, rfl, hWord⟩ := spelled_word hPub
    obtain ⟨back, rfl, hColon⟩ := spelled_word hWord
    obtain ⟨joined, back, rfl, hMore⟩ := spelled_one ':' rfl hColon
    obtain ⟨middle, back, rfl, hMiddle, hComma⟩ := spelled_append hMore
    obtain ⟨last, back, rfl, hBack⟩ := spelled_one ',' rfl hComma
    simp only [countAll_append, countAll_word, countAll_mark] at hFuel
    obtain ⟨found, hFound, hField⟩ := @run_namedField _ _ _ _ _ _ _
      (.mark ',' last :: back) joined _ hAttributes hFront hName hType hMiddle
      (show 16 * countAll middle + 8 ≤ fuel by omega) rfl
    obtain ⟨more, hMoreForm, hRun⟩ := ih hBack fuel (by omega)
    exact ⟨_, .cons hFound hName hType hMoreForm, run_commasUpTo_comma (by simp; omega) hField hRun⟩

theorem run_place {ps : List Piece} {field : FieldItem} {tokens rest : List Token} {fuel : Nat}
    (h : PlaceForm ps field) (hSpelled : Spelled ps tokens) (hFuel : 16 * countAll tokens + 8 ≤ fuel)
    (hClear : clear [':', '<'] [.parenthesis] rest = true) :
    tokens ≠ [] ∧ unnamedField fuel (tokens ++ rest) = some (field, rest) := by
  cases h with
  | inherited hType =>
    have hBegins := beginsType_of_typeForm hType hSpelled
    have hPub := hBegins.not_word rest "pub" rfl
    obtain ⟨found, hFound, hRun⟩ := @run_attributes _ _ [] _ .nil rfl (hBegins.not_attribute rest)
    cases hFound with
    | nil =>
      rw [List.nil_append] at hRun
      rw [unnamedField]
      simp [hRun, run_private hPub, parsed_of_typeForm hType hSpelled fuel true rest hFuel hClear, hBegins.ne_nil]
  | everyone hType =>
    obtain ⟨back, rfl, hBack⟩ := spelled_word hSpelled
    rw [countAll_word] at hFuel
    have hParsed := parsed_of_typeForm (.path hType) hBack fuel true rest (by omega) hClear
    obtain ⟨name, more, rfl, -⟩ := segments_start hType hBack
    rw [List.cons_append] at hParsed
    have hPub : visibility (.word "pub" :: .word name :: (more ++ rest))
        = some (.everyone, .word name :: (more ++ rest)) := run_pub rfl
    obtain ⟨found, hFound, hRun⟩ := @run_attributes _ _ []
      (.word "pub" :: .word name :: (more ++ rest)) .nil rfl rfl
    cases hFound with
    | nil =>
      rw [List.nil_append] at hRun
      rw [List.cons_append, List.cons_append, unnamedField]
      simp [hRun, hPub, hParsed]

theorem run_places {ps : List Piece} {field : FieldItem} {tokens : List Token} {fuel : Nat}
    (h : PlacesForm ps field) (hSpelled : Spelled ps tokens) (hFuel : 16 * countAll tokens + 8 ≤ fuel) :
    ∃ ended, commas (unnamedField fuel) tokens = some (([field], ended), []) := by
  rw [commas]
  cases h with
  | last h =>
    obtain ⟨hNe, hRun⟩ := @run_place _ _ _ [] _ h hSpelled hFuel rfl
    rw [List.append_nil] at hRun
    exact ⟨false, run_commasUpTo_last hNe hRun _⟩
  | ended h =>
    obtain ⟨front, back, rfl, hFront, hBack⟩ := spelled_append hSpelled
    obtain ⟨joined, back, rfl, rfl⟩ := spelled_one ',' rfl hBack
    rw [countAll_append] at hFuel
    obtain ⟨hNe, hRun⟩ := @run_place _ _ _ [.mark ',' joined] _ h hFront
      (show _ ≤ fuel by omega) rfl
    exact ⟨true, run_commasUpTo_ended (by simp) hRun _⟩

end ProtoBind.Source
