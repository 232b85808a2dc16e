import ProtoBind.Proofs.PrintedFiles
import ProtoBind.Proofs.TypeTexts

/-!
# Lines as phrases

Lines consist of a phrase of the grammar of items, piece by piece: comments, imports and the header of a file, and
what is common to the expressions in methods. A header with items behind it is formatted.
-/

set_option autoImplicit false

namespace ProtoBind.Source

/-! ## Forms put together -/

theorem AttributesForm.append {ps qs : List Piece} {front back : List Attribute} (h : AttributesForm ps front)
    (hBack : AttributesForm qs back) : AttributesForm (ps ++ qs) (front ++ back) := by
  induction h with
  | nil => exact hBack
  | remark hOuter hLine _ ih => exact .remark hOuter hLine ih
  | list hName hEntries hTokens _ ih => exact .list hName hEntries hTokens ih

theorem FieldsForm.append {ps qs : List Piece} {front back : List FieldItem} (h : FieldsForm ps front)
    (hBack : FieldsForm qs back) : FieldsForm (ps ++ qs) (front ++ back) := by
  induction h with
  | nil => exact hBack
  | cons hAttributes hName hType _ ih =>
    have hAll := FieldsForm.cons hAttributes hName hType ih
    simpa only [List.append_assoc, List.cons_append] using hAll

theorem VariantsForm.append {ps qs : List Piece} {front back : List Variant} (h : VariantsForm ps front)
    (hBack : VariantsForm qs back) : VariantsForm (ps ++ qs) (front ++ back) := by
  induction h with
  | nil => exact hBack
  | cons hAttributes hName hField _ ih =>
    have hAll := VariantsForm.cons hAttributes hName hField ih
    simpa only [List.append_assoc, List.cons_append] using hAll

theorem MembersForm.append {ps qs : List Piece} {front back : List Member} (h : MembersForm ps front)
    (hBack : MembersForm qs back) : MembersForm (ps ++ qs) (front ++ back) := by
  induction h with
  | nil => exact hBack
  | cons h _ ih =>
    have hAll := MembersForm.cons h ih
    rwa [← List.append_assoc] at hAll

theorem ItemsForm.append {ps qs : List Piece} {front back : List Item} (h : ItemsForm ps front)
    (hBack : ItemsForm qs back) : ItemsForm (ps ++ qs) (front ++ back) := by
  induction h with
  | nil => exact hBack
  | cons h _ ih =>
    have hAll := ItemsForm.cons h ih
    rwa [← List.append_assoc] at hAll

theorem ItemForm.alone {ps : List Piece} {item : Item} (h : ItemForm ps item) : ItemsForm ps [item] := by
  have hAll := ItemsForm.cons h .nil
  rwa [List.append_nil] at hAll

end ProtoBind.Source

namespace ProtoBind.Emit

open Source Naming Text

/-! ## Phrases on lines -/

def Phrased {α : Type} (form : List Piece → α → Prop) (lines : List Line) : Prop :=
  ∃ ps found, Lined lines ps ∧ form ps found

theorem phrased_nothing {α : Type} {form : List Piece → List α → Prop} (hNil : form [] []) : Phrased form [] :=
  ⟨[], [], Lined.nil, hNil⟩

namespace Phrased

theorem flatMap {α β : Type} {form : List Piece → List α → Prop} (hNil : form [] [])
    (hAppend : ∀ {ps qs : List Piece} {front back : List α}, form ps front → form qs back →
      form (ps ++ qs) (front ++ back))
    {items : List β} {f : β → List Line} (h : ∀ item ∈ items, Phrased form (f item)) :
    Phrased form (items.flatMap f) := by
  induction items with
  | nil => exact ⟨[], [], Lined.nil, hNil⟩
  | cons item rest ih =>
    obtain ⟨ps, front, hLines, hForm⟩ := h item List.mem_cons_self
    obtain ⟨qs, back, hMore, hBack⟩ := ih fun other hOther => h other (List.mem_cons_of_mem _ hOther)
    exact ⟨ps ++ qs, front ++ back, hLines.append hMore, hAppend hForm hBack⟩

theorem append {α : Type} {form : List Piece → List α → Prop}
    (hAppend : ∀ {ps qs : List Piece} {front back : List α}, form ps front → form qs back →
      form (ps ++ qs) (front ++ back))
    {lines more : List Line} (h : Phrased form lines) (hMore : Phrased form more) : Phrased form (lines ++ more) := by
  obtain ⟨ps, front, hLines, hForm⟩ := h
  obtain ⟨qs, back, hOther, hBack⟩ := hMore
  exact ⟨ps ++ qs, front ++ back, hLines.append hOther, hAppend hForm hBack⟩

/-- An item, and an empty line behind it. -/
theorem item {lines : List Line} (h : Phrased ItemForm lines) : Phrased ItemsForm (lines ++ [.blank]) := by
  obtain ⟨ps, item, hLines, hForm⟩ := h
  exact ⟨ps ++ [], [item], hLines.append Lined.blank, by rw [List.append_nil]; exact hForm.alone⟩

end Phrased

/-! ## Comments -/

def Plain (comment : Option String) : Prop := ∀ c ∈ comment, ∀ line ∈ commentLines c, '\r' ∉ line.toList

theorem isLine_remark (inner : Bool) {text : String} (hNewline : '\n' ∉ text.toList) (hReturn : '\r' ∉ text.toList) :
    (remark inner text).isLine = true := by
  unfold remark DocComment.isLine
  by_cases hEmpty : text = ""
  · simp [hEmpty]
  · simp [hEmpty, hNewline, hReturn]

theorem phrased_docs {texts : List String} (h : ∀ text ∈ texts, '\n' ∉ text.toList ∧ '\r' ∉ text.toList) :
    Phrased AttributesForm (texts.map (.doc 0)) := by
  induction texts with
  | nil => exact ⟨[], [], Lined.nil, .nil⟩
  | cons text rest ih =>
    obtain ⟨hNewline, hReturn⟩ := h text List.mem_cons_self
    obtain ⟨ps, attributes, hLines, hForm⟩ := ih fun other hOther => h other (List.mem_cons_of_mem _ hOther)
    have hLine := isLine_remark false hNewline hReturn
    exact ⟨.remark (remark false text) :: ps, _, LinesRead.cons (.doc hLine) hLines, .remark rfl hLine hForm⟩

theorem phrased_docLines {comment : Option String} (h : Plain comment) : Phrased AttributesForm (docLines comment) := by
  cases comment with
  | none => exact ⟨[], [], Lined.nil, .nil⟩
  | some comment =>
    apply phrased_docs
    intro text hText
    exact ⟨newline_not_mem_commentLines hText, h comment rfl text hText⟩

theorem phrased_documentation {comment : Option String} (h : Plain comment) (deprecated : Bool) :
    Phrased AttributesForm (documentation comment deprecated) := by
  have hDocs := phrased_docLines h
  have hNote : Phrased AttributesForm [.doc 0 deprecationNote] :=
      phrased_docs (by decide : ∀ text ∈ [deprecationNote], _)
  have hBlank : Phrased AttributesForm (if comment.isSome then [.doc 0 ""] else []) := by
    split
    · exact phrased_docs (by decide : ∀ text ∈ [""], _)
    · exact ⟨[], [], Lined.nil, .nil⟩
  unfold documentation
  split
  · exact (hDocs.append .append hBlank).append .append hNote
  · exact hDocs

/-! ## Expressions -/

/-- A name as an expression. -/
theorem receiver_name (name : String) (h : isSegment name = true) :
    ExprForm [.word name] (.receiver (.path (.mk false [.mk name .none]))) := .path (.name true h)

theorem value_name (name : String) (h : isSegment name = true) :
    ExprForm [.word name] (.value (.path (.mk false [.mk name .none]))) := .operand (.receiver (receiver_name name h))

/-- A call of a name with one argument. -/
theorem value_call (name : String) {ps : List Piece} {value : Expr} (h : isSegment name = true)
    (hValue : ExprForm ps (.value value)) :
    ExprForm [.word name, .group .parenthesis ps] (.value (.call (.path (.mk false [.mk name .none])) [value])) :=
  .operand (.receiver (@ExprForm.call [.word name] _ _ _ (.name true h) (.last hValue)))

/-- A pattern with one element behind a path. -/
theorem pattern_applied (first : String) (rest : List String) {ps : List Piece} {pattern : Pat}
    (hFirst : isDeclarable first = true) (hRest : ∀ name ∈ rest, isSegment name = true)
    (h : PatternForm ps (.pattern pattern)) :
    ∃ found, PatternForm (pathPieces (first :: rest) ++ [.group .parenthesis ps]) (.pattern found) := by
  have hNames : ∀ name ∈ first :: rest, isSegment name = true :=
    List.forall_mem_cons.mpr ⟨isSegment_of_isDeclarable hFirst, hRest⟩
  have hLead : ∃ name more, pathPieces (first :: rest) = .word name :: more ∧ Parser.isName name = true := by
    have hName := (Bool.and_eq_true_iff.mp hFirst).2
    cases rest with
    | nil => exact ⟨first, [], rfl, hName⟩
    | cons next rest => exact ⟨first, _, rfl, hName⟩
  exact ⟨_, .tupleStruct hLead (typeForm_path (List.cons_ne_nil first rest) hNames true) (.last h)⟩

/-- A match that is all that a method does. -/
theorem statements_match {ps qs : List Piece} {value : Expr} {arms : List Arm} (h : ExprForm ps (.operand value))
    (hArms : ExprForm qs (.arms arms)) :
    ∃ statements, ExprForm (.word "match" :: (ps ++ [Piece.group .brace qs])) (.statements statements) := by
  have hAll := ExprForm.blocky (.cases h hArms) .noStatements
  rw [List.append_nil] at hAll
  exact ⟨_, hAll⟩

theorem lined_match {head : String} {qs : List Piece} {arms : List Line} {tail : Tail} {ls : List Lexeme}
    (hHead : Writes tail head.toList ls) (hMay : tail.goesBefore " \x7b" = true) (hArms : Lined arms qs)
    (ps : List Piece) (hLexemes : ls = .word "match" :: lexemesOf ps) :
    Lined (block (head ++ " \x7b") arms "\x7d") (.word "match" :: (ps ++ [Piece.group .brace qs])) := by
  subst hLexemes
  exact Lined.block (hHead.fixed " \x7b" [.opening .brace] rfl hMay) hArms (Writes.ofFixed "\x7d" [.closing .brace] rfl)
    (by simp [lexemesOf_append])

/-- A whole number is an expression and a pattern. -/
theorem writes_int (n : Int) : ∃ ps value pattern, Writes .number (toString n).toList (lexemesOf ps) ∧
    ExprForm ps (.operand value) ∧ PatternForm ps (.pattern pattern) := by
  cases n with
  | ofNat n =>
    have hNumber := isNumber_toString n
    exact ⟨[.literal (toString n)], _, _, Writes.number hNumber, .literal (.inl hNumber), .number hNumber⟩
  | negSucc n =>
    have hNumber := isNumber_toString (n + 1)
    have hText := (Writes.ofFixed "-" [.mark "-"] rfl).next rfl (Writes.number hNumber)
    exact ⟨[.mark "-", .literal (toString (n + 1))], _, _, hText, .negative hNumber, .negative hNumber⟩

/-! ## Imports -/

def Passes (name : String) : Prop := isWord name = true ∧ (Parser.isName name = true ∨ name ∈ Parser.pathWords)

theorem passes_of_isDeclarable {name : String} (h : isDeclarable name = true) : Passes name :=
  ⟨isWord_of_isDeclarable h, .inl (Bool.and_eq_true_iff.mp h).2⟩

theorem Passes.isSegment {name : String} (h : Passes name) : isSegment name = true := by
  rcases h.2 with hName | hRoot
  · exact isSegment_of_isDeclarable (Bool.and_eq_true_iff.mpr ⟨h.1, hName⟩)
  · simp [Source.isSegment, h.1, hRoot]

/-- A path that brings its last name in. -/
theorem useForm_path {segments : List String} {name : String} (hSegments : ∀ s ∈ segments, Passes s)
    (hLast : segments.getLast? = some name) (hName : isDeclarable name = true) :
    ∃ tree, UseForm (pathPieces segments) (.tree tree) := by
  induction segments with
  | nil => cases hLast
  | cons first rest ih =>
    obtain ⟨hFirst, hRest⟩ := List.forall_mem_cons.mp hSegments
    cases rest with
    | nil =>
      cases hLast
      exact ⟨_, .name hName⟩
    | cons next rest =>
      obtain ⟨tree, hTree⟩ := ih hRest hLast
      exact ⟨_, .path hFirst.1 hFirst.2 hTree⟩

/-- A path that brings something in under another name. -/
theorem useForm_rename {segments : List String} {name : String} (hNe : segments ≠ [])
    (hSegments : ∀ s ∈ segments, Passes s) (hName : isDeclarable name = true) :
    ∃ tree, UseForm (pathPieces segments ++ [.word "as", .word name]) (.tree tree) := by
  induction segments with
  | nil => exact absurd rfl hNe
  | cons first rest ih =>
    obtain ⟨hFirst, hRest⟩ := List.forall_mem_cons.mp hSegments
    cases rest with
    | nil => exact ⟨_, .rename hFirst.1 hFirst.2 hName⟩
    | cons next rest =>
      obtain ⟨tree, hTree⟩ := ih (List.cons_ne_nil next rest) hRest
      exact ⟨_, .path hFirst.1 hFirst.2 hTree⟩

theorem phrased_use {tail : Tail} {text : String} {ls : List Lexeme} {ps : List Piece} {tree : UseTree}
    (h : Writes tail text.toList ls) (hForm : UseForm ps (.tree tree))
    (hLexemes : ls = lexemesOf (Piece.word "use" :: (ps ++ [Piece.mark ";"]))) : Phrased ItemsForm [code text] :=
  ⟨_, _, Lined.code h hLexemes, (ItemForm.use .inherited hForm).alone⟩

theorem phrased_packageUse {params : Parameters} {importPath name : String} (hName : isDeclarable name = true)
    (hNe : params.packageSegments importPath ≠ []) (hSegments : ∀ s ∈ params.packageSegments importPath, Passes s) :
    Phrased ItemsForm [code (params.packageUse importPath name)] := by
  have hPath := (Writes.ofFixed "use " [.word "use"] rfl).next rfl
    (writes_path hNe fun s hMem => (hSegments s hMem).isSegment)
  unfold Parameters.packageUse
  dsimp only
  split
  · rename_i hLast
    obtain ⟨tree, hTree⟩ := useForm_path hSegments hLast hName
    exact phrased_use (hPath.fixed ";" [.mark ";"] rfl rfl) hTree (by simp [lexemesOf_append])
  · obtain ⟨tree, hTree⟩ := useForm_rename hNe hSegments hName
    have hText := ((hPath.fixed " as " [.word "as"] rfl rfl).next rfl
        (Writes.word (isWord_of_isDeclarable hName))).fixed
      ";" [.mark ";"] rfl rfl
    exact phrased_use hText hTree (by simp [lexemesOf_append])

/-- Whether the packages of a file can be introduced under their local names. -/
def PackagesNamed (params : Parameters) (names : LocalNames) : Prop :=
  ∀ entry ∈ names.toList, isDeclarable entry.2 = true ∧ params.packageSegments entry.1 ≠ [] ∧
    ∀ s ∈ params.packageSegments entry.1, Passes s

theorem phrased_packageUses {params : Parameters} {names : LocalNames} (h : PackagesNamed params names) :
    Phrased ItemsForm (params.packageUses names) := by
  rw [Parameters.packageUses, List.map_eq_flatMap]
  refine .flatMap .nil .append fun entry hEntry => ?_
  obtain ⟨hName, hNe, hSegments⟩ := h entry hEntry
  exact phrased_packageUse hName hNe hSegments

/-! ## Files -/

/-- The comment on a file, and the empty line behind it. -/
theorem phrased_innerDocs {texts : List String} (h : ∀ text ∈ texts, '\n' ∉ text.toList ∧ '\r' ∉ text.toList) :
    Phrased RemarksForm (texts.map .innerDoc) := by
  induction texts with
  | nil => exact ⟨[], [], Lined.nil, .nil⟩
  | cons text rest ih =>
    obtain ⟨hNewline, hReturn⟩ := h text List.mem_cons_self
    obtain ⟨ps, attributes, hLines, hForm⟩ := ih fun other hOther => h other (List.mem_cons_of_mem _ hOther)
    have hLine := isLine_remark true hNewline hReturn
    exact ⟨.remark (remark true text) :: ps, _, LinesRead.cons (.innerDoc hLine) hLines, .cons rfl hLine hForm⟩

structure HeaderPlain (file : FileNode) : Prop where
  newline : '\n' ∉ file.decl.name.toList
  carriage : '\r' ∉ file.decl.name.toList
  comment : Plain (file.comment? SourcePath.package)

theorem exists_headerTexts {file : FileNode} (h : HeaderPlain file) : ∃ texts : List String, texts ≠ [] ∧
    header file = texts.map .innerDoc ++ [.blank] ∧ ∀ text ∈ texts, '\n' ∉ text.toList ∧ '\r' ∉ text.toList := by
  have hSource : ∀ text ∈ [banner, if file.decl.deprecated then file.decl.name ++ " is a deprecated file."
      else "source: " ++ file.decl.name], '\n' ∉ text.toList ∧ '\r' ∉ text.toList := by
    refine List.forall_mem_cons.mpr ⟨by decide, List.forall_mem_singleton.mpr ?_⟩
    split <;> simp [h.newline, h.carriage]
  have hPlain := h.comment
  unfold header
  cases hFound : file.comment? SourcePath.package with
  | none => exact ⟨_, List.cons_ne_nil _ _, by simp, hSource⟩
  | some comment =>
    rw [hFound] at hPlain
    have hComment : ∀ text ∈ "" :: commentLines comment, '\n' ∉ text.toList ∧ '\r' ∉ text.toList :=
      List.forall_mem_cons.mpr ⟨by decide, fun text hText =>
        ⟨newline_not_mem_commentLines hText, hPlain comment rfl text hText⟩⟩
    exact ⟨_, List.append_ne_nil_of_left_ne_nil (List.cons_ne_nil _ _) _, by simp,
      List.forall_mem_append.mpr ⟨hSource, hComment⟩⟩

theorem phrased_header {file : FileNode} (h : HeaderPlain file) :
    ∃ ps first rest, Lined (header file) ps ∧ RemarksForm ps (first :: rest) := by
  obtain ⟨texts, hNe, hTexts, hEach⟩ := exists_headerTexts h
  cases texts with
  | nil => exact absurd rfl hNe
  | cons text texts =>
    obtain ⟨⟨hNewline, hReturn⟩, hRest⟩ := List.forall_mem_cons.mp hEach
    obtain ⟨ps, attributes, hLines, hForm⟩ := phrased_innerDocs hRest
    have hLine := isLine_remark true hNewline hReturn
    have hFirst : Lined (Line.innerDoc text :: texts.map .innerDoc) (.remark (remark true text) :: ps) :=
      LinesRead.cons (.innerDoc hLine) hLines
    have hAll := hFirst.append Lined.blank
    rw [List.append_nil, ← List.map_cons, ← hTexts] at hAll
    exact ⟨_, _, attributes, hAll, .cons rfl hLine hForm⟩

/-- A header and items behind it are formatted. -/
theorem format_of_items {file : FileNode} {lines : List Line} (hHeader : HeaderPlain file)
    (h : Phrased ItemsForm lines) (name : String) : ∃ text, format name (render (header file ++ lines)) = .ok text := by
  obtain ⟨ps, first, rest, hLead, hRemarks⟩ := phrased_header hHeader
  obtain ⟨qs, items, hLines, hItems⟩ := h
  refine format_of_reads (.mk hRemarks hItems) (List.cons_ne_nil first rest) (reads_render (hLead.append hLines)) ?_
  rw [header, render, List.append_assoc, List.append_assoc, List.cons_append, List.map_cons, String.join_cons,
    String.toList_append]
  rfl

end ProtoBind.Emit
