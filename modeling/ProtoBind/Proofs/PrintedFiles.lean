import ProtoBind.Proofs.FileGrammar
import ProtoBind.Proofs.PrintedItems
import ProtoBind.Proofs.SortedImports
import ProtoBind.Source.Format

/-!
# Printed files

A box with a break that is always taken is too wide for any line, so it is divided. The items of a file
stand in such boxes, and a file that is formatted is a file of the grammar again.
-/

set_option autoImplicit false

namespace ProtoBind.Layout

/-! ## Widths -/

theorem widthAll_append (front back : List Doc) : widthAll (front ++ back) = widthAll front + widthAll back := by
  induction front with
  | nil => simp [widthAll]
  | cons doc front ih => rw [List.cons_append, widthAll, widthAll, ih, Nat.add_assoc]

mutual

theorem width_measure (doc : Doc) (rest : Measured) : (doc.measure rest).width = doc.width + rest.width := by
  cases doc with
  | text content => rw [Doc.measure, Doc.width]
  | brk place => rw [Doc.measure, Doc.width]
  | box breaking offset body =>
    rw [Doc.measure, Doc.width]
    exact congrArg (· + rest.width) (width_measureAll body rest.reach)
  | strut => rw [Doc.measure, Doc.width]

theorem width_measureAll (docs : List Doc) (follow : Nat) : (measureAll docs follow).width = widthAll docs := by
  match docs with
  | [] => rw [measureAll, widthAll]
  | doc :: rest => rw [measureAll, widthAll, width_measure doc, width_measureAll rest]

end

theorem shiftLast_append (offset : Int) (front : Docs) (place : Break) :
    shiftLast offset (front ++ [.brk place]) = front ++ [.brk { place with offset := place.offset + offset }] := by
  induction front with
  | nil => rfl
  | cons doc front ih =>
    obtain ⟨next, rest, hRest⟩ := List.exists_cons_of_ne_nil (List.append_ne_nil_of_right_ne_nil front
      (List.cons_ne_nil (Doc.brk place) []))
    rw [List.cons_append, List.cons_append, hRest, shiftLast, ← hRest, ih]
    simp

theorem dropIdle_append (front : Docs) {place : Break} (h : place.needsMore = false) :
    dropIdle (front ++ [.brk place]) = front ++ [.brk place] := by
  induction front with
  | nil => simp [dropIdle, h]
  | cons doc front ih =>
    obtain ⟨next, rest, hRest⟩ := List.exists_cons_of_ne_nil (List.append_ne_nil_of_right_ne_nil front
      (List.cons_ne_nil (Doc.brk place) []))
    rw [List.cons_append, hRest, dropIdle, ← hRest, ih]
    simp

end ProtoBind.Layout

namespace ProtoBind.Source

open Layout Text

/-! ## Divided boxes -/

/-- Whether the layout of documents of a divided box at the margin adds such lexemes. -/
def Shows (docs : Docs) (kind : List Lexeme → Prop) : Prop :=
  ∀ ⦃follow : Nat⦄ ⦃sheet : Sheet⦄ ⦃ls : List Lexeme⦄, sheet.space ≤ margin → Holds sheet.page .any ls →
    (renderAll (some .consistent) 0 (measureAll docs follow).cells sheet).space ≤ margin
      ∧ ∃ ms, kind ms ∧ Holds (renderAll (some .consistent) 0 (measureAll docs follow).cells sheet).page .any (ls ++ ms)

section

variable {docs more body : Docs} {place : Break} {t : Tail} {kind other : List Lexeme → Prop}

theorem Shows.imp (h : Shows docs kind) (hKind : ∀ ls, kind ls → other ls) : Shows docs other := by
  intro follow sheet ls hSpace hHolds
  obtain ⟨hOut, ms, hMs, hHeld⟩ := @h follow _ _ hSpace hHolds
  exact ⟨hOut, ms, hKind ms hMs, hHeld⟩

theorem Shows.append (h : Shows docs kind) (hMore : Shows more other) : Shows (docs ++ more) (Followed kind other) := by
  intro follow sheet ls hSpace hHolds
  rw [measureAll_append, renderAll_append]
  obtain ⟨hMiddle, ms, hMs, hHeld⟩ := @h (measureAll more follow).reach _ _ hSpace hHolds
  obtain ⟨hOut, ns, hNs, hLast⟩ := @hMore follow _ _ hMiddle hHeld
  exact ⟨hOut, ms ++ ns, ⟨ms, ns, hMs, hNs, rfl⟩, by rwa [← List.append_assoc]⟩

theorem shows_nil : Shows [] (· = []) := by
  intro follow sheet ls hSpace hHolds
  rw [measureAll, renderAll]
  exact ⟨hSpace, [], rfl, by rwa [List.append_nil]⟩

structure AtMargin (place : Break) : Prop where
  taken : place.never = false
  offset : place.offset = 0
  behind : place.behind = ""

theorem atMargin_hard : AtMargin { blanks := infinite } := ⟨rfl, rfl, rfl⟩

theorem atMargin_space : AtMargin { blanks := 1 } := ⟨rfl, rfl, rfl⟩

theorem space_of_line (hPlace : AtMargin place) (docs : Docs) (follow : Nat) (sheet : Sheet) :
    (renderAll (some .consistent) 0 (measureAll (docs ++ [.brk place]) follow).cells sheet).space ≤ margin := by
  rw [measureAll_append, renderAll_append]
  simp [measureAll, Doc.measure, renderAll, Cell.render, staysWhole, Sheet.newline, hPlace.taken, hPlace.offset,
    hPlace.behind]
  decide

theorem shows_line (hPlace : AtMargin place) (h : Prints (some .consistent) (docs ++ [.brk place]) .any .any kind) :
    Shows (docs ++ [.brk place]) kind := by
  intro follow sheet ls hSpace hHolds
  exact ⟨space_of_line hPlace docs follow sheet, h hHolds (chooses_docs _ _ _ _ _)⟩

theorem shows_hard (h : Prints (some .consistent) (docs ++ hard) .any .any kind) : Shows (docs ++ hard) kind :=
  shows_line ⟨rfl, rfl, rfl⟩ h

theorem divided_of_wide {frame : Frame} {breaking : Breaking} {offset : Int} {follow : Nat} {sheet : Sheet}
    (hWide : infinite ≤ widthAll body) (hSpace : sheet.space ≤ margin) :
    renderAll frame 0 (measureAll [.box breaking offset body] follow).cells sheet
      = renderAll (some breaking) (0 + offset) (measureAll body follow).cells sheet := by
  have hDivided : sheet.space < (((measureAll body follow).width + follow : Nat) : Int) := by
    have hMargin : margin < (infinite : Int) := by decide
    rw [width_measureAll]
    omega
  simp only [measureAll, Doc.measure, renderAll, Cell.render]
  rw [if_pos hDivided]

/-- A box that is too wide for a line, and the rest of its last line. -/
theorem shows_wide {breaking : Breaking} {offset : Int} (hWide : infinite ≤ widthAll body)
    (hBody : Prints (some breaking) body .any t kind) (hPlace : AtMargin place)
    (h : Prints (some .consistent) (docs ++ [.brk place]) t .any other) :
    Shows ([.box breaking offset body] ++ (docs ++ [.brk place])) (Followed kind other) := by
  intro follow sheet ls hSpace hHolds
  refine ⟨?_, ?_⟩
  · rw [← List.append_assoc]
    exact space_of_line hPlace _ follow sheet
  · rw [measureAll_append, renderAll_append, divided_of_wide hWide hSpace]
    obtain ⟨ms, hMs, hHeld⟩ := hBody hHolds (chooses_docs body (some breaking) (0 + offset) _ sheet)
    obtain ⟨ns, hNs, hLast⟩ := h hHeld (chooses_docs _ (some .consistent) 0 follow _)
    exact ⟨ms ++ ns, ⟨ms, ns, hMs, hNs, rfl⟩, by rwa [← List.append_assoc]⟩

/-- Whether documents are none or end in a break that is always taken. -/
def Lines (docs : Docs) : Prop := docs = [] ∨ ∃ front, docs = front ++ hard

theorem lines_append (h : Lines docs) (hMore : Lines more) : Lines (docs ++ more) := by
  rcases hMore with rfl | ⟨front, rfl⟩
  · rwa [List.append_nil]
  · exact .inr ⟨docs ++ front, (List.append_assoc ..).symm⟩

theorem lines_flatMap {α : Type} {doc : α → Docs} (elements : List α) (h : ∀ a ∈ elements, Lines (doc a)) :
    Lines (elements.flatMap doc) := by
  induction elements with
  | nil => exact .inl rfl
  | cons a rest ih =>
    rw [List.flatMap_cons]
    exact lines_append (h a List.mem_cons_self) (ih fun b hB => h b (List.mem_cons_of_mem _ hB))

theorem prints_nothing (h : Prints (some .consistent) [] .any .any kind)
    (frame : Frame) : Prints frame [] .any .any kind := by
  intro page out ls hHolds hLays
  cases hLays
  exact h hHolds .nil

theorem prints_closing : Prints (some .consistent) (word "\x7d" ++ hard) .any .any (· = [.closing .brace]) :=
  ((prints_right _).behindAny).silent (prints_hard _ .any)

/-- A head with lines between braces behind it. -/
theorem shows_bodyDoc {head inner : Docs} (hHead : PrintsAs head .number kind)
    (hInner : Prints (some .consistent) inner .any .any other) (hLines : Lines inner) :
    Shows (bodyDoc head inner) (Followed kind (Braced other)) := by
  have hBrace : ∀ frame, Prints frame (word " \x7b") .number .any (· = [.opening .brace]) := fun frame =>
    prints_fixed frame .number " \x7b" [.opening .brace] rfl rfl
  have hAll : ∀ ls, Followed (Followed (Followed kind (· = [.opening .brace])) other) (· = [.closing .brace]) ls →
      Followed kind (Braced other) ls := by
    rintro _ ⟨_, _, ⟨_, ms, ⟨ls, _, hLs, rfl, rfl⟩, hMs, rfl⟩, rfl, rfl⟩
    exact ⟨ls, _, hLs, ⟨ms, hMs, rfl⟩, by simp⟩
  have hBody : Prints (some .consistent) (head ++ word " \x7b" ++ dedent (hardIfMore ++ inner)) .any .any
      (Followed (Followed kind (· = [.opening .brace])) other) :=
    (((hHead.append hBrace).prints _)).append (Prints.behindSilent (prints_idleHard _) hInner).dedent
  rcases hLines with rfl | ⟨front, rfl⟩
  · have hWhole : PrintsAs (head ++ word " \x7b" ++ dedent (hardIfMore ++ [])) .any
        (Followed (Followed kind (· = [.opening .brace])) other) := by
      refine (hHead.append hBrace).append fun frame => ?_
      exact (Prints.behindSilent (prints_idleHard _) (prints_nothing hInner frame)).dedent
    have hPrints := ((hWhole.boxed .consistent step).prints (some .consistent)).append prints_closing
    rw [bodyDoc, List.append_assoc (indented _)]
    rw [← List.append_assoc] at hPrints ⊢
    exact (shows_hard hPrints).imp hAll
  · have hDocs : dedent (hardIfMore ++ (front ++ hard))
        = hardIfMore ++ front ++ [.brk { blanks := infinite, offset := -(step : Int) }] := by
      rw [← List.append_assoc, dedent, hard, shiftLast_append]
      rfl
    have hNeBreak : ∀ place, head ++ word " \x7b" ++ dedent (hardIfMore ++ (front ++ hard)) ≠ [.brk place] :=
      ((hHead.starts.append _).append _).ne_break
    have hKept : dropIdle (head ++ word " \x7b" ++ dedent (hardIfMore ++ (front ++ hard)))
        = head ++ word " \x7b" ++ dedent (hardIfMore ++ (front ++ hard)) := by
      rw [hDocs, ← List.append_assoc]
      exact dropIdle_append _ rfl
    have hWide : infinite ≤ widthAll (head ++ word " \x7b" ++ dedent (hardIfMore ++ (front ++ hard))) := by
      rw [hDocs, ← List.append_assoc, widthAll_append]
      simp [widthAll, Doc.width]
    rw [bodyDoc, List.append_assoc (indented _), indented, box_of_ne_break _ _ hNeBreak, hKept]
    exact (shows_wide hWide hBody atMargin_hard prints_closing).imp hAll

end

/-! ## Items -/

def SaysItem : List Lexeme → Prop := Says fun ps => ∃ item, ItemForm ps item

theorem ends_attributes {ps : List Piece} {attributes : List Attribute} (h : AttributesForm ps attributes) :
    attributesDoc attributes = [] ∨ ∃ front place, attributesDoc attributes = front ++ [.brk place] ∧
        AtMargin place := by
  have hCons : ∀ {doc front rest : Docs} {place : Break}, AtMargin place → doc = front ++ [.brk place] →
      (rest = [] ∨ ∃ front place, rest = front ++ [.brk place] ∧ AtMargin place) →
      doc ++ rest = [] ∨ ∃ front place, doc ++ rest = front ++ [.brk place] ∧ AtMargin place := by
    rintro doc front rest place hPlace rfl (rfl | ⟨more, last, rfl, hLast⟩)
    · exact .inr ⟨front, place, List.append_nil _, hPlace⟩
    · exact .inr ⟨front ++ [.brk place] ++ more, last, (List.append_assoc ..).symm, hLast⟩
  induction h with
  | nil => exact .inl rfl
  | @remark ps comment attributes hOuter hLine _ ih =>
    have hDoc := attribute_doc_remark hLine
    rw [hOuter] at hDoc
    exact hCons atMargin_hard hDoc ih
  | list _ _ _ _ ih => exact hCons atMargin_space rfl ih

theorem shows_attributes {ps : List Piece} {attributes : List Attribute} (h : AttributesForm ps attributes) :
    Shows (attributesDoc attributes) SaysAttributes := by
  have hPrints := prints_attributes h
  rcases ends_attributes h with hNone | ⟨front, place, hDocs, hPlace⟩
  · rw [hNone] at hPrints ⊢
    intro follow sheet ls hSpace hHolds
    rw [measureAll, renderAll]
    exact ⟨hSpace, hPrints hHolds .nil⟩
  · rw [hDocs] at hPrints ⊢
    exact shows_line hPlace hPrints

theorem lines_hard (docs : Docs) : Lines (docs ++ hard) := .inr ⟨docs, rfl⟩

theorem shows_use {ps qs : List Piece} {visibility : Visibility} {tree : UseTree}
    (hVisibility : VisibilityForm ps visibility) (h : UseForm qs (.tree tree)) :
    Shows (Item.use { visibility, tree }).doc SaysItem := by
  have hTree : PrintsAs tree.doc .word SaysTree := printed_of_useForm h
  have hUse := prints_fixed (some .consistent) .any "use " [.word "use"] rfl rfl
  have hEnd := (prints_fixed (some .consistent) .word ";" [.mark ";"] rfl rfl).silent (prints_hard _ .any)
  have hDoc : (Item.use { visibility, tree }).doc
      = visibility.doc ++ word "use " ++ tree.doc ++ word ";" ++ hard := by
    simp [Item.doc, UseItem.doc, attributesDoc, word]
  rw [hDoc]
  refine shows_hard ?_
  rw [List.append_assoc _ (word ";")]
  refine ((((prints_visibility hVisibility _).append hUse).append (hTree.prints _)).append hEnd).imp ?_
  rintro _ ⟨_, _, ⟨_, _, ⟨_, _, ⟨ps, ⟨visibility, hVisibility⟩, rfl⟩, rfl, rfl⟩, ⟨qs, ⟨tree, hForm⟩, rfl⟩, rfl⟩, rfl,
      rfl⟩
  exact ⟨_, ⟨_, .use hVisibility hForm⟩, by simp [lexemesOf_append]⟩

/-- The head of a public item. -/
theorem printsAs_publicHead (keyword : String) (ls : List Lexeme) {name : String} (hName : isDeclarable name = true)
    (hScan : scan keyword.length keyword.toList = some ls) (hAny : tailOf keyword.toList = .any) :
    PrintsAs (Visibility.everyone.doc ++ word (keyword ++ name)) .word
      (· = .word "pub" :: (ls ++ [.word name])) := by
  have hKeyword := Writes.ofFixed keyword ls hScan
  have hText := hKeyword.next hAny (Writes.word (isWord_of_isDeclarable hName))
  have hNe := @append_ne_empty keyword _ (ne_empty_of_isWord (isWord_of_isDeclarable hName))
  refine (((printsAs_fixed "pub " [.word "pub"] rfl (by decide)).append
    (printsAs_word hText (by decide) hNe).prints)).imp ?_
  rintro _ ⟨_, _, rfl, rfl, rfl⟩
  rfl

theorem shows_struct {ps qs : List Piece} {attributes : List Attribute} {name : String} {fields : List FieldItem}
    (hAttributes : AttributesForm ps attributes) (hName : isDeclarable name = true) (h : FieldsForm qs fields) :
    Shows (Item.struct attributes .everyone name [] (.named fields)).doc SaysItem := by
  have hHead := printsAs_publicHead "struct " [.word "struct"] hName rfl rfl
  have hLines : Lines (fields.flatMap fun field => field.doc ++ word "," ++ hard) :=
    lines_flatMap fields fun field _ => lines_hard _
  have hDoc : (Item.struct attributes .everyone name [] (.named fields)).doc = attributesDoc attributes
      ++ bodyDoc (Visibility.everyone.doc ++ word ("struct " ++ name))
        (fields.flatMap fun field => field.doc ++ word "," ++ hard) := by
    simp [Item.doc, bodyDoc, namedFieldsDoc, parametersDoc]
  rw [hDoc]
  refine ((shows_attributes hAttributes).append (shows_bodyDoc hHead.number (prints_fields h) hLines)).imp ?_
  rintro _ ⟨_, _, ⟨ps, ⟨attributes, hAttributes⟩, rfl⟩, ⟨_, _, rfl, ⟨_, ⟨qs, ⟨fields, hFields⟩, rfl⟩, rfl⟩, rfl⟩, rfl⟩
  exact ⟨_, ⟨_, .struct hAttributes hName hFields⟩, by simp [lexemesOf_append]⟩

theorem shows_enum {ps qs : List Piece} {attributes : List Attribute} {name : String} {variants : List Variant}
    (hAttributes : AttributesForm ps attributes) (hName : isDeclarable name = true) (h : VariantsForm qs variants) :
    Shows (Item.enum attributes .everyone name [] variants).doc SaysItem := by
  have hHead := printsAs_publicHead "enum " [.word "enum"] hName rfl rfl
  have hLines : Lines (variants.flatMap fun variant => variant.doc ++ word "," ++ hard) :=
    lines_flatMap variants fun variant _ => lines_hard _
  have hDoc : (Item.enum attributes .everyone name [] variants).doc = attributesDoc attributes
      ++ bodyDoc (Visibility.everyone.doc ++ word ("enum " ++ name))
        (variants.flatMap fun variant => variant.doc ++ word "," ++ hard) := by
    simp [Item.doc, bodyDoc, parametersDoc]
  rw [hDoc]
  refine ((shows_attributes hAttributes).append (shows_bodyDoc hHead.number (prints_variants h) hLines)).imp ?_
  rintro _ ⟨_, _, ⟨ps, ⟨attributes, hAttributes⟩, rfl⟩, ⟨_, _, rfl, ⟨_, ⟨qs, ⟨variants, hVariants⟩, rfl⟩, rfl⟩, rfl⟩,
      rfl⟩
  exact ⟨_, ⟨_, .enum hAttributes hName hVariants⟩, by simp [lexemesOf_append]⟩

theorem shows_newtype {ps qs : List Piece} {attributes : List Attribute} {name : String} {field : FieldItem}
    (hAttributes : AttributesForm ps attributes) (hName : isDeclarable name = true) (h : PlacesForm qs field) :
    Shows (Item.struct attributes .everyone name [] (.unnamed [field])).doc SaysItem := by
  have hHead := printsAs_publicHead "struct " [.word "struct"] hName rfl rfl
  have hDoc : (Item.struct attributes .everyone name [] (.unnamed [field])).doc = attributesDoc attributes
      ++ (indented (Visibility.everyone.doc ++ word ("struct " ++ name) ++ unnamedFieldsDoc [field] ++ word ";")
        ++ hard) := by
    simp [Item.doc, parametersDoc]
  have hLine := ((hHead.append (prints_places h)).append fun frame =>
    (prints_semicolon frame).behindAny).boxed .consistent step
  rw [hDoc]
  refine ((shows_attributes hAttributes).append (shows_hard
    ((hLine.prints _).silent (prints_hard _ .any)))).imp ?_
  rintro _ ⟨_, _, ⟨ps, ⟨attributes, hAttributes⟩, rfl⟩, ⟨_, _, ⟨_, _, rfl, ⟨_, ⟨qs, field, rfl, hField⟩, rfl⟩, rfl⟩,
    rfl, rfl⟩, rfl⟩
  exact ⟨_, ⟨_, .newtype hAttributes hName hField⟩, by simp [lexemesOf_append]⟩

theorem shows_constant {ps qs rs : List Piece} {attributes : List Attribute} {name : String} {type : Ty}
    {value : Expr} (hAttributes : AttributesForm ps attributes) (hName : isDeclarable name = true)
    (hType : TypeForm qs (.type type)) (h : ExprForm rs (.value value)) :
    Shows (Item.constant ⟨attributes, .everyone, "const ", name, type, some value⟩).doc SaysItem := by
  have hText := ((Writes.ofFixed "const " [.word "const"] rfl).next rfl
    (Writes.word (isWord_of_isDeclarable hName))).fixed ": " [.mark ":"] rfl rfl
  have hLead := (printsAs_fixed "pub " [.word "pub"] rfl (by decide)).append
    (printsAs_word hText (by decide) (append_ne_empty (by decide))).prints
  have hPrints : PrintsAs type.doc .word SaysType := printed_of_typeForm hType
  have hValue : PrintsAs (value.print false).alone .number SaysValue := printed_of_exprForm h false
  have hEqual : ∀ frame, Prints frame (word " = " ++ never) .word .any (· = [.mark "="]) := fun frame =>
    (prints_fixed frame .word " = " [.mark "="] rfl rfl).silent (prints_never frame .any)
  have hLine := ((((hLead.append hPrints.prints).append hEqual).append hValue.prints).append
    prints_semicolon).boxed .consistent 0
  have hDoc : (Item.constant ⟨attributes, .everyone, "const ", name, type, some value⟩).doc = attributesDoc attributes
      ++ (flush (word "pub " ++ word ("const " ++ name ++ ": ") ++ type.doc ++ (word " = " ++ never)
        ++ (value.print false).alone ++ word ";") ++ hard) := by
    simp [Item.doc, Constant.doc, Visibility.doc]
  rw [hDoc]
  refine ((shows_attributes hAttributes).append (shows_hard
    ((hLine.prints _).silent (prints_hard _ .any)))).imp ?_
  rintro _ ⟨_, _, ⟨ps, ⟨attributes, hAttributes⟩, rfl⟩, ⟨_, _, ⟨_, _, ⟨_, _, ⟨_, _, ⟨_, _, rfl, rfl, rfl⟩,
    ⟨qs, ⟨type, hType⟩, rfl⟩, rfl⟩, rfl, rfl⟩, ⟨rs, ⟨value, hValue⟩, rfl⟩, rfl⟩, rfl, rfl⟩, rfl⟩
  exact ⟨_, ⟨_, .constant hAttributes hName hType hValue⟩, by simp [lexemesOf_append]⟩

theorem lines_members {ps : List Piece} {members : List Member} (h : MembersForm ps members) :
    Lines (members.flatMap Member.doc) := by
  induction h with
  | nil => exact .inl rfl
  | cons _ _ ih => exact lines_append (lines_hard _) ih

theorem shows_impl {ps : List Piece} {name : String} {members : List Member} (hName : isDeclarable name = true)
    (h : MembersForm ps members) :
    Shows (Item.impl [] false [] none (.path (.ofName name)) members).doc SaysItem := by
  have hHead := (((printsAs_fixed "impl" [.word "impl"] rfl (by decide)).boxed .consistent step).silent
    fun frame => prints_blank frame (by decide)).append (printsAs_name (isWord_of_isDeclarable hName)).prints
  have hDoc : (Item.impl [] false [] none (.path (.ofName name)) members).doc
      = bodyDoc (filledOutdented (indented (word "impl") ++ blank ++ word name)) (members.flatMap Member.doc) := by
    simp [Item.doc, parametersDoc, attributesDoc, Ty.doc, path_ofName_doc]
  rw [hDoc]
  refine (shows_bodyDoc (hHead.number.boxed .inconsistent _) (prints_members h) (lines_members h)).imp ?_
  rintro _ ⟨_, _, ⟨_, _, rfl, rfl, rfl⟩, ⟨_, ⟨qs, ⟨members, hMembers⟩, rfl⟩, rfl⟩, rfl⟩
  exact ⟨_, ⟨_, .impl hName hMembers⟩, by simp⟩

theorem shows_trait {ps qs rs : List Piece} {attributes : List Attribute} {name : String} {bounds : List Bound}
    {members : List Member} (hAttributes : AttributesForm ps attributes) (hName : isDeclarable name = true)
    (hBounds : TypeForm qs (.bounds bounds)) (h : MembersForm rs members) :
    Shows (Item.trait attributes .everyone false name [] bounds members).doc SaysItem := by
  obtain ⟨first, rest, hBoundDocs, hJoined, -⟩ := printed_of_typeForm hBounds
  have hTrait := (printsAs_fixed "pub " [.word "pub"] rfl (by decide)).append fun frame =>
    prints_fixed frame .any "trait " [.word "trait"] rfl rfl
  have hHead := ((hTrait.append (printsAs_name (isWord_of_isDeclarable hName)).prints).append
    fun frame => prints_fixed frame .word ": " [.mark ":"] rfl rfl).append hJoined.prints
  have hDoc : (Item.trait attributes .everyone false name [] bounds members).doc = attributesDoc attributes
      ++ bodyDoc (word "pub " ++ word "trait " ++ word name ++ word ": " ++ joined " + " (first :: rest))
        (members.flatMap Member.doc) := by
    simp [Item.doc, parametersDoc, Visibility.doc, supertraitsDoc, hBoundDocs]
  rw [hDoc]
  refine ((shows_attributes hAttributes).append (shows_bodyDoc hHead (prints_members h) (lines_members h))).imp ?_
  rintro _ ⟨_, _, ⟨ps, ⟨attributes, hAttributes⟩, rfl⟩, ⟨_, _,
    ⟨_, _, ⟨_, _, ⟨_, _, ⟨_, _, rfl, rfl, rfl⟩, rfl, rfl⟩, rfl, rfl⟩,
    ⟨qs, ⟨bounds, hBounds⟩, rfl⟩, rfl⟩, ⟨_, ⟨rs, ⟨members, hMembers⟩, rfl⟩, rfl⟩, rfl⟩, rfl⟩
  exact ⟨_, ⟨_, .trait hAttributes hName hBounds hMembers⟩, by simp [lexemesOf_append]⟩

theorem shows_item {ps : List Piece} {item : Item} (h : ItemForm ps item) : Shows item.doc SaysItem := by
  cases h with
  | use hVisibility h => exact shows_use hVisibility h
  | struct hAttributes hName h => exact shows_struct hAttributes hName h
  | newtype hAttributes hName h => exact shows_newtype hAttributes hName h
  | constant hAttributes hName hType h => exact shows_constant hAttributes hName hType h
  | enum hAttributes hName h => exact shows_enum hAttributes hName h
  | impl hName h => exact shows_impl hName h
  | trait hAttributes hName hBounds h => exact shows_trait hAttributes hName hBounds h
  | function h =>
    refine (shows_hard (prints_function h)).imp fun ls hLs => ?_
    exact hLs.imp fun ps ⟨_, hForm⟩ => ⟨_, .function hForm⟩

/-! ## Files -/

def SaysItems : List Lexeme → Prop := Says fun ps => ∃ items, ItemsForm ps items

theorem shows_items {items : List Item} (h : ∀ item ∈ items, ∃ ps, ItemForm ps item) :
    Shows (Item.docs items) SaysItems := by
  induction items with
  | nil =>
    refine shows_nil.imp ?_
    rintro _ rfl
    exact ⟨[], ⟨[], .nil⟩, rfl⟩
  | cons item items ih =>
    obtain ⟨⟨ps, hItem⟩, hItems⟩ := List.forall_mem_cons.mp h
    rw [Item.docs]
    refine ((shows_item hItem).append (ih hItems)).imp ?_
    rintro _ ⟨_, _, ⟨ps, ⟨item, hItem⟩, rfl⟩, ⟨qs, ⟨items, hItems⟩, rfl⟩, rfl⟩
    exact ⟨_, ⟨_, .cons hItem hItems⟩, by simp [lexemesOf_append]⟩

def SaysRemarks : List Lexeme → Prop := Says fun ps => ∃ attributes, RemarksForm ps attributes

theorem shows_remarks {ps : List Piece} {attributes : List Attribute} (h : RemarksForm ps attributes) :
    Shows (attributes.flatMap (Attribute.doc true)) SaysRemarks := by
  induction h with
  | nil =>
    refine shows_nil.imp ?_
    rintro _ rfl
    exact ⟨[], ⟨[], .nil⟩, rfl⟩
  | @cons ps comment attributes hInner hLine _ ih =>
    have hDoc := attribute_doc_remark hLine
    have hPrints := prints_remarkAttribute hLine
    rw [hInner] at hDoc hPrints
    rw [hDoc] at hPrints
    have hFirst := shows_hard hPrints
    rw [← hDoc] at hFirst
    refine (hFirst.append ih).imp ?_
    rintro _ ⟨_, _, ⟨text, hText, rfl⟩, ⟨qs, ⟨more, hMore⟩, rfl⟩, rfl⟩
    exact ⟨_, ⟨_, .cons rfl hText hMore⟩, rfl⟩

theorem items_of_form {ps : List Piece} {items : List Item} (h : ItemsForm ps items) :
    ∀ item ∈ items, ∃ qs, ItemForm qs item := by
  induction h with
  | nil => exact fun item hItem => absurd hItem List.not_mem_nil
  | cons h _ ih => exact List.forall_mem_cons.mpr ⟨⟨_, h⟩, ih⟩

theorem reads_of_holds {page : Page} {t : Tail} {ls : List Lexeme} (h : Holds page t ls) : Reads page.text ls := by
  obtain ⟨last, hLine, hText, -⟩ := h
  have hAllows : last.allows [] = true := by
    cases last with
    | line => exact absurd rfl hLine
    | _ => rfl
  have hAll := hText hAllows .nil
  rwa [List.append_nil, List.append_nil] at hAll

theorem lines_behind (front : Docs) {more : Docs} (h : ∃ rest, more = rest ++ hard) : Lines (front ++ more) := by
  obtain ⟨rest, rfl⟩ := h
  exact .inr ⟨front ++ rest, (List.append_assoc ..).symm⟩

theorem lines_item {ps : List Piece} {item : Item} (h : ItemForm ps item) : Lines item.doc := by
  cases h with
  | use _ _ => exact lines_hard _
  | struct _ _ _ => exact lines_behind _ ⟨_, rfl⟩
  | newtype _ _ _ => exact lines_behind _ ⟨_, rfl⟩
  | constant _ _ _ _ => exact lines_hard _
  | enum _ _ _ => exact lines_behind _ ⟨_, rfl⟩
  | impl _ _ => exact lines_behind _ ⟨_, rfl⟩
  | trait _ _ _ _ => exact lines_behind _ ⟨_, rfl⟩
  | function _ => exact lines_hard _

theorem lines_items {items : List Item} (h : ∀ item ∈ items, ∃ ps, ItemForm ps item) : Lines (Item.docs items) := by
  induction items with
  | nil => exact .inl rfl
  | cons item items ih =>
    obtain ⟨⟨ps, hItem⟩, hItems⟩ := List.forall_mem_cons.mp h
    rw [Item.docs]
    exact lines_append (lines_item hItem) (ih hItems)

theorem remarks_begin {ps : List Piece} {attributes : List Attribute} (h : RemarksForm ps attributes)
    (hNe : attributes ≠ []) :
    (∃ rest, attributes.flatMap (Attribute.doc true) = .text "//!" :: rest)
      ∧ Lines (attributes.flatMap (Attribute.doc true)) := by
  have hDoc : ∀ {comment : DocComment}, comment.inner = true → comment.isLine = true →
      ∃ rest, comment.attribute.doc true = .text "//!" :: rest ++ hard := by
    intro comment hInner hLine
    have hDoc := attribute_doc_remark hLine
    rw [hInner] at hDoc
    refine ⟨word (String.ofList (dropEndWhile (· == ' ') comment.text)), ?_⟩
    rw [hDoc, DocComment.marker, hInner]
    rfl
  have hLines : ∀ {ps : List Piece} {attributes : List Attribute}, RemarksForm ps attributes →
      Lines (attributes.flatMap (Attribute.doc true)) := by
    intro ps attributes h
    induction h with
    | nil => exact .inl rfl
    | cons hInner hLine _ ih =>
      obtain ⟨rest, hDoc⟩ := hDoc hInner hLine
      exact lines_append (.inr ⟨_, hDoc⟩) ih
  refine ⟨?_, hLines h⟩
  cases h with
  | nil => exact absurd rfl hNe
  | cons hInner hLine _ =>
    obtain ⟨rest, hDoc⟩ := hDoc hInner hLine
    exact ⟨_, by rw [List.flatMap_cons]; exact congrArg (· ++ _) hDoc⟩

/-- A file that begins with a comment is printed as one. -/
theorem reads_of_render {ps : List Piece} {file : SourceFile} (hShebang : file.shebang = none)
    (hAttributes : RemarksForm ps file.attributes) (hNe : file.attributes ≠ [])
    (hItems : ∀ item ∈ file.items, ∃ ps, ItemForm ps item) :
    ∃ qs found, FileForm qs found ∧ Reads file.render.toList (lexemesOf qs) ∧ file.render.toList.head? = some '/' := by
  obtain ⟨⟨first, hFirst⟩, hLines⟩ := remarks_begin hAttributes hNe
  have hDoc : file.doc = flush (file.attributes.flatMap (Attribute.doc true) ++ Item.docs file.items) := by
    rw [SourceFile.doc, hShebang]
    rfl
  have hShows := (shows_remarks hAttributes).append (shows_items hItems)
  have hAll := lines_append hLines (lines_items hItems)
  generalize hBody : file.attributes.flatMap (Attribute.doc true) ++ Item.docs file.items = body at hDoc hShows hAll
  obtain ⟨rest, hRest⟩ : ∃ rest, body = .text "//!" :: rest :=
      ⟨first ++ Item.docs file.items, by rw [← hBody, hFirst]; rfl⟩
  obtain ⟨front, hFront⟩ : ∃ front, body = front ++ hard := by
    rcases hAll with rfl | hAll
    · cases hRest
    · exact hAll
  have hKept : dropIdle body = body := by
    rw [hFront]
    exact dropIdle_append _ rfl
  -- A break that is always taken ends the items, so they are wider than any line.
  have hWide : infinite ≤ widthAll body := by
    rw [hFront, widthAll_append]
    simp [hard, widthAll, Doc.width]
  have hNeBreak : ∀ place, body ≠ [.brk place] := by
    rw [hRest]
    rintro place hNeBreak
    cases hNeBreak
  have hRender : file.render = (renderAll (some .consistent) 0 (measureAll body 0).cells {}).toText := by
    rw [SourceFile.render, hDoc, flush, box_of_ne_break _ _ hNeBreak, hKept, render,
      divided_of_wide hWide (by decide)]
    rfl
  have hEmpty : Holds (Sheet.page {}) .any [] := ⟨.any, by decide, Writes.empty, .inl rfl⟩
  obtain ⟨-, ms, ⟨_, _, ⟨ps, ⟨attributes, hRemarks⟩, rfl⟩, ⟨qs, ⟨items, hForms⟩, rfl⟩, rfl⟩, hHeld⟩ :=
    @hShows 0 {} _ (by decide) hEmpty
  refine ⟨ps ++ qs, _, .mk hRemarks hForms, ?_, ?_⟩
  · rw [lexemesOf_append, hRender]
    exact reads_of_holds hHeld
  · have hLays := chooses_docs body (some .consistent) 0 0 {}
    rw [hRender]
    rw [hRest] at hLays ⊢
    cases hLays with
    | text hLays =>
      obtain ⟨back, hText⟩ := text_of_lays hLays
      change (Sheet.page _).text.head? = some '/'
      rw [← hText]
      rfl

/-! ## Formatted files -/

/-- A text that consists of the lexemes of a file that begins with a comment is formatted. -/
theorem format_of_reads {name text : String} {ps : List Piece} {file : SourceFile} (h : FileForm ps file)
    (hNe : file.attributes ≠ []) (hReads : Reads text.toList (lexemesOf ps)) (hSlash : text.toList.head? = some '/') :
    ∃ formatted, format name text = .ok formatted := by
  obtain ⟨found, hFound, hAttributes, hParse⟩ := parse_of_reads h hReads hSlash
  have hRemarks : ∃ qs, RemarksForm qs found.attributes := by
    cases hFound with
    | mk hRemarks _ => exact ⟨_, hRemarks⟩
  have hItems : ∀ item ∈ (emittedGrammar.sortImports found).items, ∃ ps, ItemForm ps item := by
    intro item hItem
    cases hFound with
    | mk _ hItems => exact items_of_form hItems item (Grammar.mem_sortImports hItem)
  have hShebang : (emittedGrammar.sortImports found).shebang = none := by
    cases hFound
    rfl
  obtain ⟨qs, hRemarks⟩ := hRemarks
  obtain ⟨rs, again, hAgain, hPrinted, hHead⟩ := @reads_of_render qs
      (emittedGrammar.sortImports found) hShebang hRemarks
    (by rwa [← hAttributes] at hNe) hItems
  obtain ⟨last, -, -, hLast⟩ := parse_of_reads hAgain hPrinted hHead
  exact ⟨SourceFile.render (emittedGrammar.sortImports found), format_of_parse hParse hLast⟩

end ProtoBind.Source
