import ProtoBind.Proofs.ItemGrammar
import ProtoBind.Proofs.PrintedExpressions
import ProtoBind.Source.Printer.Item

/-!
# Printed items

However items of the grammar are laid out in a divided box, they are items of the grammar again. Comments are
why the box has to be divided: they end only with their line.
-/

set_option autoImplicit false

namespace ProtoBind.Source

open Layout Text

/-! ## Comments -/

theorem writes_remarkLine {comment : DocComment} (hLine : comment.isLine = true) :
    Writes .any (comment.marker ++ comment.text ++ ['\n']) [.remark comment] :=
  (Writes.remark hLine).append (Writes.blank (.inr rfl)) (.inr ⟨by simp, rfl⟩)

theorem text_write_word {page : Page} {content : String} (hPending : page.pending = 0) :
    (page.mark content).text = page.text ++ content.toList ∧ (page.mark content).pending = 0 := by
  unfold Page.mark
  split
  · rename_i hNone
    simp [hNone, hPending]
  · simp [Page.write, hPending]

theorem lays_word {frame : Frame} {content : String} {page out : Page} (h : Lays frame (word content) page out) :
    out = page.mark content := by
  unfold word at h
  unfold Page.mark
  split at h
  · rename_i hNone
    cases h
    rw [if_pos hNone]
  · rename_i hNone
    cases h with
    | text h =>
      cases h
      rw [if_neg hNone]

theorem lays_hard {page out : Page} (h : Lays (some .consistent) hard page out) :
    ∃ indent, out = ⟨page.text ++ ['\n'], indent⟩ := by
  cases h with
  | pass hPlace _ => simp at hPlace
  | turn indent _ h =>
    cases h
    exact ⟨indent, rfl⟩
  | leave hPlace _ => cases hPlace

/-- A comment on a line of its own. -/
theorem prints_remark {comment : DocComment} (hLine : comment.isLine = true) :
    Prints (some .consistent) (word (String.ofList comment.marker) ++ word (String.ofList comment.text) ++ hard)
      .any .any (· = [.remark comment]) := by
  have hMarker : String.ofList comment.marker ≠ "" := by
    unfold DocComment.marker
    split <;> decide
  intro page out ls hHolds hLays
  obtain ⟨_, hWords, hEnd⟩ := lays_append.mp hLays
  obtain ⟨_, hFirst, hSecond⟩ := lays_append.mp hWords
  obtain rfl := lays_word hFirst
  obtain rfl := lays_word hSecond
  obtain ⟨indent, rfl⟩ := lays_hard hEnd
  obtain ⟨last, -, hText, hLast⟩ := hHolds.settled
  refine ⟨[.remark comment], rfl, .any, by simp, ?_, .inl rfl⟩
  have hWritten : page.mark (String.ofList comment.marker) = page.write (String.ofList comment.marker) :=
    if_neg hMarker
  have hPending : (page.mark (String.ofList comment.marker)).pending = 0 := by rw [hWritten]; rfl
  rw [(text_write_word hPending).1, hWritten, Page.write, List.append_assoc, List.append_assoc]
  refine hText.append ?_ (.inl (hLast.elim id id))
  have hAll := writes_remarkLine hLine
  simpa using hAll

theorem dropEndWhile_front (p : Char → Bool) (cs : List Char) : dropEndWhile p cs <+: cs := by
  have hSuffix := List.reverse_prefix.mpr (List.dropWhile_suffix p (l := cs.reverse))
  rwa [List.reverse_reverse] at hSuffix

theorem isLine_of_prefix {inner : Bool} {text front : List Char} (h : (DocComment.mk inner text).isLine = true)
    (hFront : front <+: text) : (DocComment.mk inner front).isLine = true := by
  simp only [DocComment.isLine, Bool.and_eq_true, Bool.not_eq_true', List.contains_eq_mem, decide_eq_false_iff_not,
    Bool.or_eq_true, bne_iff_ne] at h ⊢
  obtain ⟨⟨hNewline, hReturn⟩, hHead⟩ := h
  refine ⟨⟨fun hMem => hNewline (hFront.subset hMem), fun hMem => hReturn (hFront.subset hMem)⟩, hHead.imp_right ?_⟩
  intro hHead hFrontHead
  cases front with
  | nil => cases hFrontHead
  | cons c front =>
    obtain ⟨back, rfl⟩ := hFront
    exact hHead hFrontHead

def DocComment.attribute (comment : DocComment) : Attribute :=
  .value (.ofName "doc") (String.ofList ('\x22' :: (docLiteralBody comment.text ++ ['\x22'])))

theorem literalValue_remark (text : List Char) :
    literalValue? (String.ofList ('\x22' :: (docLiteralBody text ++ ['\x22']))) = some text := by
  rw [literalValue?, String.toList_ofList]
  change (Quoted.read .plain (docLiteralBody text ++ ['\x22'])).map Prod.fst = some text
  rw [read_docLiteralBody]
  rfl

theorem commentDoc?_line {line blockStart : String} {barredLine barredBlock text : List Char}
    (hNewline : text.contains '\n' = false) (hBarred : text.head?.any barredLine.contains = false) :
    commentDoc? line blockStart barredLine barredBlock text
      = some (word line ++ word (String.ofList (dropEndWhile (· == ' ') text)) ++ hard) := by
  rw [commentDoc?, hNewline, hBarred]
  rfl

theorem attribute_doc_remark {comment : DocComment} (hLine : comment.isLine = true) :
    comment.attribute.doc comment.inner = word (String.ofList comment.marker)
      ++ word (String.ofList (dropEndWhile (· == ' ') comment.text)) ++ hard := by
  obtain ⟨inner, text⟩ := comment
  have hText : (DocComment.mk inner text).attribute.textOf? "doc" = some text := by
    rw [DocComment.attribute, Attribute.textOf?]
    exact (if_pos rfl).trans (literalValue_remark text)
  simp only [DocComment.isLine, Bool.and_eq_true, Bool.not_eq_true', Bool.or_eq_true, bne_iff_ne] at hLine
  obtain ⟨⟨hNewline, -⟩, hHead⟩ := hLine
  rw [Attribute.doc, hText]
  dsimp only
  cases inner with
  | true =>
    have hBarred : text.head?.any [].contains = false := by cases text <;> rfl
    rw [if_pos rfl, commentDoc?_line hNewline hBarred]
    rfl
  | false =>
    have hBarred : text.head?.any ['/'].contains = false := by
      cases text with
      | nil => rfl
      | cons c cs =>
        have hSlash : c ≠ '/' := by simpa using hHead
        simp [hSlash]
    rw [if_neg Bool.false_ne_true, commentDoc?_line hNewline hBarred]
    rfl

/-- A comment as an attribute. -/
theorem prints_remarkAttribute {comment : DocComment} (hLine : comment.isLine = true) :
    Prints (some .consistent) (comment.attribute.doc comment.inner) .any .any
      fun ls => ∃ text, (DocComment.mk comment.inner text).isLine = true ∧ ls = [.remark ⟨comment.inner, text⟩] := by
  have hShort := isLine_of_prefix hLine (dropEndWhile_front (· == ' ') comment.text)
  rw [attribute_doc_remark hLine]
  refine (prints_remark hShort).imp ?_
  rintro _ rfl
  exact ⟨_, hShort, rfl⟩

/-! ## Attributes -/

def SaysEntries : List Lexeme → Prop := Says fun ps => ∀ p ∈ ps, IsEntry p

theorem saysEntries_cons (piece : Piece) {ls : List Lexeme} (hPiece : IsEntry piece) (h : SaysEntries ls) :
    SaysEntries (piece.lexemes ++ ls) := by
  obtain ⟨ps, hPs, rfl⟩ := h
  exact ⟨piece :: ps, List.forall_mem_cons.mpr ⟨hPiece, hPs⟩, rfl⟩

def entryTail (afterWord : Bool) : Tail := if afterWord then .number else .any

theorem prints_gap (frame : Frame) (afterWord : Bool) :
    Prints frame (attributeGap true afterWord) (entryTail afterWord) .any (· = []) := by
  cases afterWord with
  | true => exact prints_space frame .number
  | false => exact prints_nil frame .any

theorem goesBefore_entry (afterWord : Bool) {content : String} (h : Tail.number.goesBefore content = true) :
    (entryTail afterWord).goesBefore content = true := by
  cases afterWord with
  | true => exact h
  | false => exact Bool.and_eq_true_iff.mpr ⟨(Bool.and_eq_true_iff.mp h).1, rfl⟩

theorem entryTail_ne (afterWord : Bool) : entryTail afterWord ≠ .line := by cases afterWord <;> decide

theorem Prints.toNumber {frame : Frame} {docs : Docs} {t : Tail} {kind : List Lexeme → Prop} {afterWord : Bool}
    (h : Prints frame docs t (entryTail afterWord) kind) : Prints frame docs t .number kind := by
  cases afterWord with
  | true => exact h
  | false => exact h.weaken .number

theorem attributeDocs_nil (spaced afterWord : Bool) : attributeDocs spaced afterWord [] = [] := rfl

theorem attributeDocs_cons (spaced afterWord : Bool) (token : Token) (rest : List Token) :
    attributeDocs spaced afterWord (token :: rest)
      = token.attributeDoc spaced afterWord rest.isEmpty ++ attributeDocs spaced token.isWordlike rest := rfl

theorem attributeDoc_mark (spaced afterWord isLast : Bool) (c : Char) (joined : Bool) :
    Token.attributeDoc spaced afterWord isLast (.mark c joined)
      = if c = ',' then if isLast then comma true else word "," ++ if spaced then space else blank
        else (if afterWord && c == '=' then blank else []) ++ word c.toString
          ++ if c = '=' then blank else [] := rfl

theorem prints_entryComma {joined : Bool} {back : List Token} (frame : Frame) (afterWord : Bool)
    (h : Prints frame (attributeDocs true false back) .any .number SaysEntries) :
    Prints frame (attributeDocs true afterWord (.mark ',' joined :: back)) (entryTail afterWord) .number
      SaysEntries := by
  rw [attributeDocs_cons, attributeDoc_mark, if_pos rfl]
  cases back with
  | nil =>
    rw [List.isEmpty_nil, if_pos rfl, attributeDocs_nil, List.append_nil]
    refine ((prints_lastComma frame (entryTail_ne afterWord)).toNumber).imp ?_
    rintro _ (rfl | rfl)
    · exact ⟨[], by simp, rfl⟩
    · exact saysEntries_cons (.mark ",") (.inl rfl) ⟨[], by simp, rfl⟩
  | cons token back =>
    rw [List.isEmpty_cons, if_neg Bool.false_ne_true, if_pos rfl]
    have hComma := (prints_fixed frame (entryTail afterWord) "," [.mark ","] rfl
      (goesBefore_entry afterWord rfl)).silent (prints_space frame .any)
    refine (hComma.append h).imp ?_
    rintro _ ⟨_, ls, rfl, hLs, rfl⟩
    exact saysEntries_cons (.mark ",") (.inl rfl) hLs

theorem prints_entryEqual {joined : Bool} {back : List Token} (frame : Frame) (afterWord : Bool)
    (h : Prints frame (attributeDocs true false back) .any .number SaysEntries) :
    Prints frame (attributeDocs true afterWord (.mark '=' joined :: back)) (entryTail afterWord) .number
      SaysEntries := by
  have hGap : Prints frame (if afterWord && ('=' == '=') then blank else []) (entryTail afterWord) .any (· = []) := by
    cases afterWord with
    | true => exact prints_blank frame (by decide)
    | false => exact prints_nil frame .any
  have hEqual := (prints_fixed frame .any "=" [.mark "="] rfl rfl).silent (prints_blank frame (by decide))
  rw [attributeDocs_cons, attributeDoc_mark, if_neg (by decide), List.append_assoc _ (word _)]
  refine ((Prints.behindSilent hGap hEqual).append h).imp ?_
  rintro _ ⟨_, ls, rfl, hLs, rfl⟩
  exact saysEntries_cons (.mark "=") (.inr rfl) hLs

theorem prints_entries {ps : List Piece} (h : ∀ p ∈ ps, IsEntry p) : ∀ {tokens : List Token}, Spelled ps tokens →
    ∀ afterWord frame,
      Prints frame (attributeDocs true afterWord tokens) (entryTail afterWord) .number SaysEntries := by
  induction ps with
  | nil =>
    intro tokens hSpelled afterWord frame
    cases hSpelled
    rw [attributeDocs_nil]
    refine (prints_nil frame _).toNumber.imp ?_
    rintro _ rfl
    exact ⟨[], by simp, rfl⟩
  | cons p ps ih =>
    obtain ⟨hEntry, hRest⟩ := List.forall_mem_cons.mp h
    intro tokens hSpelled afterWord frame
    cases p with
    | word name =>
      obtain ⟨back, rfl, hBack⟩ := spelled_word hSpelled
      rw [attributeDocs_cons]
      refine ((Prints.behindSilent (prints_gap frame afterWord)
        ((printsAs_name hEntry).number.prints frame)).append (ih hRest hBack true frame)).imp ?_
      rintro _ ⟨_, ls, rfl, hLs, rfl⟩
      exact saysEntries_cons (.word name) hEntry hLs
    | literal text =>
      obtain ⟨back, rfl, hBack⟩ := spelled_literal hSpelled
      rw [attributeDocs_cons]
      refine ((Prints.behindSilent (prints_gap frame afterWord)
        ((printsAs_literal hEntry).prints frame)).append (ih hRest hBack true frame)).imp ?_
      rintro _ ⟨_, ls, rfl, hLs, rfl⟩
      exact saysEntries_cons (.literal text) hEntry hLs
    | mark text =>
      rcases hEntry with rfl | rfl
      · obtain ⟨joined, back, rfl, hBack⟩ := spelled_one ',' rfl hSpelled
        exact prints_entryComma frame afterWord (ih hRest hBack false frame)
      · obtain ⟨joined, back, rfl, hBack⟩ := spelled_one '=' rfl hSpelled
        exact prints_entryEqual frame afterWord (ih hRest hBack false frame)
    | _ => exact hEntry.elim

theorem attributeDocs_ne_nil {spaced : Bool} {tokens : List Token} (h : endsInComma tokens = true) :
    ∀ afterWord, attributeDocs spaced afterWord tokens ≠ [] := by
  induction tokens with
  | nil => cases h
  | cons token rest ih =>
    intro afterWord
    rw [attributeDocs_cons]
    cases rest with
    | nil =>
      refine List.append_ne_nil_of_left_ne_nil ?_ _
      cases token with
      | mark c joined =>
        have hComma : c = ',' := by simpa [endsInComma] using h
        rw [attributeDoc_mark, if_pos hComma]
        exact List.cons_ne_nil _ _
      | _ => cases h
    | cons next rest =>
      refine List.append_ne_nil_of_right_ne_nil _ (ih ?_ _)
      cases token <;> exact h

theorem prints_entryGroup {ps : List Piece} {tokens : List Token} (h : ∀ p ∈ ps, IsEntry p)
    (hSpelled : Spelled ps tokens) (frame : Frame) :
    Prints frame (Token.attributeDoc false false true (.group .parenthesis tokens)) .word .any
      fun ls => ∃ ms, SaysEntries ms ∧ ls = .opening .parenthesis :: (ms ++ [.closing .parenthesis]) := by
  have hLast : ∀ frame, Prints frame (if endsInComma tokens then [] else zero) .number .number (· = []) := by
    intro frame
    split
    · exact prints_nil frame .number
    · exact prints_zero frame .number
  have hNe : attributeDocs true false tokens ++ (if endsInComma tokens then [] else zero) ≠ [] := by
    split
    · rename_i hEnds
      exact List.append_ne_nil_of_left_ne_nil (attributeDocs_ne_nil hEnds false) _
    · exact List.append_ne_nil_of_right_ne_nil _ (List.cons_ne_nil _ _)
  have hInner : ∀ frame, Prints frame (dedent (zero ++ (attributeDocs true false tokens
      ++ if endsInComma tokens then [] else zero))) .any .number SaysEntries := fun frame =>
    (Prints.behindSilent (prints_zero frame .any) ((prints_entries h hSpelled false frame).silent (hLast frame))).dedent
  have hBox := prints_box frame step (hInner none) (hInner (some .consistent)) (dedent_cons_ne_break _ hNe)
  rw [Token.attributeDoc]
  refine (((prints_fixed frame .word "(" [.opening .parenthesis] rfl rfl).append hBox).append
    (prints_fixed frame .number ")" [.closing .parenthesis] rfl rfl)).imp ?_
  rintro _ ⟨_, _, ⟨_, ms, rfl, hMs, rfl⟩, rfl, rfl⟩
  exact ⟨ms, hMs, by simp⟩

def SaysAttributes : List Lexeme → Prop := Says fun ps => ∃ attributes, AttributesForm ps attributes

theorem path_ofName_doc (inExpr : Bool) (name : String) : (Path.ofName name).doc inExpr = word name := by
  rw [Path.ofName, path_doc, Segment.allDoc, Arguments.doc, List.append_nil]

theorem prints_attributes {ps : List Piece} {attributes : List Attribute} (h : AttributesForm ps attributes) :
    Prints (some .consistent) (attributesDoc attributes) .any .any SaysAttributes := by
  induction h with
  | nil =>
    refine (prints_nil _ .any).imp ?_
    rintro _ rfl
    exact ⟨[], ⟨[], .nil⟩, rfl⟩
  | @remark ps comment attributes hOuter hLine _ ih =>
    have hFirst := prints_remarkAttribute hLine
    rw [hOuter] at hFirst
    refine (hFirst.append ih).imp ?_
    rintro _ ⟨_, _, ⟨text, hText, rfl⟩, ⟨qs, ⟨more, hMore⟩, rfl⟩, rfl⟩
    exact ⟨_, ⟨_, .remark rfl hText hMore⟩, rfl⟩
  | @list name ps qs tokens attributes hName hEntries hTokens _ ih =>
    have hLead := prints_fixed (some .consistent) .any "#[" [.mark "#", .opening .bracket] rfl rfl
    have hPath := (printsAs_name (isWord_of_isDeclarable hName)).prints (some .consistent)
    have hClosing := (prints_fixed (some .consistent) .any "]" [.closing .bracket] rfl rfl).silent
      (prints_space _ .any)
    have hDoc : (Attribute.list (.ofName name) .parenthesis tokens).doc false
        = word "#[" ++ (word name ++ Token.attributeDoc false false true (.group .parenthesis tokens))
          ++ (word "]" ++ space) := by
      rw [← path_ofName_doc false name, ← List.append_assoc _ (word "]")]
      rfl
    rw [attributesDoc, List.flatMap_cons, hDoc]
    refine (((hLead.append (hPath.append (prints_entryGroup hEntries hTokens _))).append hClosing).append ih).imp ?_
    rintro _ ⟨_, _, ⟨_, _, ⟨_, _, rfl, ⟨_, _, rfl, ⟨_, ⟨rs, hRs, rfl⟩, rfl⟩, rfl⟩, rfl⟩, rfl, rfl⟩,
      ⟨qs, ⟨more, hMore⟩, rfl⟩, rfl⟩
    obtain ⟨tokens, hSpelled⟩ := exists_spelled rs
    exact ⟨_, ⟨_, .list hName hRs hSpelled hMore⟩, by simp⟩

/-! ## Use trees -/

def SaysVisibility : List Lexeme → Prop := Says fun ps => ∃ visibility, VisibilityForm ps visibility

theorem prints_visibility {ps : List Piece} {visibility : Visibility} (h : VisibilityForm ps visibility)
    (frame : Frame) :
    Prints frame visibility.doc .any .any SaysVisibility := by
  cases h with
  | inherited =>
    refine (prints_nil frame .any).imp ?_
    rintro _ rfl
    exact ⟨[], ⟨_, .inherited⟩, rfl⟩
  | everyone =>
    refine (prints_fixed frame .any "pub " [.word "pub"] rfl rfl).imp ?_
    rintro _ rfl
    exact ⟨_, ⟨_, .everyone⟩, rfl⟩

def SaysTree : List Lexeme → Prop := Says fun ps => ∃ tree, UseForm ps (.tree tree)

def SaysTrees (count : Nat) : List Lexeme → Prop :=
  Says fun ps => ∃ trees, trees.length = count ∧ UseForm ps (.trees trees false)
    ∧ UseForm (ps ++ [Piece.mark ","]) (.trees trees true)

def UsePhrase.PrintedFrom : UsePhrase → Prop
  | .tree found => PrintsAs found.doc .word SaysTree
  | .trees found _ => PrintsAs (UseTree.docs found) .word (SaysTrees found.length)

theorem isWord_of_pathWord {name : String} (h : name ∈ Parser.pathWords) : isWord name = true := by
  have hAll : ∀ name ∈ Parser.pathWords, isWord name = true := by decide
  exact hAll name h

theorem append_ne_empty {front back : String} (h : back ≠ "") : front ++ back ≠ "" := by
  intro hNone
  refine h (String.ext_iff.mpr ?_)
  have hList := congrArg String.toList hNone
  rw [String.toList_append] at hList
  simpa using (List.append_eq_nil_iff.mp hList).2

theorem printsAs_useName {name : String} (h : isWord name = true) (hForm : UseForm [.word name] (.tree (.name name))) :
    PrintsAs (UseTree.doc (.name name)) .word SaysTree := by
  refine (printsAs_name h).imp ?_
  rintro _ rfl
  exact ⟨_, ⟨_, hForm⟩, rfl⟩

theorem printed_of_useForm {ps : List Piece} {phrase : UsePhrase} (h : UseForm ps phrase) : phrase.PrintedFrom := by
  induction h with
  | name hName => exact printsAs_useName (isWord_of_isDeclarable hName) (.name hName)
  | root hName => exact printsAs_useName (isWord_of_pathWord hName) (.root hName)
  | @rename name other hName hSegment hOther =>
    have hText := ((Writes.word hName).fixed " as " [.word "as"] rfl rfl).next rfl
      (Writes.word (isWord_of_isDeclarable hOther))
    refine (printsAs_word hText (by simp) ?_).imp ?_
    · exact append_ne_empty (ne_empty_of_isWord (isWord_of_isDeclarable hOther))
    · rintro _ rfl
      exact ⟨_, ⟨_, .rename hName hSegment hOther⟩, rfl⟩
  | @path name _ _ hName hSegment _ ih =>
    have hText := (Writes.word hName).fixed "::" [.mark "::"] rfl rfl
    refine ((printsAs_word hText (by decide) (append_ne_empty (by decide))).append ih.prints).imp ?_
    rintro _ ⟨_, _, rfl, ⟨qs, ⟨tree, hForm⟩, rfl⟩, rfl⟩
    exact ⟨_, ⟨_, .path hName hSegment hForm⟩, rfl⟩
  | @group _ first second trees ended _ ih =>
    have hElements := PrintsAs.boxed ih .inconsistent 0
    have hInner : ∀ frame, Prints frame
        (zero ++ (filled (UseTree.docs (first :: second :: trees)) ++ dedent (comma true))) .any .word
        (Followed (SaysTrees (first :: second :: trees).length) MaybeComma) := fun frame =>
      .behindSilent (prints_zero frame .any)
        ((hElements.prints frame).append (prints_lastComma frame (by decide)).dedent)
    have hNeBreak := cons_ne_break (.brk {}) (List.append_ne_nil_of_right_ne_nil
      (filled (UseTree.docs (first :: second :: trees))) (show dedent (comma true) ≠ [] by decide))
    have hBox := fun frame => prints_box frame step (hInner none) (hInner (some .consistent)) hNeBreak
    change PrintsAs (UseTree.doc _) .word SaysTree
    rw [UseTree.doc, List.append_assoc zero]
    refine ((((printsAs_fixed "\x7b" [.opening .brace] rfl (by decide)).append hBox).append
      fun frame => prints_fixed frame .word "\x7d" [.closing .brace] rfl rfl).weaken .word).imp ?_
    rintro _ ⟨_, _, ⟨_, _, rfl, ⟨_, _, ⟨ps, ⟨found, hLength, hLast, hEnded⟩, rfl⟩, hComma, rfl⟩, rfl⟩, rfl, rfl⟩
    obtain ⟨a, b, more, rfl⟩ : ∃ a b more, found = a :: b :: more := by
      match found, hLength with
      | a :: b :: more, _ => exact ⟨a, b, more, rfl⟩
    rcases hComma with rfl | rfl
    · exact ⟨_, ⟨_, .group hLast⟩, by simp⟩
    · exact ⟨_, ⟨_, .group hEnded⟩, by simp [lexemesOf_append]⟩
  | last _ ih =>
    refine PrintsAs.imp ih fun ls hLs => hLs.imp fun ps ⟨tree, hForm⟩ => ?_
    exact ⟨[tree], rfl, .last hForm, .ended hForm⟩
  | ended _ ih =>
    refine PrintsAs.imp ih fun ls hLs => hLs.imp fun ps ⟨tree, hForm⟩ => ?_
    exact ⟨[tree], rfl, .last hForm, .ended hForm⟩
  | @cons _ _ tree next trees _ _ _ ih ihRest =>
    have hComma : ∀ frame, Prints frame (word "," ++ if tree.endsInGroup then hard else space) .word .any
        (· = [.mark ","]) := by
      intro frame
      refine (prints_fixed frame .word "," [.mark ","] rfl rfl).silent ?_
      split
      · exact prints_hard frame .any
      · exact prints_space frame .any
    have hDocs : UseTree.docs (tree :: next :: trees)
        = tree.doc ++ (word "," ++ if tree.endsInGroup then hard else space) ++ UseTree.docs (next :: trees) := by
      rw [UseTree.docs, ← List.append_assoc]
      · exact List.cons_ne_nil _ _
    change PrintsAs (UseTree.docs (tree :: next :: trees)) .word (SaysTrees (tree :: next :: trees).length)
    rw [hDocs]
    refine ((PrintsAs.append ih hComma).append ihRest.prints).imp ?_
    rintro _ ⟨_, _, ⟨_, _, ⟨ps, ⟨found, hForm⟩, rfl⟩, rfl, rfl⟩, ⟨qs, ⟨more, hLength, hLast, hEnded⟩, rfl⟩, rfl⟩
    cases more with
    | nil => cases hLength
    | cons second more =>
      refine ⟨ps ++ Piece.mark "," :: qs, ⟨found :: second :: more, ?_, .cons hForm hLast, ?_⟩, ?_⟩
      · simpa using hLength
      · rw [List.append_assoc]
        exact .cons hForm hEnded
      · simp [lexemesOf_append]

/-! ## Fields and variants -/

def SaysFields : List Lexeme → Prop := Says fun ps => ∃ fields, FieldsForm ps fields

theorem printsAs_labelled {name : String} {ps : List Piece} {type : Ty} (hName : isDeclarable name = true)
    (hType : TypeForm ps (.type type)) :
    PrintsAs (word (name ++ ": ") ++ type.doc) .word (Followed (· = [.word name, .mark ":"]) SaysType) := by
  have hText := (Writes.word (isWord_of_isDeclarable hName)).fixed ": " [.mark ":"] rfl rfl
  have hLead := printsAs_word hText (by decide) (append_ne_empty (by decide))
  exact hLead.append (printed_of_typeForm hType : PrintsAs _ _ _).prints

theorem prints_fields {ps : List Piece} {fields : List FieldItem} (h : FieldsForm ps fields) :
    Prints (some .consistent) (fields.flatMap fun field => field.doc ++ word "," ++ hard) .any .any SaysFields := by
  induction h with
  | nil =>
    refine (prints_nil _ .any).imp ?_
    rintro _ rfl
    exact ⟨[], ⟨[], .nil⟩, rfl⟩
  | @cons ps qs rs attributes name type fields hAttributes hName hType _ ih =>
    have hPub := prints_fixed (some .consistent) .any "pub " [.word "pub"] rfl rfl
    have hComma := (prints_fixed (some .consistent) .word "," [.mark ","] rfl rfl).silent (prints_hard _ .any)
    have hDoc : (FieldItem.mk attributes .everyone (some name) type).doc ++ word "," ++ hard
        = attributesDoc attributes ++ (word "pub " ++ (word (name ++ ": ") ++ type.doc)) ++ (word "," ++ hard) := by
      simp [FieldItem.doc, Visibility.doc]
    rw [List.flatMap_cons, hDoc]
    refine ((((prints_attributes hAttributes).append (hPub.append ((printsAs_labelled hName hType).prints _))).append
      hComma).append ih).imp ?_
    rintro _ ⟨_, _, ⟨_, _, ⟨_, _, ⟨ps, ⟨attributes, hAttributes⟩, rfl⟩, ⟨_, _, rfl, ⟨_, _, rfl,
      ⟨qs, ⟨type, hType⟩, rfl⟩, rfl⟩, rfl⟩, rfl⟩, rfl, rfl⟩, ⟨rs, ⟨more, hMore⟩, rfl⟩, rfl⟩
    exact ⟨_, ⟨_, .cons hAttributes hName hType hMore⟩, by simp [lexemesOf_append]⟩

def SaysPlace : List Lexeme → Prop := Says fun ps => ∃ field, PlaceForm ps field

theorem printsAs_place {ps : List Piece} {field : FieldItem} (h : PlaceForm ps field) :
    PrintsAs field.doc .word SaysPlace := by
  cases h with
  | @inherited _ type h =>
    have hType : PrintsAs type.doc .word SaysType := printed_of_typeForm h
    exact hType.imp fun ls hLs => hLs.imp fun ps ⟨_, hForm⟩ => ⟨_, .inherited hForm⟩
  | @everyone _ segments h =>
    obtain ⟨-, hSegments, -⟩ := printed_of_typeForm h
    have hDoc : (FieldItem.mk [] .everyone none (.path (.mk false segments))).doc
        = word "pub " ++ Segment.allDoc false segments := by
      rw [FieldItem.doc, Ty.doc, path_doc]
      rfl
    rw [hDoc]
    refine ((printsAs_fixed "pub " [.word "pub"] rfl (by decide)).append hSegments.prints).imp ?_
    rintro _ ⟨_, _, rfl, ⟨qs, ⟨found, hForm⟩, rfl⟩, rfl⟩
    exact ⟨_, ⟨_, .everyone hForm⟩, rfl⟩

/-- The only field of a structure without names, between its parentheses. -/
def SaysPlaces : List Lexeme → Prop :=
  Says fun ps => ∃ qs field, ps = [.group .parenthesis qs] ∧ PlacesForm qs field

theorem startsWithContent_unnamedFields (fields : List FieldItem) : StartsWithContent (unnamedFieldsDoc fields) :=
  ((startsWithContent_word (by decide)).append _).append _

theorem prints_places {ps : List Piece} {field : FieldItem} (h : PlacesForm ps field) (frame : Frame) :
    Prints frame (unnamedFieldsDoc [field]) .word .any SaysPlaces := by
  have hPlace : PrintsAs field.doc .word SaysPlace := by
    cases h with
    | last h => exact printsAs_place h
    | ended h => exact printsAs_place h
  have hDoc : unnamedFieldsDoc [field] = word "(" ++ dedent (zero ++ (field.doc ++ comma true)) ++ word ")" := by
    simp [unnamedFieldsDoc, withLast]
  have hInner := (Prints.behindSilent (prints_zero frame .any) ((hPlace.prints frame).append
    (prints_lastComma frame (by decide)))).dedent
  rw [hDoc]
  refine (((prints_fixed frame .word "(" [.opening .parenthesis] rfl rfl).append hInner).append
    (prints_fixed frame .word ")" [.closing .parenthesis] rfl rfl)).imp ?_
  rintro _ ⟨_, _, ⟨_, _, rfl, ⟨_, _, ⟨qs, ⟨found, hForm⟩, rfl⟩, hComma, rfl⟩, rfl⟩, rfl, rfl⟩
  rcases hComma with rfl | rfl
  · exact ⟨_, ⟨qs, found, rfl, .last hForm⟩, by simp⟩
  · exact ⟨_, ⟨qs ++ [Piece.mark ","], found, rfl, .ended hForm⟩, by simp [lexemesOf_append]⟩

def SaysVariants : List Lexeme → Prop := Says fun ps => ∃ variants, VariantsForm ps variants

theorem prints_variants {ps : List Piece} {variants : List Variant} (h : VariantsForm ps variants) :
    Prints (some .consistent) (variants.flatMap fun variant => variant.doc ++ word "," ++ hard) .any .any
      SaysVariants := by
  induction h with
  | nil =>
    refine (prints_nil _ .any).imp ?_
    rintro _ rfl
    exact ⟨[], ⟨[], .nil⟩, rfl⟩
  | @cons ps qs rs attributes name field variants hAttributes hName hField _ ih =>
    have hPlaces := prints_box (some .consistent) step (prints_places hField none)
      (prints_places hField (some .consistent)) (startsWithContent_unnamedFields [field]).ne_break
    have hComma := (prints_fixed (some .consistent) .any "," [.mark ","] rfl rfl).silent (prints_hard _ .any)
    have hDoc : (Variant.mk attributes name (.unnamed [field]) none).doc ++ word "," ++ hard
        = attributesDoc attributes ++ (word name ++ indented (unnamedFieldsDoc [field])) ++ (word "," ++ hard) := by
      simp [Variant.doc, Expr.optionalDoc]
    rw [List.flatMap_cons, hDoc]
    refine ((((prints_attributes hAttributes).append (((printsAs_name (isWord_of_isDeclarable hName)).prints
      _).append hPlaces)).append hComma).append ih).imp ?_
    rintro _ ⟨_, _, ⟨_, _, ⟨_, _, ⟨ps, ⟨attributes, hAttributes⟩, rfl⟩, ⟨_, _, rfl, ⟨_, ⟨qs, field, rfl, hField⟩, rfl⟩,
      rfl⟩, rfl⟩, rfl, rfl⟩, ⟨rs, ⟨more, hMore⟩, rfl⟩, rfl⟩
    exact ⟨_, ⟨_, .cons hAttributes hName hField hMore⟩, by simp [lexemesOf_append]⟩

/-! ## Functions -/

def SaysInput : List Lexeme → Prop := Says fun ps => ∃ input, InputForm ps input

def SaysInputs : List Lexeme → Prop := Says fun ps => ∃ inputs, InputsForm ps inputs

theorem printsAs_input {ps : List Piece} {input : Input} (h : InputForm ps input) :
    PrintsAs input.doc .word SaysInput := by
  cases h with
  | byValue =>
    refine (@printsAs_name "self" (by decide)).imp ?_
    rintro _ rfl
    exact ⟨_, ⟨_, .byValue⟩, rfl⟩
  | byReference =>
    refine ((printsAs_fixed "&" [.mark "&"] rfl (by decide)).append
      (@printsAs_name "self" (by decide)).prints).imp ?_
    rintro _ ⟨_, _, rfl, rfl, rfl⟩
    exact ⟨_, ⟨_, .byReference⟩, rfl⟩
  | @typed name _ type hName hType =>
    have hDoc : (Input.typed (.bind false false name none) type).doc = word name ++ word ": " ++ type.doc := by
      rw [Input.doc, Pat.doc, Pat.innerDoc, List.append_nil]
      rfl
    rw [hDoc]
    refine (((printsAs_name (isWord_of_isDeclarable hName)).append
      fun frame => prints_fixed frame .word ": " [.mark ":"] rfl rfl).append
      (printed_of_typeForm hType : PrintsAs _ _ _).prints).imp ?_
    rintro _ ⟨_, _, ⟨_, _, rfl, rfl, rfl⟩, ⟨qs, ⟨type, hType⟩, rfl⟩, rfl⟩
    exact ⟨_, ⟨_, .typed hName hType⟩, rfl⟩

theorem saysInputs_of_commas {ls : List Lexeme} (h : Commas SaysInput ls) : SaysInputs ls :=
  says_of_commas h (fun ⟨_, hForm⟩ => ⟨_, .last hForm⟩) (fun ⟨_, hForm⟩ => ⟨_, .ended hForm⟩)
    fun ⟨_, hForm⟩ ⟨_, hMore⟩ => ⟨_, .cons hForm hMore⟩

theorem inputs_printed {ps : List Piece} {inputs : List Input} (h : InputsForm ps inputs) :
    inputs ≠ [] ∧ ∀ input ∈ inputs, PrintsAs input.doc .number SaysInput := by
  induction h with
  | last h => exact ⟨List.cons_ne_nil _ _, List.forall_mem_singleton.mpr (printsAs_input h).number⟩
  | ended h => exact ⟨List.cons_ne_nil _ _, List.forall_mem_singleton.mpr (printsAs_input h).number⟩
  | cons h _ ih => exact ⟨List.cons_ne_nil _ _, List.forall_mem_cons.mpr ⟨(printsAs_input h).number, ih.2⟩⟩

def SaysParameters : List Lexeme → Prop := Says fun ps => ∃ parameters, ParametersForm ps parameters

theorem printsAs_parameter {name : String} {ps : List Piece} {bounds : List Bound} (hName : isDeclarable name = true)
    (h : TypeForm ps (.bounds bounds)) :
    PrintsAs (Parameter.doc (.type name bounds none)) .number (Followed (· = [.word name, .mark ":"]) SaysBounds) := by
  obtain ⟨first, rest, hDocs, -, hSpaced⟩ := printed_of_typeForm h
  have hDoc : Parameter.doc (.type name bounds none) = word name
      ++ filledIndented (word ": " ++ (first ++ rest.flatMap fun bound => space ++ word "+ " ++ bound)) := by
    simp [Parameter.doc, hDocs, boundsDoc]
  have hBounds : ∀ frame, Prints frame
      (word ": " ++ (first ++ rest.flatMap fun bound => space ++ word "+ " ++ bound)) .word .number
      (Followed (· = [.mark ":"]) SaysBounds) := fun frame =>
    (prints_fixed frame .word ": " [.mark ":"] rfl rfl).append (hSpaced.prints frame)
  rw [hDoc]
  refine ((printsAs_name (isWord_of_isDeclarable hName)).append fun frame => prints_box frame step (hBounds _)
    (hBounds _) ((startsWithContent_word (by decide)).append _).ne_break).imp ?_
  rintro _ ⟨_, _, rfl, ⟨_, ls, rfl, hLs, rfl⟩, rfl⟩
  exact ⟨_, ls, rfl, hLs, rfl⟩

theorem prints_parameter {name : String} {ps : List Piece} {bounds : List Bound} (hName : isDeclarable name = true)
    (h : TypeForm ps (.bounds bounds)) (frame : Frame) :
    Prints frame (parametersDoc [.type name bounds none]) .word .number SaysParameters := by
  have hParameter := printsAs_parameter hName h
  have hNe : (Parameter.type name bounds none).doc ++ comma true ≠ [] :=
    List.append_ne_nil_of_right_ne_nil _ (by decide)
  have hInner : ∀ frame, Prints frame (zero ++ dedent ((Parameter.type name bounds none).doc ++ comma true)) .any
      .number (Followed (Followed (· = [.word name, .mark ":"]) SaysBounds) MaybeComma) := fun frame =>
    .behindSilent (prints_zero frame .any)
      ((hParameter.prints frame).append (prints_lastComma frame (by decide))).dedent
  have hDoc : parametersDoc [.type name bounds none] = word "<"
      ++ flush (zero ++ dedent ((Parameter.type name bounds none).doc ++ comma true)) ++ word ">" := by
    simp [parametersDoc, Parameter.isLifetime, withLast]
  rw [hDoc]
  refine ((((prints_fixed frame .word "<" [.mark "<"] rfl rfl).append (prints_box frame 0 (hInner _) (hInner _)
    (cons_ne_break _ (shiftLast_ne_nil hNe)))).append
    (prints_fixed frame .number ">" [.mark ">"] rfl rfl)).weaken .number).imp ?_
  rintro _ ⟨_, _, ⟨_, _, rfl, ⟨_, _, ⟨_, _, rfl, ⟨qs, ⟨found, hFound⟩, rfl⟩, rfl⟩, hComma, rfl⟩, rfl⟩, rfl, rfl⟩
  rcases hComma with rfl | rfl
  · exact ⟨_, ⟨_, .last hName hFound⟩, by simp [lexemesOf_append]⟩
  · exact ⟨_, ⟨_, .ended hName hFound⟩, by simp [lexemesOf_append]⟩

theorem prints_parameters {ps : List Piece} {parameters : List Parameter} (h : ParametersForm ps parameters)
    (frame : Frame) : Prints frame (parametersDoc parameters) .word .number SaysParameters := by
  have hSome : ∀ {name : String} {ps : List Piece} {bounds : List Bound}, isDeclarable name = true →
      TypeForm ps (.bounds bounds) →
      Prints frame (parametersDoc [.type name bounds none]) .word .number SaysParameters :=
    fun hName hBounds => prints_parameter hName hBounds frame
  cases h with
  | nil =>
    intro page out ls hHolds hLays
    cases hLays
    exact ⟨[], ⟨[], ⟨[], .nil⟩, rfl⟩, by simpa using hHolds.number⟩
  | last hName hBounds => exact hSome hName hBounds
  | ended hName hBounds => exact hSome hName hBounds

def SaysOutput : List Lexeme → Prop := Says fun ps => ∃ output, OutputForm ps output

theorem prints_output {ps : List Piece} {output : Option Ty} (h : OutputForm ps output) (frame : Frame) :
    Prints frame (outdented (Ty.outputDoc output)) .any .number SaysOutput := by
  cases h with
  | none =>
    have hNone : ∀ frame, Prints frame (Ty.outputDoc none) .any .number SaysOutput := by
      intro frame
      refine ((prints_nil frame .any).weaken .number).imp ?_
      rintro _ rfl
      exact ⟨[], ⟨_, .none⟩, rfl⟩
    refine prints_box frame _ (hNone _) (hNone _) fun _ => ?_
    simp [Ty.outputDoc]
  | some h =>
    have hOutput := (((printsAs_fixed " -> " [.mark "->"] rfl (by decide)).append
      (printed_of_typeForm h : PrintsAs _ _ _).prints).boxed .consistent (-(step : Int))).prints frame
    rw [Ty.outputDoc]
    refine hOutput.imp ?_
    rintro _ ⟨_, _, rfl, ⟨qs, ⟨type, hForm⟩, rfl⟩, rfl⟩
    exact ⟨_, ⟨_, .some hForm⟩, rfl⟩

def SaysSignature : List Lexeme → Prop := Says fun ps => ∃ signature, SignatureForm ps signature

theorem printsAs_signature {ps : List Piece} {signature : Signature} (h : SignatureForm ps signature) :
    PrintsAs signature.doc .number SaysSignature := by
  cases h with
  | @mk name _ _ _ parameters inputs output hName hParameters hInputs hOutput =>
    have hText : Writes .word ("fn " ++ name).toList [.word "fn", .word name] :=
      (Writes.ofFixed "fn " [.word "fn"] rfl).next rfl (Writes.word (isWord_of_isDeclarable hName))
    have hLead := printsAs_word hText (by decide) (append_ne_empty (ne_empty_of_isWord (isWord_of_isDeclarable hName)))
    obtain ⟨hNe, hAll⟩ := inputs_printed hInputs
    have hList := @printsAs_commas _ Input.doc _ _ hNe hAll .consistent 0
    have hOpening : ∀ frame, Prints frame (word "(" ++ never) .number .any (· = [.opening .parenthesis]) :=
      fun frame => (prints_fixed frame .number "(" [.opening .parenthesis] rfl rfl).silent (prints_never frame _)
    have hClosing : ∀ frame, Prints frame (word ")") .number .any (· = [.closing .parenthesis]) :=
      fun frame => prints_fixed frame .number ")" [.closing .parenthesis] rfl rfl
    change PrintsAs ([] ++ word ("fn " ++ name) ++ parametersDoc parameters ++ word "(" ++ never ++ flush _ ++ word ")"
      ++ outdented (Ty.outputDoc output)) .number SaysSignature
    rw [List.nil_append, List.append_assoc _ (word "(") never]
    refine (((((hLead.append (prints_parameters hParameters)).append hOpening).append hList.prints).append
      hClosing).append (prints_output hOutput)).imp ?_
    rintro _ ⟨_, _, ⟨_, _, ⟨_, _, ⟨_, _, ⟨_, _, rfl, ⟨ps, ⟨parameters, hParameters⟩, rfl⟩, rfl⟩, rfl, rfl⟩, hCommas,
      rfl⟩, rfl, rfl⟩, ⟨rs, ⟨output, hOutput⟩, rfl⟩, rfl⟩
    obtain ⟨qs, ⟨inputs, hInputs⟩, rfl⟩ := saysInputs_of_commas hCommas
    exact ⟨_, ⟨_, .mk hName hParameters hInputs hOutput⟩, by simp [lexemesOf_append]⟩

theorem printsAs_access {ps : List Piece} {visibility : Visibility} {docs : Docs} {t : Tail}
    {kind : List Lexeme → Prop} (hVisibility : VisibilityForm ps visibility) (h : PrintsAs docs t kind) :
    PrintsAs (visibility.doc ++ docs) t (Followed SaysVisibility kind) := by
  refine ⟨?_, fun frame => (prints_visibility hVisibility frame).append (h.prints frame)⟩
  cases hVisibility with
  | inherited => exact h.starts
  | everyone => exact (startsWithContent_word (by decide)).append _

def SaysFunction : List Lexeme → Prop := Says fun ps => ∃ function, FunctionForm ps function

theorem prints_function {ps : List Piece} {function : Function} (h : FunctionForm ps function) :
    Prints (some .consistent) function.doc .any .any SaysFunction := by
  cases h with
  | @mk _ _ _ _ attributes visibility signature body hAttributes hVisibility hSignature hBody =>
    have hHead := printsAs_access hVisibility (printsAs_signature hSignature)
    have hAttributes := prints_attributes hAttributes
    have hHard := prints_hard (some .consistent) .any
    cases hBody with
    | declared =>
      have hDeclared := (hHead.append fun frame => prints_semicolon frame).boxed .consistent step
      refine ((hAttributes.append (hDeclared.prints _)).silent hHard).imp ?_
      rintro _ ⟨_, _, ⟨ps, ⟨attributes, hAttributes⟩, rfl⟩, ⟨_, _, ⟨_, _, ⟨qs, ⟨visibility, hVisibility⟩, rfl⟩,
        ⟨rs, ⟨signature, hSignature⟩, rfl⟩, rfl⟩, rfl, rfl⟩, rfl⟩
      exact ⟨_, ⟨_, .mk hAttributes hVisibility hSignature .declared⟩, by simp [lexemesOf_append]⟩
    | @defined _ body h =>
      have hStatements := (printed_of_exprForm h).1 false
      have hInner : ∀ frame, Prints frame (dedent (hardIfMore ++ Stmt.docs false body)) .any .any
          (SaysBody body.isEmpty) := fun frame =>
        (Prints.behindSilent (prints_idleHard frame) (hStatements frame)).dedent
      have hDefined := (((hHead.append fun frame => prints_fixed frame .number " \x7b" [.opening .brace] rfl rfl).append
        hInner).boxed .consistent step).append fun frame => (prints_right frame).behindAny
      rw [Function.doc]
      refine ((hAttributes.append (hDefined.prints _)).silent hHard).imp ?_
      rintro _ ⟨_, _, ⟨ps, ⟨attributes, hAttributes⟩, rfl⟩, ⟨_, _, ⟨_, _, ⟨_, _, ⟨_, _, ⟨qs, ⟨visibility, hVisibility⟩,
        rfl⟩, ⟨rs, ⟨signature, hSignature⟩, rfl⟩, rfl⟩, rfl, rfl⟩, ⟨ss, ⟨body, hBody, -⟩, rfl⟩, rfl⟩, rfl, rfl⟩, rfl⟩
      exact ⟨_, ⟨_, .mk hAttributes hVisibility hSignature (.defined hBody)⟩, by simp [lexemesOf_append]⟩

def SaysMembers : List Lexeme → Prop := Says fun ps => ∃ members, MembersForm ps members

theorem prints_members {ps : List Piece} {members : List Member} (h : MembersForm ps members) :
    Prints (some .consistent) (members.flatMap Member.doc) .any .any SaysMembers := by
  induction h with
  | nil =>
    refine (prints_nil _ .any).imp ?_
    rintro _ rfl
    exact ⟨[], ⟨[], .nil⟩, rfl⟩
  | cons h _ ih =>
    rw [List.flatMap_cons]
    refine ((prints_function h).append ih).imp ?_
    rintro _ ⟨_, _, ⟨ps, ⟨function, hFunction⟩, rfl⟩, ⟨qs, ⟨members, hMembers⟩, rfl⟩, rfl⟩
    exact ⟨_, ⟨_, .cons hFunction hMembers⟩, by simp [lexemesOf_append]⟩

end ProtoBind.Source
