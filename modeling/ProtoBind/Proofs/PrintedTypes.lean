import ProtoBind.Proofs.Printing
import ProtoBind.Proofs.PatternGrammar
import ProtoBind.Source.Printer.Pat

/-!
# Printed types and patterns

However types and patterns of the grammar are laid out, they are types and patterns of the grammar again.
-/

set_option autoImplicit false

namespace ProtoBind.Source

open Layout Text

/-! ## Types -/

theorem printsAs_name {name : String} (h : isWord name = true) : PrintsAs (word name) .word (· = [.word name]) :=
  printsAs_word (Writes.word h) (by simp) (ne_empty_of_isWord h)

def SaysType : List Lexeme → Prop := Says fun ps => ∃ type, TypeForm ps (.type type)

def SaysSum : List Lexeme → Prop := Says fun ps => ∃ type, TypeForm ps (.sum type)

def SaysSegments (inExpr : Bool) : List Lexeme → Prop :=
  Says fun ps => ∃ segments, TypeForm ps (.segments inExpr segments)

def SaysArgument : List Lexeme → Prop := Says fun ps => ∃ argument, TypeForm ps (.argument argument)

def SaysBounds : List Lexeme → Prop := Says fun ps => ∃ bounds, TypeForm ps (.bounds bounds)

/-- What the layouts of a phrase consist of. A path in an expression is written in one way only. -/
def TypePhrase.PrintedFrom (ps : List Piece) : TypePhrase → Prop
  | .type found => PrintsAs found.doc .word SaysType
  | .sum found => PrintsAs found.doc .number SaysSum
  | .segments inExpr found => found ≠ [] ∧ PrintsAs (Segment.allDoc inExpr found) .word (SaysSegments inExpr)
      ∧ (inExpr = true → PrintsAs (Segment.allDoc inExpr found) .word (· = lexemesOf ps))
  | .argument found => PrintsAs found.doc .word SaysArgument ∧ found.isLifetime = false
  | .arguments found => found ≠ [] ∧ ∀ a ∈ found, PrintsAs a.doc .word SaysArgument ∧ a.isLifetime = false
  | .bounds found => ∃ first rest, Bound.docs found = first :: rest
      ∧ PrintsAs (joined " + " (first :: rest)) .number SaysBounds
      ∧ PrintsAs (first ++ rest.flatMap fun bound => space ++ word "+ " ++ bound) .number SaysBounds

@[simp] theorem path_doc (inExpr : Bool) (segments : List Segment) :
    Path.doc inExpr (.mk false segments) = Segment.allDoc inExpr segments := by
  rw [Path.doc]
  rfl

@[simp] theorem bound_doc (path : Path) : Bound.doc (.trait false path) = path.doc false := by
  rw [Bound.doc]
  rfl

theorem argument_zip_docs (arguments : List Argument) :
    arguments.zip (Argument.docs arguments) = arguments.map fun a => (a, a.doc) := by
  induction arguments with
  | nil => rfl
  | cons a rest ih => rw [Argument.docs, List.zip_cons_cons, ih, List.map_cons]

theorem angledDoc_of_types {arguments : List Argument} (hNe : arguments ≠ [])
    (h : ∀ a ∈ arguments, a.isLifetime = false) :
    angledDoc (arguments.zip (Argument.docs arguments))
      = word "<" ++ commaList (arguments.map Argument.doc) ++ word ">" := by
  have hSome : (arguments.map fun a => (a, a.doc)).isEmpty = false := by simpa using hNe
  rw [angledDoc, argument_zip_docs, hSome, if_neg Bool.false_ne_true]
  dsimp only
  rw [List.filter_eq_nil_iff.mpr, List.filter_eq_self.mpr, List.nil_append, List.map_map]
  · rfl
  · simpa using h
  · simpa using h

theorem saysArguments_of_commas {ls : List Lexeme} (h : Commas SaysArgument ls) :
    Says (fun ps => ∃ arguments, TypeForm ps (.arguments arguments)) ls :=
  says_of_commas h (fun ⟨_, hForm⟩ => ⟨_, .last hForm⟩) (fun ⟨_, hForm⟩ => ⟨_, .ended hForm⟩)
    fun ⟨_, hForm⟩ ⟨_, hMore⟩ => ⟨_, .cons hForm hMore⟩

theorem printsAs_angled {name : String} {arguments : List Argument} (hName : isDeclarable name = true)
    (hNe : arguments ≠ []) (h : ∀ a ∈ arguments, PrintsAs a.doc .word SaysArgument ∧ a.isLifetime = false) :
    PrintsAs (Segment.allDoc false [.mk name (.angled arguments)]) .word (SaysSegments false) := by
  have hDocs : Segment.allDoc false [.mk name (.angled arguments)]
      = word name ++ (word "<" ++ commaList (arguments.map Argument.doc) ++ word ">") := by
    rw [Segment.allDoc, Arguments.doc, angledDoc_of_types hNe fun a hA => (h a hA).2]
    rfl
  have hList : PrintsAs (commaList (arguments.map Argument.doc)) .number (Commas SaysArgument) := by
    refine printsAs_commaList (by simpa using hNe) ?_
    rw [List.forall_mem_map]
    exact fun a hA => (h a hA).1.number
  rw [hDocs, ← List.append_assoc, ← List.append_assoc]
  refine ((((printsAs_name (isWord_of_isDeclarable hName)).append
    fun frame => prints_fixed frame .word "<" [.mark "<"] rfl rfl).append hList.prints).append
    fun frame => prints_fixed frame .number ">" [.mark ">"] rfl rfl).weaken .word |>.imp ?_
  rintro _ ⟨_, _, ⟨_, ls, ⟨_, _, rfl, rfl, rfl⟩, hLs, rfl⟩, rfl, rfl⟩
  obtain ⟨ps, ⟨found, hForm⟩, rfl⟩ := saysArguments_of_commas hLs
  exact ⟨_, ⟨_, .angled hName hForm⟩, by simp [lexemesOf_append]⟩

theorem printsAs_within {name : String} {inExpr : Bool} {segments : List Segment} {kind : List Lexeme → Prop}
    (hName : isSegment name = true) (hNe : segments ≠ []) (h : PrintsAs (Segment.allDoc inExpr segments) .word kind) :
    PrintsAs (Segment.allDoc inExpr (.mk name .none :: segments)) .word
      (Followed (· = [.word name, .mark "::"]) kind) := by
  have hDocs : Segment.allDoc inExpr (.mk name .none :: segments)
      = word name ++ word "::" ++ Segment.allDoc inExpr segments := by
    cases segments with
    | nil => exact absurd rfl hNe
    | cons segment rest =>
      rw [Segment.allDoc, Arguments.doc, List.append_nil]
      simp
  rw [hDocs]
  refine (((printsAs_name (isWord_of_isSegment hName)).append
    fun frame => prints_fixed frame .word "::" [.mark "::"] rfl rfl).append h.prints).imp ?_
  rintro _ ⟨_, ls, ⟨_, _, rfl, rfl, rfl⟩, hLs, rfl⟩
  exact ⟨_, ls, rfl, hLs, rfl⟩

theorem printsAs_bounds {first next : Docs} {rest : List Docs} (hFirst : PrintsAs first .word (SaysSegments false))
    (hJoined : PrintsAs (joined " + " (next :: rest)) .number SaysBounds)
    (hSpaced : PrintsAs (next ++ rest.flatMap fun bound => space ++ word "+ " ++ bound) .number SaysBounds) :
    PrintsAs (joined " + " (first :: next :: rest)) .number SaysBounds
      ∧ PrintsAs (first ++ (next :: rest).flatMap fun bound => space ++ word "+ " ++ bound) .number SaysBounds := by
  have hAll : ∀ ls, Followed (Followed (SaysSegments false) (· = [.mark "+"])) SaysBounds ls → SaysBounds ls := by
    rintro _ ⟨_, _, ⟨_, _, ⟨ps, ⟨segments, hForm⟩, rfl⟩, rfl, rfl⟩, ⟨qs, ⟨bounds, hMore⟩, rfl⟩, rfl⟩
    exact ⟨_, ⟨_, .bounds hForm hMore⟩, by simp [lexemesOf_append]⟩
  constructor
  · rw [joined]
    · exact ((hFirst.append fun frame => prints_fixed frame .word " + " [.mark "+"] rfl rfl).append
        hJoined.prints).imp hAll
    · exact List.cons_ne_nil _ _
  · have hPlus : ∀ frame, Prints frame (space ++ word "+ ") .word .any (· = [.mark "+"]) := fun frame =>
      .behindSilent (prints_space frame .word) (prints_fixed frame .any "+ " [.mark "+"] rfl rfl)
    have hDocs : first ++ (next :: rest).flatMap (fun bound => space ++ word "+ " ++ bound)
        = first ++ (space ++ word "+ ") ++ (next ++ rest.flatMap fun bound => space ++ word "+ " ++ bound) := by
      simp
    rw [hDocs]
    exact ((hFirst.append hPlus).append hSpaced.prints).imp hAll

/-- However the layout of a type is chosen, it is a type. -/
theorem printed_of_typeForm {ps : List Piece} {phrase : TypePhrase} (h : TypeForm ps phrase) :
    phrase.PrintedFrom ps := by
  induction h with
  | path _ ih =>
    change PrintsAs (Ty.doc _) .word SaysType
    rw [Ty.doc, path_doc]
    exact ih.2.1.imp fun ls hLs => hLs.imp fun ps ⟨_, hForm⟩ => ⟨_, .path hForm⟩
  | unit =>
    refine (printsAs_fixed "()" [.opening .parenthesis, .closing .parenthesis] rfl (by decide)).weaken .word |>.imp ?_
    rintro _ rfl
    exact ⟨_, ⟨_, .unit⟩, rfl⟩
  | reference h ih =>
    refine ((printsAs_fixed "&" [.mark "&"] rfl (by decide)).append ih.prints).imp ?_
    rintro _ ⟨_, _, rfl, ⟨ps, ⟨type, hForm⟩, rfl⟩, rfl⟩
    exact ⟨_, ⟨_, .reference hForm⟩, rfl⟩
  | mutable h ih =>
    refine ((printsAs_fixed "&mut " [.mark "&", .word "mut"] rfl (by decide)).append ih.prints).imp ?_
    rintro _ ⟨_, _, rfl, ⟨ps, ⟨type, hForm⟩, rfl⟩, rfl⟩
    exact ⟨_, ⟨_, .mutable hForm⟩, rfl⟩
  | static h ih =>
    refine ((printsAs_fixed "&'static " [.mark "&", .mark "'", .word "static"] rfl (by decide)).append ih.prints).imp ?_
    rintro _ ⟨_, _, rfl, ⟨ps, ⟨type, hForm⟩, rfl⟩, rfl⟩
    exact ⟨_, ⟨_, .static hForm⟩, rfl⟩
  | plain h ih => exact (PrintsAs.imp ih fun ls hLs => hLs.imp fun ps ⟨type, hForm⟩ => ⟨type, .plain hForm⟩).number
  | impl h ih =>
    obtain ⟨first, rest, hDocs, hJoined, -⟩ := ih
    change PrintsAs (Ty.doc _) .number SaysSum
    rw [Ty.doc, hDocs]
    refine ((printsAs_fixed "impl " [.word "impl"] rfl (by decide)).append hJoined.prints).imp ?_
    rintro _ ⟨_, _, rfl, ⟨ps, ⟨bounds, hForm⟩, rfl⟩, rfl⟩
    exact ⟨_, ⟨_, .impl hForm⟩, rfl⟩
  | @name name inExpr hName =>
    have hDocs : Segment.allDoc inExpr [.mk name .none] = word name := by
      rw [Segment.allDoc, Arguments.doc, List.append_nil]
    have hPrints := printsAs_name (isWord_of_isSegment hName)
    refine ⟨List.cons_ne_nil _ _, ?_, ?_⟩
    · rw [hDocs]
      refine hPrints.imp ?_
      rintro _ rfl
      exact ⟨_, ⟨_, .name inExpr hName⟩, rfl⟩
    · intro _
      rw [hDocs]
      exact hPrints
  | angled hName h ih =>
    exact ⟨List.cons_ne_nil _ _, printsAs_angled hName ih.1 ih.2, fun hExpr => by cases hExpr⟩
  | within hName h ih =>
    obtain ⟨hNe, hPrints, hExact⟩ := ih
    refine ⟨List.cons_ne_nil _ _, (printsAs_within hName hNe hPrints).imp ?_, fun hExpr => ?_⟩
    · rintro _ ⟨_, _, rfl, ⟨ps, ⟨segments, hForm⟩, rfl⟩, rfl⟩
      exact ⟨_, ⟨_, .within hName hForm⟩, rfl⟩
    · refine (printsAs_within hName hNe (hExact hExpr)).imp ?_
      rintro _ ⟨_, _, rfl, rfl, rfl⟩
      rfl
  | argument h ih => exact ⟨PrintsAs.imp ih fun ls hLs => hLs.imp fun ps ⟨type, hForm⟩ => ⟨_, .argument hForm⟩, rfl⟩
  | equality hName h ih =>
    refine ⟨?_, rfl⟩
    refine (((printsAs_name (isWord_of_isDeclarable hName)).append
      fun frame => prints_fixed frame .word " = " [.mark "="] rfl rfl).append ih.prints).imp ?_
    rintro _ ⟨_, _, ⟨_, _, rfl, rfl, rfl⟩, ⟨ps, ⟨type, hForm⟩, rfl⟩, rfl⟩
    exact ⟨_, ⟨_, .equality hName hForm⟩, rfl⟩
  | last h ih => exact ⟨List.cons_ne_nil _ _, List.forall_mem_singleton.mpr ih⟩
  | ended h ih => exact ⟨List.cons_ne_nil _ _, List.forall_mem_singleton.mpr ih⟩
  | cons h hRest ih ihRest => exact ⟨List.cons_ne_nil _ _, List.forall_mem_cons.mpr ⟨ih, ihRest.2⟩⟩
  | bound h ih =>
    have hPrints : PrintsAs (Segment.allDoc false _) .number SaysBounds :=
      (ih.2.1.imp fun ls hLs => hLs.imp fun ps ⟨_, hForm⟩ => ⟨_, .bound hForm⟩).number
    refine ⟨_, [], by rw [Bound.docs, bound_doc]; rfl, hPrints, ?_⟩
    rw [List.flatMap_nil, List.append_nil]
    exact hPrints
  | staticBound =>
    have hPrints : PrintsAs (word "'static") .number SaysBounds := by
      refine (printsAs_fixed "'static" [.mark "'", .word "static"] rfl (by decide)).imp ?_
      rintro _ rfl
      exact ⟨_, ⟨_, .staticBound⟩, rfl⟩
    exact ⟨_, [], rfl, hPrints, hPrints⟩
  | bounds h hRest ih ihRest =>
    obtain ⟨next, rest, hDocs, hJoined, hSpaced⟩ := ihRest
    refine ⟨_, next :: rest, by rw [Bound.docs, bound_doc, hDocs], ?_⟩
    exact printsAs_bounds ih.2.1 hJoined hSpaced

/-! ## Patterns -/

def SaysPattern : List Lexeme → Prop := Says fun ps => ∃ pattern, PatternForm ps (.pattern pattern)

def PatternPhrase.PrintedFrom : PatternPhrase → Prop
  | .pattern found => PrintsAs found.doc .number SaysPattern
  | .elements found => found ≠ [] ∧ ∀ docs ∈ Pat.docs found, PrintsAs docs .number SaysPattern

theorem pattern_docs_ne_nil {elements : List Pat} (h : elements ≠ []) : Pat.docs elements ≠ [] := by
  cases elements with
  | nil => exact absurd rfl h
  | cons pattern rest => exact List.cons_ne_nil _ _

theorem saysElements_of_commas {ls : List Lexeme} (h : Commas SaysPattern ls) :
    Says (fun ps => ∃ elements, PatternForm ps (.elements elements)) ls :=
  says_of_commas h (fun ⟨_, hForm⟩ => ⟨_, .last hForm⟩) (fun ⟨_, hForm⟩ => ⟨_, .ended hForm⟩)
    fun ⟨_, hForm⟩ ⟨_, hMore⟩ => ⟨_, .cons hForm hMore⟩

theorem ne_empty_of_isNumber {text : String} (h : isNumber text = true) : text ≠ "" := by
  rintro rfl
  cases h

theorem printsAs_number {text : String} (h : isNumber text = true) :
    PrintsAs (word text) .number (· = [.literal text]) :=
  printsAs_word (Writes.number h) (by simp) (ne_empty_of_isNumber h)

/-- However the layout of a pattern is chosen, it is a pattern. -/
theorem printed_of_patternForm {ps : List Piece} {phrase : PatternPhrase} (h : PatternForm ps phrase) :
    phrase.PrintedFrom := by
  induction h with
  | wild =>
    refine (printsAs_fixed "_" [.word "_"] rfl (by decide)).imp ?_
    rintro _ rfl
    exact ⟨_, ⟨_, .wild⟩, rfl⟩
  | number hText =>
    refine (printsAs_number hText).imp ?_
    rintro _ rfl
    exact ⟨_, ⟨_, .number hText⟩, rfl⟩
  | @negative text hText =>
    have hMinus : Writes .any "-".toList [.mark "-"] := Writes.mark (by decide)
    refine (printsAs_word (hMinus.next rfl (Writes.number hText)) (by simp) ?_).imp ?_
    · simp [String.ext_iff]
    · rintro _ rfl
      exact ⟨_, ⟨_, .negative hText⟩, rfl⟩
  | bind hName =>
    have hDocs : ∀ name, Pat.doc (.bind false false name none) = word name := by
      intro name
      rw [Pat.doc, Pat.innerDoc, List.append_nil]
      rfl
    change PrintsAs (Pat.doc _) .number SaysPattern
    rw [hDocs]
    refine (printsAs_name (isWord_of_isDeclarable hName)).number.imp ?_
    rintro _ rfl
    exact ⟨_, ⟨_, .bind hName⟩, rfl⟩
  | mutable hName =>
    have hDocs : ∀ name, Pat.doc (.bind false true name none) = word "mut " ++ word name := by
      intro name
      rw [Pat.doc, Pat.innerDoc, List.append_nil]
      rfl
    change PrintsAs (Pat.doc _) .number SaysPattern
    rw [hDocs]
    refine ((printsAs_fixed "mut " [.word "mut"] rfl (by decide)).append
      (printsAs_name (isWord_of_isDeclarable hName)).number.prints).imp ?_
    rintro _ ⟨_, _, rfl, rfl, rfl⟩
    exact ⟨_, ⟨_, .mutable hName⟩, rfl⟩
  | tupleStruct hLead hPath h ih =>
    obtain ⟨-, -, hExact⟩ := printed_of_typeForm hPath
    have hList := printsAs_commaList (pattern_docs_ne_nil ih.1) ih.2
    change PrintsAs (Pat.doc _) .number SaysPattern
    rw [Pat.doc, path_doc]
    refine (((((hExact rfl).append
      fun frame => prints_fixed frame .word "(" [.opening .parenthesis] rfl rfl).append hList.prints).append
      fun frame => prints_fixed frame .number ")" [.closing .parenthesis] rfl rfl).weaken .number).imp ?_
    rintro _ ⟨_, _, ⟨_, _, ⟨_, _, rfl, rfl, rfl⟩, hElements, rfl⟩, rfl, rfl⟩
    obtain ⟨qs, ⟨found, hForm⟩, rfl⟩ := saysElements_of_commas hElements
    exact ⟨_, ⟨_, .tupleStruct hLead hPath hForm⟩, by simp [lexemesOf_append]⟩
  | last h ih => exact ⟨List.cons_ne_nil _ _, List.forall_mem_singleton.mpr ih⟩
  | ended h ih => exact ⟨List.cons_ne_nil _ _, List.forall_mem_singleton.mpr ih⟩
  | cons h hRest ih ihRest => exact ⟨List.cons_ne_nil _ _, List.forall_mem_cons.mpr ⟨ih, ihRest.2⟩⟩

end ProtoBind.Source
