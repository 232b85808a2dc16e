import ProtoBind.Proofs.DelimitedRecords
import ProtoBind.Proofs.Stages
import ProtoBind.Run

/-!
# The second reading of a request

A request is read twice: as a whole, and once more for the rules of its methods, where the bytes of its
files are taken out, put together to a set of files, and read from there. Where the first reading
succeeds, the second one finds the same files.
-/

set_option autoImplicit false

namespace ProtoBind.Wire

/-- A decoder of nested messages that finds all that another one finds. -/
def Extends (wide narrow : Option (String → List Record → Option Fields)) : Prop :=
  ∀ decode, narrow = some decode → ∃ other, wide = some other ∧
    ∀ type records fields, decode type records = some fields → other type records = some fields

theorem scalarValues_message {field : Field} (h : (∃ type, field.kind = .message type) ∨
    ∃ type, field.kind = .group type) (payload : Payload) : scalarValues field payload = none := by
  unfold scalarValues
  rcases h with ⟨type, hKind⟩ | ⟨type, hKind⟩ <;> rw [hKind] <;> cases payload <;> rfl

theorem recordValues_mono {known : List Field} {leaf depth : Nat}
    {narrow wide : Option (String → List Record → Option Fields)} (hInner : Extends wide narrow)
    {record : Record} {fields : Fields} (h : recordValues known leaf depth narrow record = some fields) :
    recordValues known leaf (depth + 1) wide record = some fields := by
  obtain ⟨number, payload⟩ := record
  unfold recordValues at h ⊢
  dsimp only at h ⊢
  cases hField : known.find? (·.number == number) with
  | none =>
    -- A field that is not known only has to be nested no deeper than the limit.
    rw [hField] at h
    dsimp only at h ⊢
    split at h
    · rename_i hDepth
      rw [if_pos (Nat.le_succ_of_le hDepth)]
      exact h
    · cases h
  | some field =>
    rw [hField] at h
    dsimp only at h ⊢
    split at h
    · rename_i type content decode hKind
      obtain ⟨other, rfl, hOther⟩ := hInner decode rfl
      rw [hKind]
      dsimp only
      cases hScan : scan content with
      | none => rw [hScan] at h; cases h
      | some records =>
        rw [hScan] at h
        cases hDecode : decode type records with
        | none => simp only [Option.bind_eq_bind, Option.bind, hDecode] at h; cases h
        | some inner =>
          simp only [Option.bind_eq_bind, Option.bind, hDecode] at h
          simp only [Option.bind_eq_bind, Option.bind, hOther type records inner hDecode]
          exact h
    · rename_i type records decode hKind
      obtain ⟨other, rfl, hOther⟩ := hInner decode rfl
      rw [hKind]
      dsimp only
      cases hDecode : decode type records with
      | none => simp only [Option.bind_eq_bind, Option.bind, hDecode] at h; cases h
      | some inner =>
        simp only [Option.bind_eq_bind, Option.bind, hDecode] at h
        simp only [Option.bind_eq_bind, Option.bind, hOther type records inner hDecode]
        exact h
    · -- A scalar is read alike whatever messages may follow.
      split
      · have hKind : ∃ type, field.kind = .message type := ⟨_, by assumption⟩
        rw [scalarValues_message (.inl hKind)] at h
        cases h
      · have hKind : ∃ type, field.kind = .group type := ⟨_, by assumption⟩
        rw [scalarValues_message (.inr hKind)] at h
        cases h
      · exact h

theorem fst_of_recordValues {known : List Field} {leaf depth : Nat}
    {inner : Option (String → List Record → Option Fields)} {record : Record} {fields : Fields}
    (h : recordValues known leaf depth inner record = some fields) :
    ∀ entry ∈ fields, entry.1 = record.1 := by
  obtain ⟨number, payload⟩ := record
  unfold recordValues at h
  dsimp only at h ⊢
  split at h
  · split at h
    · cases h
      simp
    · cases h
  · split at h
    · obtain ⟨_, _, hRest⟩ := Option.bind_eq_some_iff.mp h
      obtain ⟨_, _, hResult⟩ := Option.bind_eq_some_iff.mp hRest
      cases hResult
      simp
    · obtain ⟨_, _, hResult⟩ := Option.bind_eq_some_iff.mp h
      cases hResult
      simp
    · obtain ⟨values, _, rfl⟩ := Option.map_eq_some_iff.mp h
      intro entry hEntry
      obtain ⟨value, _, rfl⟩ := List.mem_map.mp hEntry
      rfl

theorem values_of_fst_ne {fields : Fields} {number other : Nat} (hNumber : number ≠ other)
    (h : ∀ entry ∈ fields, entry.1 = number) : fields.values other = [] := by
  rw [Fields.values, List.map_eq_nil_iff, List.filter_eq_nil_iff]
  intro entry hEntry
  rw [h entry hEntry]
  simpa using hNumber

theorem mapM_mono {α β : Type} {f g : α → Option β}
    (h : ∀ a b, f a = some b → g a = some b) {as : List α} {bs : List β}
    (hRun : as.mapM f = some bs) : as.mapM g = some bs := by
  induction as generalizing bs with
  | nil => exact hRun
  | cons a as ih =>
    rw [List.mapM_cons] at hRun ⊢
    obtain ⟨b, hHead, hRest⟩ := Option.bind_eq_some_iff.mp hRun
    obtain ⟨rest, hTail, hResult⟩ := Option.bind_eq_some_iff.mp hRest
    rw [h a b hHead]
    exact Option.bind_eq_some_iff.mpr ⟨b, rfl, Option.bind_eq_some_iff.mpr ⟨rest, ih hTail, hResult⟩⟩

theorem decodeFields_zero (types : Types) (leaf : Nat) (type : String) (records : List Record) :
    decodeFields types leaf 0 type records
      = (records.mapM (recordValues (types type) leaf 0 none)).map List.flatten := rfl

theorem decodeFields_succ (types : Types) (leaf depth : Nat) (type : String) (records : List Record) :
    decodeFields types leaf (depth + 1) type records
      = (records.mapM (recordValues (types type) leaf (depth + 1)
        (some (decodeFields types leaf depth)))).map List.flatten := rfl

theorem decodeFields_mono {types : Types} {leaf depth : Nat} {type : String} {records : List Record}
    {fields : Fields} (h : decodeFields types leaf depth type records = some fields) :
    decodeFields types leaf (depth + 1) type records = some fields := by
  induction depth generalizing type records fields with
  | zero =>
    rw [decodeFields_zero] at h
    rw [decodeFields_succ]
    obtain ⟨values, hValues, hFlat⟩ := Option.map_eq_some_iff.mp h
    refine Option.map_eq_some_iff.mpr ⟨values, mapM_mono ?_ hValues, hFlat⟩
    intro record found hFound
    refine recordValues_mono ?_ hFound
    rintro decode ⟨⟩
  | succ depth ih =>
    rw [decodeFields_succ] at h ⊢
    obtain ⟨values, hValues, hFlat⟩ := Option.map_eq_some_iff.mp h
    refine Option.map_eq_some_iff.mpr ⟨values, mapM_mono ?_ hValues, hFlat⟩
    intro record found hFound
    refine recordValues_mono ?_ hFound
    rintro decode ⟨⟩
    exact ⟨_, rfl, fun _ _ _ hInner => ih hInner⟩

end ProtoBind.Wire

namespace ProtoBind

open Wire Http

namespace Request

/-- Bytes that are a file where they stand in a message of a request or of a set of files. -/
def NestedFile (content : Bytes) (file : FileDecl) : Prop :=
  content.length < 2 ^ 64 ∧ ∃ records fields, scan content = some records ∧
    decodeFields Schema.types 1 99 "FileDescriptorProto" records = some fields ∧ file = .ofFields fields

/-- How the two readings of a record of a request may differ: the second keeps the bytes of a file. -/
def SameRecord (typed raw : Fields) : Prop :=
  (typed.messages 15 = [] ∧ raw.byteStrings 15 = []) ∨
    ∃ content fields, typed.messages 15 = [fields] ∧ raw.byteStrings 15 = [content] ∧
      NestedFile content (.ofFields fields)

/-- A file that can stand in a message can stand alone. -/
theorem NestedFile.decode {content : Bytes} {file : FileDecl} (h : NestedFile content file) :
    FileDecl.decode content = some file := by
  obtain ⟨-, records, fields, hScan, hFields, rfl⟩ := h
  have hMore := decodeFields_mono hFields
  rw [FileDecl.decode, decodeMessage, hScan]
  exact congrArg (Option.map FileDecl.ofFields) hMore

theorem find?_types (number : Nat) :
    (Schema.types "CodeGeneratorRequest").find? (·.number == number)
      = if number = 1 then some (Schema.many 1 .string)
        else if number = 2 then some (Schema.one 2 .string)
        else if number = 15 then some (Schema.many 15 (.message "FileDescriptorProto"))
        else if number = 3 then some (Schema.one 3 (.message "Version"))
        else none := by
  change [Schema.many 1 .string, Schema.one 2 .string, Schema.many 15 (.message "FileDescriptorProto"),
    Schema.one 3 (.message "Version")].find? (·.number == number) = _
  simp only [Schema.many, Schema.one, List.find?_cons, List.find?_nil]
  repeat' split
  all_goals simp_all

theorem find?_rawTypes (number : Nat) :
    (Schema.rawTypes "CodeGeneratorRequest").find? (·.number == number)
      = if number = 15 then some (Schema.many 15 .bytes) else none := by
  by_cases hNumber : number = 15
  · rw [if_pos hNumber, hNumber]
    rfl
  · rw [if_neg hNumber]
    simp [Schema.rawTypes, Schema.many, Ne.symm hNumber]

/-- A record that the first reading takes holds no groups deeper than the second one allows. -/
theorem depth_of_recordValues {number : Nat} {payload : Payload} {typed : Fields}
    (hNumber : number ≠ 15)
    (h : recordValues (Schema.types "CodeGeneratorRequest") 1 100
      (some (decodeFields Schema.types 1 99)) (number, payload) = some typed) :
    payload.depth 1 ≤ 100 := by
  cases payload with
  | varint n | fixed64 content | delimited content | fixed32 content =>
    rw [Payload.depth]
    · decide
    · rintro records ⟨⟩
  | group records =>
    by_cases hText : number = 1 ∨ number = 2 ∨ number = 3
    · -- The known fields of a request hold no groups.
      rcases hText with rfl | rfl | rfl <;> cases h
    · rw [not_or, not_or] at hText
      obtain ⟨hOne, hTwo, hThree⟩ := hText
      unfold recordValues at h
      dsimp only at h
      rw [find?_types, if_neg hOne, if_neg hTwo, if_neg hNumber, if_neg hThree] at h
      dsimp only at h
      split at h
      · rename_i hDepth
        exact hDepth
      · cases h

theorem values_of_file {payload : Payload} {typed : Fields}
    (h : recordValues (Schema.types "CodeGeneratorRequest") 1 100
      (some (decodeFields Schema.types 1 99)) (15, payload) = some typed) :
    ∃ content records fields, payload = .delimited content ∧ scan content = some records ∧
      decodeFields Schema.types 1 99 "FileDescriptorProto" records = some fields ∧
      typed = [(15, .message content fields)] := by
  cases payload with
  | delimited content =>
    obtain ⟨records, hScan, hRest⟩ := Option.bind_eq_some_iff.mp h
    obtain ⟨fields, hFields, hResult⟩ := Option.bind_eq_some_iff.mp hRest
    cases hResult
    exact ⟨content, records, fields, rfl, hScan, hFields, rfl⟩
  | varint n | fixed64 content | fixed32 content | group records => cases h

/-- Whatever stands in a record of a request, the second reading passes over it unless it is a file. -/
theorem sameRecord_of_recordValues {record : Record} {typed : Fields} (hFits : Fits record)
    (h : recordValues (Schema.types "CodeGeneratorRequest") 1 100
      (some (decodeFields Schema.types 1 99)) record = some typed) :
    ∃ raw, recordValues (Schema.rawTypes "CodeGeneratorRequest") 1 100
      (some (decodeFields Schema.rawTypes 1 99)) record = some raw ∧ SameRecord typed raw := by
  obtain ⟨number, payload⟩ := record
  by_cases hFile : number = 15
  · subst hFile
    obtain ⟨content, records, fields, rfl, hScan, hFields, rfl⟩ := values_of_file h
    exact ⟨[(15, .bytes content)], rfl,
      .inr ⟨content, fields, rfl, rfl, hFits content rfl, records, fields, hScan, hFields, rfl⟩⟩
  · have hDepth := depth_of_recordValues hFile h
    have hTyped := values_of_fst_ne hFile (fst_of_recordValues h)
    have hRaw : recordValues (Schema.rawTypes "CodeGeneratorRequest") 1 100
        (some (decodeFields Schema.rawTypes 1 99)) (number, payload)
        = some [(number, .unknown payload)] := by
      unfold recordValues
      dsimp only
      rw [find?_rawTypes, if_neg hFile]
      exact if_pos hDepth
    refine ⟨_, hRaw, .inl ⟨?_, ?_⟩⟩
    · rw [Fields.messages, hTyped]
      rfl
    · rw [Fields.byteStrings, values_of_fst_ne hFile (fst_of_recordValues hRaw)]
      rfl

theorem values_append (front back : Fields) (number : Nat) :
    Fields.values (front ++ back) number = front.values number ++ back.values number := by
  rw [Fields.values, List.filter_append, List.map_append]
  rfl

theorem messages_cons (first : Fields) (rest : List Fields) (number : Nat) :
    Fields.messages (first :: rest).flatten number
      = first.messages number ++ Fields.messages rest.flatten number := by
  rw [List.flatten_cons, Fields.messages, values_append, List.filterMap_append]
  rfl

theorem byteStrings_cons (first : Fields) (rest : List Fields) (number : Nat) :
    Fields.byteStrings (first :: rest).flatten number
      = first.byteStrings number ++ Fields.byteStrings rest.flatten number := by
  rw [List.flatten_cons, Fields.byteStrings, values_append, List.filterMap_append]
  rfl

theorem nestedFiles_of_records {records : List Record} (hFits : ∀ record ∈ records, Fits record)
    {typed : List Fields}
    (h : records.mapM (recordValues (Schema.types "CodeGeneratorRequest") 1 100
      (some (decodeFields Schema.types 1 99))) = some typed) :
    ∃ raw, records.mapM (recordValues (Schema.rawTypes "CodeGeneratorRequest") 1 100
      (some (decodeFields Schema.rawTypes 1 99))) = some raw ∧
      List.Forall₂ NestedFile (Fields.byteStrings raw.flatten 15)
        ((Fields.messages typed.flatten 15).map .ofFields) := by
  induction records generalizing typed with
  | nil =>
    cases h
    exact ⟨[], rfl, .nil⟩
  | cons record records ih =>
    rw [List.mapM_cons] at h
    obtain ⟨first, hFirst, hRest⟩ := Option.bind_eq_some_iff.mp h
    obtain ⟨rest, hTail, hResult⟩ := Option.bind_eq_some_iff.mp hRest
    cases hResult
    obtain ⟨raw, hRaw, hSame⟩ := sameRecord_of_recordValues (hFits record List.mem_cons_self) hFirst
    obtain ⟨more, hMore, hFiles⟩ := ih (fun other hOther => hFits other (List.mem_cons_of_mem _ hOther)) hTail
    refine ⟨raw :: more, ?_, ?_⟩
    · rw [List.mapM_cons, hRaw, hMore]
      rfl
    · rw [messages_cons, byteStrings_cons]
      rcases hSame with ⟨hNone, hEmpty⟩ | ⟨content, fields, hOne, hBytes, hFile⟩
      · rw [hNone, hEmpty]
        exact hFiles
      · rw [hOne, hBytes]
        exact .cons hFile hFiles

/-- The second reading takes out the bytes of the files that the first one finds. -/
theorem rawFiles_of_decode {bytes : Bytes} {request : Request} (h : decode bytes = .ok request) :
    ∃ contents, rawFiles bytes = .ok contents ∧ List.Forall₂ NestedFile contents request.files := by
  unfold decode at h
  split at h
  · rename_i fields hDecode
    cases h
    obtain ⟨records, hScan, hFields⟩ := Option.bind_eq_some_iff.mp hDecode
    obtain ⟨typed, hTyped, rfl⟩ := Option.map_eq_some_iff.mp hFields
    obtain ⟨raw, hRaw, hFiles⟩ := nestedFiles_of_records (fits_of_scan hScan) hTyped
    have hSecond : decodeMessage Schema.rawTypes 1 "CodeGeneratorRequest" bytes = some raw.flatten := by
      rw [decodeMessage, hScan]
      exact Option.map_eq_some_iff.mpr ⟨raw, hRaw, rfl⟩
    refine ⟨Fields.byteStrings raw.flatten 15, ?_, hFiles⟩
    rw [rawFiles, hSecond]
  · cases h

end Request

/-! ### Sets of files -/

namespace FileSet

theorem scan_encode {contents : List Bytes} (h : ∀ content ∈ contents, content.length < 2 ^ 64) :
    scan (encode contents) = some (contents.map fun content => (1, .delimited content)) :=
  scan_delimited (by decide) (by decide) h

/-- Files put together to a set keep their bytes. -/
theorem rawFiles_encode {contents : List Bytes} (h : ∀ content ∈ contents, content.length < 2 ^ 64) :
    rawFiles (encode contents) = some contents := by
  have hValues : (contents.map fun content => ((1, .delimited content) : Record)).mapM
      (recordValues (Schema.rawTypes "FileDescriptorSet") 1 100 (some (decodeFields Schema.rawTypes 1 99)))
        = some (contents.map fun content => [(1, .bytes content)]) := by
    clear h
    induction contents with
    | nil => rfl
    | cons content rest ih =>
      rw [List.map_cons, List.mapM_cons, ih]
      rfl
  have hFields : decodeMessage Schema.rawTypes 1 "FileDescriptorSet" (encode contents)
      = some (contents.map fun content => [(1, .bytes content)]).flatten := by
    rw [decodeMessage, scan_encode h]
    exact Option.map_eq_some_iff.mpr ⟨_, hValues, rfl⟩
  rw [rawFiles, hFields, Option.map_some]
  congr 1
  clear h hValues hFields
  induction contents with
  | nil => rfl
  | cons content rest ih =>
    rw [List.map_cons, Request.byteStrings_cons, ih]
    rfl

theorem fields_of_nestedFiles {contents : List Bytes} {files : List FileDecl}
    (h : List.Forall₂ Request.NestedFile contents files) :
    ∃ typed, (contents.map fun content => ((1, .delimited content) : Record)).mapM
      (recordValues (Schema.types "FileDescriptorSet") 1 100 (some (decodeFields Schema.types 1 99)))
        = some typed ∧ (Fields.messages typed.flatten 1).map FileDecl.ofFields = files := by
  induction h with
  | nil => exact ⟨[], rfl, rfl⟩
  | @cons content file contents files hHead _ ih =>
    obtain ⟨-, records, fields, hScan, hFields, rfl⟩ := hHead
    obtain ⟨typed, hTyped, hFiles⟩ := ih
    have hFirst : recordValues (Schema.types "FileDescriptorSet") 1 100
        (some (decodeFields Schema.types 1 99)) (1, .delimited content)
          = some [(1, .message content fields)] :=
      Option.bind_eq_some_iff.mpr ⟨records, hScan, Option.bind_eq_some_iff.mpr ⟨fields, hFields, rfl⟩⟩
    refine ⟨[(1, .message content fields)] :: typed, ?_, ?_⟩
    · rw [List.map_cons, List.mapM_cons, hFirst, hTyped]
      rfl
    · rw [Request.messages_cons, List.map_append, hFiles]
      rfl

/-- Files put together to a set are read from there as they are read from the request. -/
theorem decode_encode {contents : List Bytes} {files : List FileDecl}
    (h : List.Forall₂ Request.NestedFile contents files) : decode (encode contents) = some files := by
  have hFits : ∀ content ∈ contents, content.length < 2 ^ 64 := by
    intro content hContent
    obtain ⟨file, -, hFile⟩ := exists_of_forall₂_right h.flip content hContent
    exact hFile.1
  obtain ⟨typed, hTyped, hFiles⟩ := fields_of_nestedFiles h
  have hFields : decodeMessage Schema.types 1 "FileDescriptorSet" (encode contents) = some typed.flatten := by
    rw [decodeMessage, scan_encode hFits]
    exact Option.map_eq_some_iff.mpr ⟨typed, hTyped, rfl⟩
  rw [decode, hFields, Option.map_some, hFiles]

end FileSet

namespace Request

/-- The files that the second reading finds are those of the first one. -/
theorem decodeFiles_of_decode {bytes : Bytes} {request : Request} (h : decode bytes = .ok request) :
    (rawFiles bytes >>= decodeFiles) = .ok request.files := by
  obtain ⟨contents, hRaw, hFiles⟩ := rawFiles_of_decode h
  rw [hRaw]
  change decodeFiles contents = _
  rw [decodeFiles, FileSet.decode_encode hFiles]

end Request

def Project.ofRequest (request : Request) (config : Config) : Except Error Project := do
  let (graph, index) ← Graph.prepare request.files request.filesToGenerate config.params
  let rules ← Pool.link request.files >>= Pool.rules
  return { graph, index, rules, config }

/-- The bytes of a request matter for nothing but the request in them. -/
theorem Project.ofBytes_eq (bytes : Bytes) (config : Config) :
    Project.ofBytes bytes config
      = Request.decode bytes >>= fun request => Project.ofRequest request config := by
  unfold Project.ofBytes
  cases hRequest : Request.decode bytes with
  | error e => rfl
  | ok request =>
    have hRules : Rules.ofRequest bytes = (Pool.link request.files >>= Pool.rules) := by
      have hFiles := Request.decodeFiles_of_decode hRequest
      have hAssoc : Rules.ofRequest bytes
          = ((Request.rawFiles bytes >>= decodeFiles) >>= fun files => Pool.link files >>= Pool.rules) := by
        unfold Rules.ofRequest
        cases Request.rawFiles bytes <;> rfl
      rw [hAssoc, hFiles]
      rfl
    change (Graph.prepare request.files request.filesToGenerate config.params >>= _) = _
    rw [hRules]
    rfl

end ProtoBind
