import Mathlib.Data.List.Forall2
import Mathlib.Logic.Relation
import ProtoBind.Proofs.PathParts
import ProtoBind.Proofs.Pieces
import ProtoBind.Proofs.Tables
import ProtoBind.Settings

/-!
# Entries of a parameter string

A parameter string gives each key some values, one behind the other. Every setting is the last value of its own key, or
the last one that is not empty, and only the prefix of import paths looks at another setting, once all are known. So
the order of entries with different keys does not count, nor do entries with unknown keys.
-/

set_option autoImplicit false

namespace ProtoBind.Parameters

open Text

/-! ### Entries -/

/-- What an entry says: it is a key with an empty value, or its first equals sign parts the key from the value. -/
inductive Assigns : List Char → String × String → Prop
  | bare {key : List Char} (hKey : '=' ∉ key) : Assigns key (String.ofList key, "")
  | valued {key value : List Char} (hKey : '=' ∉ key) :
      Assigns (key ++ '=' :: value) (String.ofList key, String.ofList value)

/-- A text lists some items: one for each of the pieces that commas part it into. -/
def Lists (parameter : String) (items : List (String × String)) : Prop :=
  ∃ pieces ≠ [], parameter.toList = [','].intercalate pieces ∧ (∀ piece ∈ pieces, ',' ∉ piece) ∧
    List.Forall₂ Assigns pieces items

theorem assigns_iff {piece : List Char} {item : String × String} : Assigns piece item ↔ entry piece = item := by
  constructor
  · rintro (hKey | hKey)
    · rw [entry, splitOnce_of_not_mem hKey]
    · rw [entry, splitOnce_append hKey]
  · rintro rfl
    by_cases hSign : '=' ∈ piece
    · obtain ⟨key, value, rfl, hKey⟩ := List.eq_append_cons_of_mem hSign
      rw [entry, splitOnce_append hKey]
      exact .valued hKey
    · rw [entry, splitOnce_of_not_mem hSign]
      exact .bare hSign

theorem lists_iff {parameter : String} {items : List (String × String)} :
    Lists parameter items ↔ entries parameter = items := by
  constructor
  · rintro ⟨pieces, hSome, hText, hCommas, hItems⟩
    have hAlone : ∀ piece ∈ pieces, splitOn ',' piece = [piece] := fun piece hPiece =>
      splitOn_of_not_mem (hCommas piece hPiece)
    rw [entries, hText, splitOn_intercalate ',' hSome, List.flatMap_congr hAlone, List.flatMap_singleton']
    refine List.forall₂_eq_eq_eq.symm ▸ List.forall₂_map_left_iff.mpr ?_
    exact hItems.imp fun _ _ h => assigns_iff.mp h
  · rintro rfl
    refine ⟨splitOn ',' parameter.toList, splitOn_ne_nil _ _, (intercalate_splitOn _ _).symm,
      fun piece hPiece => sep_not_mem_splitOn hPiece, ?_⟩
    exact List.forall₂_map_right_iff.mpr (List.forall₂_same.mpr fun _ _ => assigns_iff.mpr rfl)

def valuesOf (key : String) (items : List (String × String)) : List String :=
  (items.filter fun item => item.1 = key).map (·.2)

theorem valuesOf_append (key : String) (front back : List (String × String)) :
    valuesOf key (front ++ back) = valuesOf key front ++ valuesOf key back := by
  rw [valuesOf, List.filter_append, List.map_append]
  rfl

theorem valuesOf_cons (key : String) (item : String × String) (items : List (String × String)) :
    valuesOf key (item :: items) = if item.1 = key then item.2 :: valuesOf key items else valuesOf key items := by
  unfold valuesOf
  by_cases h : item.1 = key <;> simp [h]

theorem getLast?_valuesOf_concat (key other value : String) (items : List (String × String)) :
    (valuesOf key (items ++ [(other, value)])).getLast?
      = if other = key then some value else (valuesOf key items).getLast? := by
  rw [valuesOf_append, valuesOf_cons]
  split
  · exact List.getLast?_concat
  · rw [show valuesOf key [] = [] from rfl, List.append_nil]

theorem getLastD_nonempty_concat (key other value default : String) (items : List (String × String)) :
    ((valuesOf key (items ++ [(other, value)])).filter (· ≠ "")).getLast?.getD default
      = if other = key ∧ value ≠ "" then value
        else ((valuesOf key items).filter (· ≠ "")).getLast?.getD default := by
  rw [valuesOf_append, valuesOf_cons, List.filter_append]
  by_cases hKey : other = key <;> by_cases hValue : value = "" <;> simp [hKey, hValue, valuesOf]

/-! ### What the entries come to -/

def pathsModes : List String := ["import", "source_relative"]

structure Settled (items : List (String × String)) (params : Parameters) : Prop where
  paths : params.paths = .sourceRelative ↔ (valuesOf "paths" items).getLast? = some "source_relative"
  repo : params.repo = ((valuesOf "repo" items).filter (· ≠ "")).getLast?.getD "crate"
  manifestDir : params.manifestDir = ((valuesOf "path" items).filter (· ≠ "")).getLast?.getD "."
  importPath : params.importPath = (valuesOf "import_path" items).getLast?.filter (· ≠ "")
  importMap : ∀ file, params.importMap.get? file = (valuesOf ("M" ++ file) items).getLast?
  importPrefix : params.importPrefix =
    ((valuesOf "import_prefix" items).getLast?.filter (· ≠ "")).getD (params.repo ++ "/")

/-- The state behind some entries: all is settled but the prefix, which waits for the last of them. -/
structure Read (items : List (String × String)) (state : Parameters × Option String) : Prop where
  settled : Settled items (state.1.withPrefix state.2)
  given : state.2 = (valuesOf "import_prefix" items).getLast?

section

variable (params : Parameters) (given : Option String)

theorem withPrefix_eq : params.withPrefix given
    = { params with importPrefix := (given.filter (· ≠ "")).getD (params.repo ++ "/") } := by
  rcases given with _ | given
  · rfl
  · by_cases hEmpty : given = ""
    · rw [hEmpty]
      rfl
    · rw [Option.filter_some_pos (by simpa using hEmpty), withPrefix]
      · rfl
      · simpa using hEmpty

/-- The import paths given file by file, with what an entry says of them. -/
def override (importMap : Table String) (key value : String) : Table String :=
  match key.toList with
  | 'M' :: file => importMap.insert (String.ofList file) value
  | _ => importMap

theorem get?_override (importMap : Table String) (key value file : String) :
    (override importMap key value).get? file = if key = "M" ++ file then some value else importMap.get? file := by
  have hKey : ∀ cs : List Char, key.toList = 'M' :: cs → (key = "M" ++ file ↔ file = String.ofList cs) := by
    intro cs hCs
    rw [← String.toList_inj, ← String.toList_inj, hCs, String.toList_append, String.toList_ofList, String.toList_ofList]
    change 'M' :: cs = 'M' :: file.toList ↔ file.toList = cs
    rw [List.cons_inj_right, eq_comm]
  unfold override
  split
  · rename_i cs hCs
    rw [Table.get?_insert, if_congr (hKey cs hCs) rfl rfl]
  · rename_i hNone
    rw [if_neg]
    rintro rfl
    exact hNone file.toList (String.toList_append)

/-- An entry changes what its key speaks of and leaves all else as it is. -/
theorem add_eq {key value : String} (h : key = "paths" → value ∈ pathsModes) : add (params, given) (key, value) = .ok
    ({ params with
        importPath := if key = "import_path" then if value = "" then none else some value else params.importPath
        paths := if key = "paths" then if value = "source_relative" then .sourceRelative else .byImport
          else params.paths
        repo := if key = "repo" ∧ value ≠ "" then value else params.repo
        manifestDir := if key = "path" ∧ value ≠ "" then value else params.manifestDir
        importMap := override params.importMap key value },
      if key = "import_prefix" then some value else given) := by
  -- The keys with a meaning of their own come first; any other one may still say the package of a file.
  by_cases hPrefix : key = "import_prefix"
  · subst hPrefix
    rfl
  by_cases hPath : key = "import_path"
  · subst hPath
    rfl
  by_cases hPaths : key = "paths"
  · subst hPaths
    obtain rfl | rfl : value = "import" ∨ value = "source_relative" := by simpa [pathsModes] using h rfl
    · rfl
    · rfl
  by_cases hRepo : key = "repo"
  · subst hRepo
    by_cases hEmpty : value = ""
    · subst hEmpty
      rfl
    · simp [add, hEmpty, override]
  by_cases hDirectory : key = "path"
  · subst hDirectory
    by_cases hEmpty : value = ""
    · subst hEmpty
      rfl
    · simp [add, hEmpty, override]
  · simp only [add, override, hPrefix, hPath, hPaths, hRepo, hDirectory, if_false, false_and]
    generalize key.toList = cs
    rcases cs with _ | ⟨c, file⟩
    · rfl
    · by_cases hLead : c = 'M'
      · subst hLead
        rfl
      · simp [hLead]

theorem add_invalid {value : String} (h : value ∉ pathsModes) :
    add (params, given) ("paths", value) = .error (.invalidPathType value) := by
  rw [pathsModes, List.mem_cons, List.mem_singleton, not_or] at h
  simp [add, h]

end

theorem read_nil : Read [] ({}, none) where
  settled := ⟨by decide, rfl, rfl, rfl, fun _ => rfl, rfl⟩
  given := rfl

section

variable {items : List (String × String)} {state next : Parameters × Option String} {key value : String}

/-- The prefix is the only setting that depends on another one, so that each is read off the values of its own key. -/
theorem Read.concat (h : Read items state) (hValid : key = "paths" → value ∈ pathsModes)
    (hAdd : add state (key, value) = .ok next) : Read (items ++ [(key, value)]) next := by
  obtain ⟨params, given⟩ := state
  obtain ⟨⟨hPaths, hRepo, hDirectory, hPath, hMap, -⟩, hGiven⟩ := h
  rw [withPrefix_eq] at hPaths hRepo hDirectory hPath hMap
  dsimp only at hPaths hRepo hDirectory hPath hMap hGiven
  rw [add_eq params given hValid] at hAdd
  cases hAdd
  have hLast : (if key = "import_prefix" then some value else given)
      = (valuesOf "import_prefix" (items ++ [(key, value)])).getLast? := by
    rw [getLast?_valuesOf_concat, hGiven]
  refine ⟨?_, hLast⟩
  rw [withPrefix_eq]
  dsimp only
  constructor
  case paths =>
    dsimp only
    rw [getLast?_valuesOf_concat]
    by_cases hKey : key = "paths"
    · rw [if_pos hKey, if_pos hKey]
      by_cases hValue : value = "source_relative" <;> simp [hValue]
    · rw [if_neg hKey, if_neg hKey]
      exact hPaths
  case repo =>
    dsimp only
    rw [getLastD_nonempty_concat, hRepo]
  case manifestDir =>
    dsimp only
    rw [getLastD_nonempty_concat, hDirectory]
  case importPath =>
    dsimp only
    rw [getLast?_valuesOf_concat, hPath]
    by_cases hKey : key = "import_path"
    · rw [if_pos hKey, if_pos hKey, Option.filter_some]
      by_cases hValue : value = "" <;> simp [hValue]
    · rw [if_neg hKey, if_neg hKey]
  case importMap =>
    intro file
    dsimp only
    rw [get?_override, getLast?_valuesOf_concat, hMap]
  case importPrefix =>
    dsimp only
    rw [hLast]

end

def firstInvalid (items : List (String × String)) : Option String :=
  (valuesOf "paths" items).find? (· ∉ pathsModes)

theorem firstInvalid_concat (items : List (String × String)) (key value : String) :
    firstInvalid (items ++ [(key, value)])
      = (firstInvalid items).or (if key = "paths" ∧ value ∉ pathsModes then some value else none) := by
  rw [firstInvalid, valuesOf_append, valuesOf_cons, List.find?_append]
  congr 1
  by_cases hKey : key = "paths" <;> by_cases hValue : value ∈ pathsModes <;> simp [hKey, hValue, valuesOf]

/-- Either all entries have been read, or the first that is invalid has ended the reading. -/
theorem foldlM_add (items : List (String × String)) :
    (firstInvalid items = none ∧ ∃ state, items.foldlM add ({}, none) = .ok state ∧ Read items state) ∨
      ∃ value, firstInvalid items = some value ∧ items.foldlM add ({}, none) = .error (.invalidPathType value) := by
  induction items using List.reverseRecOn with
  | nil => exact .inl ⟨rfl, _, rfl, read_nil⟩
  | append_singleton items item ih =>
    obtain ⟨key, value⟩ := item
    rw [firstInvalid_concat, List.foldlM_append]
    rcases ih with ⟨hNone, state, hFold, hRead⟩ | ⟨first, hFirst, hFold⟩
    · rw [hNone, hFold, Option.none_or]
      by_cases hInvalid : key = "paths" ∧ value ∉ pathsModes
      · right
        refine ⟨value, if_pos hInvalid, ?_⟩
        obtain ⟨rfl, hValue⟩ := hInvalid
        change (add state ("paths", value) >>= pure) = _
        rw [bind_pure]
        exact add_invalid state.1 state.2 hValue
      · left
        have hValid : key = "paths" → value ∈ pathsModes := fun hKey =>
          by_contra fun hValue => hInvalid ⟨hKey, hValue⟩
        have hAdd := add_eq state.1 state.2 hValid
        refine ⟨if_neg hInvalid, _, ?_, hRead.concat hValid hAdd⟩
        change (add state (key, value) >>= pure) = _
        rw [bind_pure]
        exact hAdd
    · right
      rw [hFirst, hFold, Option.some_or]
      exact ⟨first, rfl, rfl⟩

theorem Settled.eq {items : List (String × String)} {params other : Parameters} (h : Settled items params)
    (hOther : Settled items other) : params = other := by
  have hPaths : params.paths = other.paths := by
    have hSame := h.paths.trans hOther.paths.symm
    cases hFirst : params.paths <;> cases hSecond : other.paths <;> simp_all
  have hRepo : params.repo = other.repo := h.repo.trans hOther.repo.symm
  have hMap : params.importMap = other.importMap :=
    Table.ext_get? fun file => (h.importMap file).trans (hOther.importMap file).symm
  have hPrefix : params.importPrefix = other.importPrefix := by
    rw [h.importPrefix, hOther.importPrefix, hRepo]
  have hPath := h.importPath.trans hOther.importPath.symm
  have hDirectory := h.manifestDir.trans hOther.manifestDir.symm
  cases params
  cases other
  simp_all

theorem parse_error_iff {parameter : String} {e : Error} : parse parameter = .error e ↔
    ∃ value, firstInvalid (entries parameter) = some value ∧ e = .invalidPathType value := by
  rw [parse]
  rcases foldlM_add (entries parameter) with ⟨hNone, state, hFold, -⟩ | ⟨value, hValue, hFold⟩
  · rw [hFold, hNone]
    simp
  · rw [hFold, hValue]
    simp [eq_comm]

theorem parse_ok_iff {parameter : String} {params : Parameters} : parse parameter = .ok params ↔
    firstInvalid (entries parameter) = none ∧ Settled (entries parameter) params := by
  rw [parse]
  rcases foldlM_add (entries parameter) with ⟨hNone, state, hFold, hRead⟩ | ⟨value, hValue, hFold⟩
  · rw [hFold, hNone]
    constructor
    · intro h
      cases h
      exact ⟨rfl, hRead.settled⟩
    · rintro ⟨-, hSettled⟩
      exact congrArg Except.ok (hRead.settled.eq hSettled)
  · rw [hFold, hValue]
    simp

/-! ### Entries in another order -/

def IsKnown (key : String) : Prop :=
  key ∈ ["import_prefix", "import_path", "paths", "repo", "path"] ∨ ∃ file, key = "M" ++ file

/-- Some entries become others that give each known key the same values: two neighbours with different keys change
places, or an entry with an unknown key comes in. -/
inductive Rearranged : List (String × String) → List (String × String) → Prop
  | swap {first second : String × String} (front back : List (String × String)) (hKeys : first.1 ≠ second.1) :
      Rearranged (front ++ first :: second :: back) (front ++ second :: first :: back)
  | unknown {item : String × String} (front back : List (String × String)) (hKey : ¬ IsKnown item.1) :
      Rearranged (front ++ back) (front ++ item :: back)

theorem valuesOf_of_rearranged {items others : List (String × String)} (h : Rearranged items others) {key : String}
    (hKey : IsKnown key) : valuesOf key items = valuesOf key others := by
  cases h with
  | @swap first second front back hKeys =>
    simp only [valuesOf_append, valuesOf_cons]
    congr 1
    split
    · rename_i hFirst
      have hSecond : ¬ second.1 = key := fun hSecond => hKeys (hFirst.trans hSecond.symm)
      rw [if_neg hSecond, if_neg hSecond]
    · rfl
  | @unknown item front back hUnknown =>
    have hOther : ¬ item.1 = key := fun hSame => hUnknown (hSame ▸ hKey)
    rw [valuesOf_append, valuesOf_append, valuesOf_cons, if_neg hOther]

theorem valuesOf_of_eqvGen {items others : List (String × String)} (h : Relation.EqvGen Rearranged items others)
    {key : String} (hKey : IsKnown key) : valuesOf key items = valuesOf key others := by
  induction h with
  | rel _ _ hStep => exact valuesOf_of_rearranged hStep hKey
  | refl _ => rfl
  | symm _ _ _ ih => exact ih.symm
  | trans _ _ _ _ _ ihFirst ihSecond => exact ihFirst.trans ihSecond

theorem Settled.congr {items others : List (String × String)} {params : Parameters} (h : Settled items params)
    (hSame : ∀ key, IsKnown key → valuesOf key items = valuesOf key others) : Settled others params where
  paths := hSame "paths" (.inl (by decide)) ▸ h.paths
  repo := hSame "repo" (.inl (by decide)) ▸ h.repo
  manifestDir := hSame "path" (.inl (by decide)) ▸ h.manifestDir
  importPath := hSame "import_path" (.inl (by decide)) ▸ h.importPath
  importMap file := hSame _ (.inr ⟨file, rfl⟩) ▸ h.importMap file
  importPrefix := hSame "import_prefix" (.inl (by decide)) ▸ h.importPrefix

theorem parse_congr {parameter other : String}
    (hSame : ∀ key, IsKnown key → valuesOf key (entries parameter) = valuesOf key (entries other)) :
    parse parameter = parse other := by
  have hFirst : firstInvalid (entries parameter) = firstInvalid (entries other) := by
    rw [firstInvalid, hSame "paths" (.inl (by decide)), firstInvalid]
  cases hParse : parse other with
  | error e =>
    rw [parse_error_iff, hFirst]
    exact parse_error_iff.mp hParse
  | ok params =>
    obtain ⟨hNone, hSettled⟩ := parse_ok_iff.mp hParse
    rw [parse_ok_iff, hFirst]
    exact ⟨hNone, hSettled.congr fun key hKey => (hSame key hKey).symm⟩

/-- A parameter string is refused for its first way of naming files that there is none of, and else comes to what the
last values of its keys say. It comes to the same in any order of entries with different keys, and with any more
entries that have unknown keys. -/
theorem parse_last_values (parameter : String) :
    Lists parameter (entries parameter) ∧
    (∀ e, parse parameter = .error e ↔
      ∃ value, firstInvalid (entries parameter) = some value ∧ e = .invalidPathType value) ∧
    (∀ params, parse parameter = .ok params ↔
      firstInvalid (entries parameter) = none ∧ Settled (entries parameter) params) ∧
    ∀ other, Relation.EqvGen Rearranged (entries parameter) (entries other) → parse parameter = parse other :=
  ⟨lists_iff.mpr rfl, fun _ => parse_error_iff, fun _ => parse_ok_iff,
    fun _ hWords => parse_congr fun _ hKey => valuesOf_of_eqvGen hWords hKey⟩

/-- The prefix stands on one side of the repository that it comes of, then on the other, and an entry with an unknown
key goes. An empty directory does not count. -/
theorem parse_last_values_rearranged :
    Relation.EqvGen Rearranged (entries "import_prefix=,debug,repo=app,path=out,path=")
        (entries "repo=app,import_prefix,path=out,path=") ∧
      parse "import_prefix=,debug,repo=app,path=out,path=" = parse "repo=app,import_prefix,path=out,path=" ∧
      ∃ params, parse "repo=app,import_prefix,path=out,path=" = .ok params ∧ params.importPrefix = "app/" ∧
        params.manifestDir = "out" := by
  have hFirst : entries "import_prefix=,debug,repo=app,path=out,path="
      = [("import_prefix", ""), ("debug", ""), ("repo", "app"), ("path", "out"), ("path", "")] := by decide +kernel
  have hSecond : entries "repo=app,import_prefix,path=out,path="
      = [("repo", "app"), ("import_prefix", ""), ("path", "out"), ("path", "")] := by decide +kernel
  have hUnknown : ¬ IsKnown "debug" := by
    rintro (hNamed | ⟨file, hFile⟩)
    · exact absurd hNamed (by decide)
    · have hHead := congrArg (·.toList.head?) hFile
      simp at hHead
  have hWords : Relation.EqvGen Rearranged (entries "import_prefix=,debug,repo=app,path=out,path=")
      (entries "repo=app,import_prefix,path=out,path=") := by
    rw [hFirst, hSecond]
    refine .trans _ _ _ (.symm _ _ (.rel _ _ (.unknown [("import_prefix", "")] _ hUnknown))) ?_
    exact .rel _ _ (.swap [] _ (by decide))
  obtain ⟨-, -, -, hOrder⟩ := parse_last_values "repo=app,import_prefix,path=out,path="
  refine ⟨hWords, (hOrder _ (.symm _ _ hWords)).symm, _, rfl, rfl, rfl⟩

end ProtoBind.Parameters
