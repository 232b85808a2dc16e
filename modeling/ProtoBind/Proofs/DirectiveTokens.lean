import Mathlib.Data.List.TakeWhile
import Mathlib.Logic.Relation
import ProtoBind.Directive
import ProtoBind.Proofs.PathParts
import ProtoBind.Proofs.Pieces
import ProtoBind.Proofs.Tables

/-!
# Tokens of a directive line

A directive line is a map from keys to values, of which the last token with a key decides. All settings are read off
the map, so that lines with one map ask for the same, however they are written.
-/

set_option autoImplicit false

namespace ProtoBind

open Text Naming

/-! ### Tokens -/

/-- What a token says: it is a key and says nothing of it, or a colon ends the key, and the next one, or the token, the
value. -/
inductive Says : List Char → String → String → Prop
  | bare {key : List Char} (hKey : ':' ∉ key) : Says key (String.ofList key) ""
  | valued {key value rest : List Char} (hKey : ':' ∉ key) (hValue : ':' ∉ value)
      (hRest : rest = [] ∨ ∃ more, rest = ':' :: more) :
      Says (key ++ ':' :: (value ++ rest)) (String.ofList key) (String.ofList value)

theorem says_iff {token : List Char} {key value : String} :
    Says token key value ↔ directiveEntry token = (key, value) := by
  constructor
  · rintro (hKey | ⟨hKey, hValue, hRest⟩)
    · rw [directiveEntry, splitOnce_of_not_mem hKey]
    · rename_i key value rest
      have hFree : ∀ c ∈ value, (c != ':') = true := by
        rintro c hC
        rw [bne_iff_ne]
        rintro rfl
        exact hValue hC
      have hTake : (value ++ rest).takeWhile (· != ':') = value := by
        rw [List.takeWhile_append_of_pos hFree]
        rcases hRest with rfl | ⟨more, rfl⟩ <;> simp
      rw [directiveEntry, splitOnce_append hKey]
      dsimp only
      rw [hTake]
  · intro h
    by_cases hColon : ':' ∈ token
    · obtain ⟨front, back, rfl, hFront⟩ := List.eq_append_cons_of_mem hColon
      rw [directiveEntry, splitOnce_append hFront] at h
      cases h
      have hValue : ':' ∉ back.takeWhile (· != ':') := fun hMem => absurd (List.mem_takeWhile_imp hMem) (by simp)
      have hRest : back.dropWhile (· != ':') = [] ∨ ∃ more, back.dropWhile (· != ':') = ':' :: more := by
        cases hDrop : back.dropWhile (· != ':') with
        | nil => exact .inl rfl
        | cons c more =>
          have hHead := List.head?_dropWhile_not (· != ':') back
          rw [hDrop] at hHead
          exact .inr ⟨more, by rw [bne_eq_false_iff_eq.mp hHead]⟩
      have hSays := Says.valued hFront hValue hRest
      rwa [List.takeWhile_append_dropWhile] at hSays
    · rw [directiveEntry, splitOnce_of_not_mem hColon] at h
      cases h
      exact .bare hColon

/-- The tokens of a line: what stands between spaces, without the blanks around it, where that is anything. -/
def lineTokens (line : List Char) : List (List Char) := ((splitOn ' ' line).map trim).filter (· ≠ [])

def LastSays (line : List Char) (key value : String) : Prop :=
  ∃ front token back, lineTokens line = front ++ token :: back ∧ Says token key value ∧
    ∀ later ∈ back, ∀ other, ¬ Says later key other

/-- A piece of a line, without spaces in it, is a token with this key. -/
def HasKey (piece : List Char) (key : String) : Prop :=
  ' ' ∉ piece ∧ trim piece ≠ [] ∧ ∃ value, Says (trim piece) key value

def spaced (pieces : List (List Char)) : List Char := [' '].intercalate pieces

/-- One line becomes another that says the same of all keys but those that are ignored: by one more space, by two tokens
with different keys that change places, by a token in front of a later one with its key, or by a token with an ignored
key. -/
inductive Reworded (ignored : String → Prop) : List Char → List Char → Prop
  | space (front back : List (List Char)) : Reworded ignored (spaced (front ++ back)) (spaced (front ++ [] :: back))
  | swap {t u : List Char} {key other : String} (front back : List (List Char)) (hT : HasKey t key)
      (hU : HasKey u other) (hKeys : key ≠ other) :
      Reworded ignored (spaced (front ++ t :: u :: back)) (spaced (front ++ u :: t :: back))
  | earlier {t u : List Char} {key : String} (front between back : List (List Char)) (hT : HasKey t key)
      (hU : HasKey u key) :
      Reworded ignored (spaced (front ++ (between ++ u :: back))) (spaced (front ++ t :: (between ++ u :: back)))
  | unknown {t : List Char} {key : String} (front back : List (List Char)) (hT : HasKey t key)
      (hKey : ignored key) : Reworded ignored (spaced (front ++ back)) (spaced (front ++ t :: back))

/-! ### The entries of a line -/

theorem directiveEntries_eq (line : List Char) : directiveEntries line = (lineTokens line).map directiveEntry := rfl

theorem lineTokens_spaced (pieces : List (List Char)) : lineTokens (spaced pieces) = pieces.flatMap lineTokens := by
  cases pieces with
  | nil => rfl
  | cons first rest =>
    rw [lineTokens, spaced, splitOn_intercalate ' ' (List.cons_ne_nil first rest), List.map_flatMap,
        List.filter_flatMap]
    rfl

theorem directiveEntries_spaced (pieces : List (List Char)) :
    directiveEntries (spaced pieces) = pieces.flatMap directiveEntries := by
  rw [directiveEntries_eq, lineTokens_spaced, List.map_flatMap]
  rfl

theorem directiveEntries_of_hasKey {piece : List Char} {key : String} (h : HasKey piece key) :
    ∃ value, directiveEntries piece = [(key, value)] := by
  obtain ⟨hSpace, hSome, value, hSays⟩ := h
  refine ⟨value, ?_⟩
  rw [directiveEntries, splitOn_of_not_mem hSpace, List.map_singleton, List.filter_singleton, ← says_iff.mp hSays]
  simp [hSome]

theorem get?_entries_eq_some_iff {line : List Char} {key value : String} :
    (Table.ofList (directiveEntries line)).get? key = some value ↔ LastSays line key value := by
  rw [Table.get?_ofList_eq_some_iff, directiveEntries_eq]
  constructor
  · rintro ⟨front, back, hEntries, hBack⟩
    obtain ⟨before, behind, hTokens, -, hBehind⟩ := List.map_eq_append_iff.mp hEntries
    obtain ⟨token, after, rfl, hToken, rfl⟩ := List.map_eq_cons_iff.mp hBehind
    refine ⟨before, token, after, hTokens, says_iff.mpr hToken, ?_⟩
    intro later hLater other hSays
    exact hBack _ (List.mem_map_of_mem hLater) (congrArg Prod.fst (says_iff.mp hSays))
  · rintro ⟨front, token, back, hTokens, hSays, hBack⟩
    refine ⟨front.map directiveEntry, back.map directiveEntry, ?_, ?_⟩
    · rw [hTokens, List.map_append, List.map_cons, says_iff.mp hSays]
    · intro e hE
      obtain ⟨later, hLater, rfl⟩ := List.mem_map.mp hE
      rintro rfl
      exact hBack later hLater _ (says_iff.mpr rfl)

/-- A line that is worded otherwise says the same of every key that counts. -/
theorem get?_of_reworded {ignored : String → Prop} {line reworded : List Char} (h : Reworded ignored line reworded)
    {key : String} (hKey : ¬ ignored key) :
    (Table.ofList (directiveEntries line)).get? key = (Table.ofList (directiveEntries reworded)).get? key := by
  cases h with
  | space front back =>
    have hEmpty : directiveEntries [] = [] := rfl
    rw [directiveEntries_spaced, directiveEntries_spaced, List.flatMap_append, List.flatMap_append, List.flatMap_cons,
      hEmpty, List.nil_append]
  | swap front back hT hU hKeys =>
    -- Of the two entries at most one has the key that is looked up.
    obtain ⟨v, hV⟩ := directiveEntries_of_hasKey hT
    obtain ⟨w, hW⟩ := directiveEntries_of_hasKey hU
    simp only [directiveEntries_spaced, List.flatMap_append, List.flatMap_cons, hV, hW, Table.get?_ofList_append,
      Table.get?_ofList_singleton]
    congr 1
    rw [Option.or_assoc, Option.or_assoc]
    congr 1
    split
    · rename_i hOther
      rw [if_neg (hOther ▸ hKeys.symm)]
      rfl
    · exact Option.or_none.symm
  | earlier front between back hT hU =>
    obtain ⟨v, hV⟩ := directiveEntries_of_hasKey hT
    obtain ⟨w, hW⟩ := directiveEntries_of_hasKey hU
    simp only [directiveEntries_spaced, List.flatMap_append, List.flatMap_cons, hV, hW, Table.get?_ofList_append,
      Table.get?_ofList_singleton]
    congr 1
    split
    · rw [Option.or_assoc, Option.or_assoc, Option.or_assoc, Option.some_or, Option.some_or]
    · exact Option.or_none.symm
  | unknown front back hT hIgnored =>
    obtain ⟨v, hV⟩ := directiveEntries_of_hasKey hT
    simp only [directiveEntries_spaced, List.flatMap_append, List.flatMap_cons, hV, Table.get?_ofList_append,
      Table.get?_ofList_singleton]
    rename_i t other
    have hOther : key ≠ other := by
      rintro rfl
      exact hKey hIgnored
    rw [if_neg hOther, Option.or_none]

theorem get?_of_eqvGen {ignored : String → Prop} {line reworded : List Char}
    (h : Relation.EqvGen (Reworded ignored) line reworded) {key : String} (hKey : ¬ ignored key) :
    (Table.ofList (directiveEntries line)).get? key = (Table.ofList (directiveEntries reworded)).get? key := by
  induction h with
  | rel _ _ hStep => exact get?_of_reworded hStep hKey
  | refl _ => rfl
  | symm _ _ _ ih => exact ih.symm
  | trans _ _ _ _ _ ihFirst ihSecond => exact ihFirst.trans ihSecond

/-! ### Settings -/

namespace Directives

def knownKeys : List String := ["middleware", "bindcheck", "binding", "omitempty"]

def settings (d : Directives) : List String × Bool × Binding × Bool :=
  (d.middleware, d.bindcheck, d.binding, d.omitempty)

/-- What the settings say of the map that they come with. Letter case does not count. -/
structure SettingsRead (d : Directives) : Prop where
  middleware : ∀ names, d.get? "middleware" = some names → ∃ pieces : List String,
    names = ",".intercalate pieces ∧ (∀ piece ∈ pieces, ',' ∉ piece.toList) ∧ d.middleware = pieces.filter (· ≠ "")
  direct : d.get? "middleware" = none → d.middleware = []
  bindcheck : d.bindcheck = false ↔ ∃ value, d.get? "bindcheck" = some value ∧ lower value = "false"
  binding : ∀ b ≠ Binding.json,
    (d.binding = b ↔ ∃ value, d.get? "binding" = some value ∧ lower value = lower b.typeName)
  omitempty : d.omitempty = true ↔ ∀ value, d.get? "omitempty" = some value → lower value = "true"

def rawOf (comment : String) : Table String :=
  match directiveLine comment.toList with
  | none => .empty
  | some line => .ofList (directiveEntries line)

theorem parse_eq (comment : String) : parse comment = ofTable (rawOf comment) := by
  rw [parse, rawOf]
  cases directiveLine comment.toList with
  | none => rfl
  | some line => rfl

theorem settings_congr {s t : Table String} (h : ∀ key ∈ knownKeys, s.get? key = t.get? key) :
    (ofTable s).settings = (ofTable t).settings := by
  unfold settings ofTable
  dsimp only
  rw [h "middleware" (by decide), h "bindcheck" (by decide), h "binding" (by decide), h "omitempty" (by decide)]

theorem exists_pieces (names : String) : ∃ pieces : List String, names = ",".intercalate pieces ∧
    (∀ piece ∈ pieces, ',' ∉ piece.toList) ∧
      ((splitOn ',' names.toList).filter (· ≠ [])).map String.ofList = pieces.filter (· ≠ "") := by
  refine ⟨(splitOn ',' names.toList).map String.ofList, ?_, ?_, ?_⟩
  · rw [← String.toList_inj, String.toList_intercalate, List.map_map]
    have hSame : String.toList ∘ String.ofList = id := funext fun cs => String.toList_ofList
    rw [hSame, List.map_id]
    exact (intercalate_splitOn ',' names.toList).symm
  · rw [List.forall_mem_map]
    intro piece hPiece
    rw [String.toList_ofList]
    exact sep_not_mem_splitOn hPiece
  · have hEmpty : ∀ cs : List Char, String.ofList cs = "" ↔ cs = [] := by
      intro cs
      rw [← String.toList_eq_nil_iff, String.toList_ofList]
    rw [List.filter_map]
    congr 2
    funext cs
    exact decide_eq_decide.mpr (not_congr (hEmpty cs)).symm

theorem ofText_eq_iff {value : String} {b : Binding} (h : b ≠ .json) :
    Binding.ofText value = b ↔ lower value = lower b.typeName := by
  have hForm : lower "Form" = "form" := by decide
  have hQuery : lower "Query" = "query" := by decide
  have hPost : lower "FormPost" = "formpost" := by decide
  have hMultipart : lower "FormMultipart" = "formmultipart" := by decide
  unfold Binding.ofText
  dsimp only
  generalize lower value = text
  cases b with
  | json => exact absurd rfl h
  | form | query | formPost | formMultipart =>
    simp only [Binding.typeName, hForm, hQuery, hPost, hMultipart]
    split_ifs <;> simp_all

theorem settingsRead_ofTable (raw : Table String) : SettingsRead (ofTable raw) := by
  constructor
  case middleware =>
    intro names hNames
    change raw.get? "middleware" = some names at hNames
    simp only [ofTable, hNames]
    exact exists_pieces names
  case direct =>
    intro hNone
    change raw.get? "middleware" = none at hNone
    simp only [ofTable, hNone]
  case bindcheck =>
    change (ofTable raw).bindcheck = false ↔ ∃ value, raw.get? "bindcheck" = some value ∧ lower value = "false"
    unfold ofTable
    cases raw.get? "bindcheck" with
    | none => simp
    | some value => simp
  case binding =>
    intro b hJson
    change (ofTable raw).binding = b ↔ ∃ value, raw.get? "binding" = some value ∧ lower value = lower b.typeName
    unfold ofTable
    cases raw.get? "binding" with
    | none => simp [hJson.symm]
    | some value => simp [ofText_eq_iff hJson]
  case omitempty =>
    change (ofTable raw).omitempty = true ↔ ∀ value, raw.get? "omitempty" = some value → lower value = "true"
    unfold ofTable
    cases raw.get? "omitempty" with
    | none => simp
    | some value => simp

/-- The directives of a comment are the map that the tokens of its line make, the last one with a key deciding, and the
settings read off it. So they do not depend on how a line is worded, and the settings not on keys that are unknown. -/
theorem parse_tokens (comment : String) :
    (directiveLine comment.toList = none → ∀ key, (parse comment).get? key = none) ∧
    (∀ line, directiveLine comment.toList = some line → ∀ key value,
      ((parse comment).get? key = some value ↔ LastSays line key value)) ∧
    SettingsRead (parse comment) ∧
    ∀ other, ((∀ key, (parse comment).get? key = (parse other).get? key) → parse comment = parse other) ∧
      ((∀ key ∈ knownKeys, (parse comment).get? key = (parse other).get? key) →
        (parse comment).settings = (parse other).settings) ∧
      ∀ line reworded, directiveLine comment.toList = some line → directiveLine other.toList = some reworded →
        (Relation.EqvGen (Reworded fun _ => False) line reworded → parse comment = parse other) ∧
        (Relation.EqvGen (Reworded (· ∉ knownKeys)) line reworded →
          (parse comment).settings = (parse other).settings) := by
  have hGet : ∀ (text key : String), (parse text).get? key = (rawOf text).get? key := by
    intro text key
    rw [parse_eq]
    rfl
  have hLine : ∀ (text : String) line, directiveLine text.toList = some line →
      rawOf text = .ofList (directiveEntries line) := by
    intro text line hFound
    rw [rawOf, hFound]
  refine ⟨?_, ?_, ?_, fun other => ⟨?_, ?_, fun line reworded hFirst hSecond => ⟨?_, ?_⟩⟩⟩
  · intro hNone key
    rw [hGet, rawOf, hNone]
    rfl
  · intro line hFound key value
    rw [hGet, hLine comment line hFound]
    exact get?_entries_eq_some_iff
  · rw [parse_eq]
    exact settingsRead_ofTable _
  · intro hSame
    rw [parse_eq, parse_eq, Table.ext_get? fun key => (hGet comment key).symm.trans
        ((hSame key).trans (hGet other key))]
  · intro hSame
    rw [parse_eq, parse_eq]
    exact settings_congr fun key hKey => (hGet comment key).symm.trans ((hSame key hKey).trans (hGet other key))
  · intro hWords
    rw [parse_eq, parse_eq, hLine comment line hFirst, hLine other reworded hSecond,
      Table.ext_get? fun key => get?_of_eqvGen hWords not_false]
  · intro hWords
    rw [parse_eq, parse_eq, hLine comment line hFirst, hLine other reworded hSecond]
    exact settings_congr fun key hKey => get?_of_eqvGen hWords (not_not_intro hKey)

/-- Two comments with one map: a token is said twice in the first one, and the second has its tokens the other way
round. -/
theorem parse_tokens_reworded :
    directiveLine "@tag a:1 binding:form a:2:3".toList = some "a:1 binding:form a:2:3".toList ∧
      directiveLine "see @tagged\n@tag\ta:2:3  binding:form\r\n".toList = some "a:2:3  binding:form".toList ∧
      (parse "@tag a:1 binding:form a:2:3").get? "a" = some "2" ∧
      parse "@tag a:1 binding:form a:2:3" = parse "see @tagged\n@tag\ta:2:3  binding:form\r\n" := by
  have hFirst : directiveLine "@tag a:1 binding:form a:2:3".toList = some "a:1 binding:form a:2:3".toList := by decide
  have hSecond : directiveLine "see @tagged\n@tag\ta:2:3  binding:form\r\n".toList
      = some "a:2:3  binding:form".toList := by decide
  have hOld : HasKey "a:1".toList "a" := ⟨by decide, by decide, "1", says_iff.mpr (by decide)⟩
  have hNew : HasKey "a:2:3".toList "a" := ⟨by decide, by decide, "2", says_iff.mpr (by decide)⟩
  have hForm : HasKey "binding:form".toList "binding" := ⟨by decide, by decide, "form", says_iff.mpr (by decide)⟩
  have hWords : Relation.EqvGen (Reworded fun _ => False) "a:1 binding:form a:2:3".toList
      "a:2:3  binding:form".toList :=
    .trans _ _ _ (.symm _ _ (.rel _ _ (.earlier [] ["binding:form".toList] [] hOld hNew)))
      (.trans _ _ _ (.rel _ _ (.swap [] [] hForm hNew (by decide)))
      (.rel _ _ (.space ["a:2:3".toList] ["binding:form".toList])))
  obtain ⟨-, hMap, -, hOther⟩ := parse_tokens "@tag a:1 binding:form a:2:3"
  refine ⟨hFirst, hSecond, (hMap _ hFirst "a" "2").mpr ?_, ((hOther _).2.2 _ _ hFirst hSecond).1 hWords⟩
  exact ⟨["a:1".toList, "binding:form".toList], "a:2:3".toList, [], by decide, says_iff.mpr (by decide),
    fun later hLater => absurd hLater List.not_mem_nil⟩

end Directives

end ProtoBind
