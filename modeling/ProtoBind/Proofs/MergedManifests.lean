import Mathlib.Data.List.Pairwise
import ProtoBind.Proofs.AllOrNothing
import ProtoBind.Proofs.ManifestObjects
import ProtoBind.Proofs.Tables

/-!
# Merged manifests

A save puts the entries of a manifest over those that the manifest file holds. Saves that follow each
other come to one write of what all of them make of the first file, so a save that is made again changes
nothing, and saves with different keys may come in any order.
-/

set_option autoImplicit false

namespace ProtoBind

open Text Wire

/-! ### Texts -/

theorem Wire.ofUtf8?_utf8 (text : String) : ofUtf8? (utf8 text) = some text := dif_pos text.isValidUTF8

theorem Wire.eq_utf8_of_ofUtf8? {bytes : Bytes} {text : String} (h : ofUtf8? bytes = some text) :
    bytes = utf8 text := by
  unfold ofUtf8? String.fromUTF8? at h
  split at h
  · cases h
    rfl
  · cases h

theorem Text.trim_eq_nil_iff {cs : List Char} : trim cs = [] ↔ ∀ c ∈ cs, isBlank c = true := by
  have hEnd : trim cs = [] ↔ ∀ c ∈ trimStart cs, isBlank c = true := by
    rw [trim, dropEndWhile, List.reverse_eq_nil_iff, List.dropWhile_eq_nil_iff]
    simp
  rw [hEnd, trimStart]
  constructor
  · intro h c hMem
    rw [← @List.takeWhile_append_dropWhile _ isBlank cs, List.mem_append] at hMem
    exact hMem.elim List.mem_takeWhile_imp (h c)
  · intro h c hMem
    exact h c ((List.dropWhile_sublist isBlank).mem hMem)

namespace Manifest

theorem get?_mergeInto (manifest : Manifest) (table : Table String) (key : String) :
    (manifest.mergeInto table).get? key = (manifest.entries.get? key).or (table.get? key) :=
  Table.get?_insertAll_toList table manifest.entries key

theorem mergeInto_mergeInto (manifest : Manifest) (table : Table String) :
    manifest.mergeInto (manifest.mergeInto table) = manifest.mergeInto table := by
  refine Table.ext_get? fun key => ?_
  rw [get?_mergeInto, get?_mergeInto, ← Option.or_assoc, Option.or_self]

def Apart (a b : Manifest) : Prop := ∀ e ∈ a.entries.toList, ∀ f ∈ b.entries.toList, e.1 ≠ f.1

theorem Apart.symm {a b : Manifest} (h : Apart a b) : Apart b a := fun e hE f hF => (h f hF e hE).symm

theorem Apart.mergeInto_comm {a b : Manifest} (h : Apart a b) (table : Table String) :
    a.mergeInto (b.mergeInto table) = b.mergeInto (a.mergeInto table) := by
  refine Table.ext_get? fun key => ?_
  rw [get?_mergeInto, get?_mergeInto, get?_mergeInto, get?_mergeInto, ← Option.or_assoc, ← Option.or_assoc]
  cases hA : a.entries.get? key with
  | none => rw [Option.none_or, Option.or_none]
  | some value =>
    cases hB : b.entries.get? key with
    | none => rw [Option.none_or, Option.or_none]
    | some other =>
      exact absurd rfl (h (key, value) (Table.get?_eq_some_iff.mp hA) (key, other)
        (Table.get?_eq_some_iff.mp hB))

/-- A table with the entries of manifests over its own, those of the later ones over those of the earlier. -/
def mergeAll (manifests : List Manifest) (table : Table String) : Table String :=
  manifests.foldl (fun table manifest => manifest.mergeInto table) table

theorem mergeAll_perm {front back : List Manifest} (hPerm : front.Perm back) (hApart : front.Pairwise Apart)
    (table : Table String) : mergeAll front table = mergeAll back table := by
  let Commute (a b : Manifest) : Prop := ∀ table, b.mergeInto (a.mergeInto table) = a.mergeInto (b.mergeInto table)
  have hSymm : Std.Symm Commute := ⟨fun a b h table => (h table).symm⟩
  have hPairs : front.Pairwise Commute := hApart.imp fun h table => h.symm.mergeInto_comm table
  refine hPerm.foldl_eq' ?_ table
  intro a hA b hB
  exact hPairs.forall_of_forall (fun a _ table => rfl) hA hB

/-! ### What a file holds -/

/-- The table that a manifest file was found to hold: none of the entries if it is missing or blank, and
otherwise the members of the object in it. -/
inductive Holds : Except FileFault Bytes → Table String → Prop where
  | absent : Holds (.error .notFound) .empty
  | blank {text : String} (h : ∀ c ∈ text.toList, isBlank c = true) : Holds (.ok (utf8 text)) .empty
  | object {text : String} {members : List (String × String)} (h : ManifestText.IsObject text.toList members) :
      Holds (.ok (utf8 text)) (.ofList members)

theorem exists_not_blank {cs : List Char} {members : List (String × String)}
    (h : ManifestText.IsObject cs members) : ¬ ∀ c ∈ cs, isBlank c = true := by
  intro hBlank
  cases h with
  | empty hBefore hInside hAfter => exact absurd (hBlank '\x7b' (by simp)) (by decide)
  | filled hBefore hLead hInside hAfter => exact absurd (hBlank '\x7b' (by simp)) (by decide)

/-- A manifest file is read where it holds a table, and nowhere else. -/
theorem readFile_eq_ok_iff {path : String} {found : Except FileFault Bytes} {table : Table String} :
    readFile path found = .ok table ↔ Holds found table := by
  constructor
  · intro h
    unfold readFile at h
    split at h
    · cases h
      exact .absent
    · cases h
    · split at h
      · cases h
      · rename_i text hText
        obtain rfl := eq_utf8_of_ofUtf8? hText
        unfold readText at h
        split at h
        · rename_i hTrim
          cases h
          exact .blank (trim_eq_nil_iff.mp hTrim)
        · split at h
          · rename_i read hRead
            cases h
            obtain ⟨members, hObject, rfl⟩ := ManifestText.exists_isObject hRead
            exact .object hObject
          · cases h
  · intro h
    cases h with
    | absent => rfl
    | blank h =>
      simp only [readFile, ofUtf8?_utf8]
      exact if_pos (trim_eq_nil_iff.mpr h)
    | object h =>
      simp only [readFile, ofUtf8?_utf8, readText]
      rw [if_neg fun hTrim => exists_not_blank h (trim_eq_nil_iff.mp hTrim),
        ManifestText.read?_of_isObject h]

def bytesOf (table : Table String) : Bytes := utf8 (String.ofList (ManifestText.write table))

theorem holds_bytesOf (table : Table String) : Holds (.ok (bytesOf table)) table := by
  have hObject : ManifestText.IsObject (String.ofList (ManifestText.write table)).toList table.toList := by
    rw [String.toList_ofList]
    exact ManifestText.isObject_write table
  have hTable : Table.ofList table.toList = table := by
    refine Table.ext_get? fun key => ?_
    exact Table.get?_ofList table.nodup_keys key
  have hHolds := Holds.object hObject
  rwa [hTable] at hHolds

end Manifest

/-! ### Writes on a disk -/

namespace Disk

theorem put_put (disk : Disk) (place : Place) (first second : Node) :
    (disk.put place first).put place second = disk.put place second := by
  simp [put, List.filter_filter]

theorem write_of_locate {disk : Disk} {path : String} {place : Place} (hPlace : disk.locate path = .ok place)
    (hNode : disk.node? place ≠ some .folder) (content : Bytes) :
    disk.write path content = .ok (disk.put place (.file content)) := by
  unfold write
  rw [hPlace]
  simp only [bind, Except.bind]

/-- Behind one write, a second one to the same path does what it would have done without the first. -/
theorem write_write {disk changed : Disk} {path : String} {first : Bytes}
    (h : disk.write path first = .ok changed) (second : Bytes) :
    changed.write path second = disk.write path second := by
  obtain ⟨place, hPlace, hNode, rfl⟩ := write_spec h
  have hOther : (disk.put place (.file first)).node? place ≠ some .folder := by
    rw [node?_put fun e => hNode (by rw [e]; rfl), if_pos rfl]
    exact fun h => nomatch h
  rw [write_of_locate (locate_put hPlace hNode _) hOther, write_of_locate hPlace hNode, put_put]

/-- What is written does not matter to whether it can be. -/
theorem write_error {disk : Disk} {path : String} {first : Bytes} {fault : FileFault}
    (h : disk.write path first = .error fault) (second : Bytes) : disk.write path second = .error fault := by
  unfold write at h ⊢
  cases hPlace : disk.locate path with
  | error other => rw [hPlace] at h; exact h
  | ok place =>
    rw [hPlace] at h
    simp only [bind, Except.bind] at h ⊢
    split at h
    · exact h
    · cases h

end Disk

/-! ### Saves -/

namespace Manifest

def keep (dir : String) (table : Table String) (disk : Disk) : Except Error Unit × Disk :=
  match disk.write (fileIn dir) (bytesOf table) with
  | .error fault => (.error (.manifestAccess (fileIn dir) fault), disk)
  | .ok changed => (.ok (), changed)

variable {dir : String} {disk : Disk} {manifest : Manifest}

theorem keep_error {content : Bytes} {fault : FileFault} (h : disk.write (fileIn dir) content = .error fault)
    (table : Table String) : keep dir table disk = (.error (.manifestAccess (fileIn dir) fault), disk) := by
  rw [keep, Disk.write_error h]

theorem keep_ok {table : Table String} {changed : Disk}
    (h : disk.write (fileIn dir) (bytesOf table) = .ok changed) : keep dir table disk = (.ok (), changed) := by
  rw [keep, h]

theorem keep_keep {first : Table String} {changed : Disk} (h : keep dir first disk = (.ok (), changed))
    (second : Table String) : keep dir second changed = keep dir second disk := by
  cases hWrite : disk.write (fileIn dir) (bytesOf first) with
  | error fault =>
    rw [keep_error hWrite] at h
    cases h
  | ok written =>
    rw [keep_ok hWrite] at h
    cases h
    have hSecond := Disk.write_write hWrite (bytesOf second)
    cases hOther : disk.write (fileIn dir) (bytesOf second) with
    | error fault =>
      rw [Disk.write_error hOther] at hWrite
      cases hWrite
    | ok other => rw [keep_ok hOther, keep_ok (hSecond.trans hOther)]

theorem save_of_empty (h : manifest.entries.toList = []) : manifest.save Disk.store dir disk = (.ok (), disk) := by
  rw [save_store, if_pos (List.isEmpty_iff.mpr h)]

/-- A save where the file holds a table writes that table with the entries over it. -/
theorem save_of_holds {old : Table String} (hEntries : manifest.entries.toList ≠ [])
    (hOld : Holds (disk.read (fileIn dir)) old) :
    manifest.save Disk.store dir disk = keep dir (manifest.mergeInto old) disk := by
  rw [save_store, if_neg fun h => hEntries (List.isEmpty_iff.mp h), merged, readFile_eq_ok_iff.mpr hOld]
  rfl

/-- A save where the file holds no table fails, and the disk stays as it was. -/
theorem save_of_not_holds (hEntries : manifest.entries.toList ≠ [])
    (hNone : ∀ old, ¬ Holds (disk.read (fileIn dir)) old) :
    ∃ e, readFile (fileIn dir) (disk.read (fileIn dir)) = .error e ∧
      manifest.save Disk.store dir disk = (.error e, disk) := by
  cases hRead : readFile (fileIn dir) (disk.read (fileIn dir)) with
  | ok old => exact absurd (readFile_eq_ok_iff.mp hRead) (hNone old)
  | error e =>
    refine ⟨e, rfl, ?_⟩
    rw [save_store, if_neg fun h => hEntries (List.isEmpty_iff.mp h), merged, hRead]
    rfl

/-- Saves manifests one behind the other into the file of a folder, up to the first that fails. -/
def saveAll (dir : String) : List Manifest → Disk → Except Error Unit × Disk
  | [], disk => (.ok (), disk)
  | manifest :: rest, disk =>
    match manifest.save Disk.store dir disk with
    | (.error e, changed) => (.error e, changed)
    | (.ok (), changed) => saveAll dir rest changed

/-- A series of saves where the file holds a table is one write of that table with the entries of all of
them over it. -/
theorem saveAll_of_holds {manifests : List Manifest} {old : Table String}
    (hEntries : ∀ manifest ∈ manifests, manifest.entries.toList ≠ [])
    (hOld : Holds (disk.read (fileIn dir)) old) (hSome : manifests ≠ []) :
    saveAll dir manifests disk = keep dir (mergeAll manifests old) disk := by
  induction manifests generalizing disk old with
  | nil => exact absurd rfl hSome
  | cons manifest rest ih =>
    rw [List.forall_mem_cons] at hEntries
    rw [saveAll, save_of_holds hEntries.1 hOld]
    cases hWrite : disk.write (fileIn dir) (bytesOf (manifest.mergeInto old)) with
    | error fault => rw [keep_error hWrite, keep_error hWrite]
    | ok changed =>
      have hKeep := keep_ok hWrite
      rw [hKeep]
      dsimp only
      rw [← keep_keep hKeep]
      cases rest with
      | nil => exact ((keep_keep hKeep _).trans hKeep).symm
      | cons next rest =>
        have hNow : Holds (changed.read (fileIn dir)) (manifest.mergeInto old) := by
          rw [Disk.read_of_write hWrite]
          exact holds_bytesOf _
        exact ih hEntries.2 hNow (List.cons_ne_nil next rest)

/-- Saves of manifests without entries do nothing. -/
theorem saveAll_filter (manifests : List Manifest) (disk : Disk) :
    saveAll dir (manifests.filter fun manifest => !manifest.entries.toList.isEmpty) disk
      = saveAll dir manifests disk := by
  induction manifests generalizing disk with
  | nil => rfl
  | cons manifest rest ih =>
    cases hEmpty : manifest.entries.toList.isEmpty with
    | true =>
      rw [List.filter_cons_of_neg (by simp [hEmpty]), ih, saveAll,
        save_of_empty (List.isEmpty_iff.mp hEmpty)]
    | false =>
      rw [List.filter_cons_of_pos (by simp [hEmpty]), saveAll, saveAll]
      split
      · rfl
      · exact ih _

theorem saveAll_perm_of_entries {front back : List Manifest} (hPerm : front.Perm back)
    (hApart : front.Pairwise Apart) (hEntries : ∀ manifest ∈ front, manifest.entries.toList ≠ [])
    (disk : Disk) : saveAll dir front disk = saveAll dir back disk := by
  cases front with
  | nil => rw [List.nil_perm.mp hPerm]
  | cons first rest =>
    cases back with
    | nil => exact absurd hPerm.eq_nil (List.cons_ne_nil first rest)
    | cons other more =>
      have hOthers : ∀ manifest ∈ other :: more, manifest.entries.toList ≠ [] :=
        fun manifest hMem => hEntries manifest (hPerm.mem_iff.mpr hMem)
      by_cases hHolds : ∃ old, Holds (disk.read (fileIn dir)) old
      · obtain ⟨old, hOld⟩ := hHolds
        rw [saveAll_of_holds hEntries hOld (List.cons_ne_nil first rest),
          saveAll_of_holds hOthers hOld (List.cons_ne_nil other more), mergeAll_perm hPerm hApart]
      · rw [not_exists] at hHolds
        obtain ⟨e, hRead, hFirst⟩ := save_of_not_holds (hEntries first List.mem_cons_self) hHolds
        obtain ⟨e', hRead', hOther⟩ := save_of_not_holds (hOthers other List.mem_cons_self) hHolds
        obtain rfl : e = e' := Except.error.inj (hRead.symm.trans hRead')
        rw [saveAll, saveAll, hFirst, hOther]

/-- Saves with different keys may come in any order. -/
theorem saveAll_perm {front back : List Manifest} (hPerm : front.Perm back) (hApart : front.Pairwise Apart)
    (disk : Disk) : saveAll dir front disk = saveAll dir back disk := by
  rw [← saveAll_filter front, ← saveAll_filter back]
  refine saveAll_perm_of_entries (hPerm.filter _) (hApart.filter _) ?_ disk
  intro manifest hMem hNil
  rw [List.mem_filter, hNil] at hMem
  exact absurd hMem.2 (by decide)

/-- How a disk is after a manifest was saved where the file held a table. -/
structure Saved (dir : String) (manifest : Manifest) (old : Table String) (before after : Disk) : Prop where
  /-- The file is an object with ascending keys that is read back as the old table with the entries over it. -/
  merged : ∃ table text, after.read (fileIn dir) = .ok (utf8 text) ∧
    ManifestText.IsObject text.toList table.toList ∧ (table.toList.map (·.1)).Pairwise (· < ·) ∧
    readFile (fileIn dir) (after.read (fileIn dir)) = .ok table ∧
    ∀ key, table.get? key = (manifest.entries.get? key).or (old.get? key)
  /-- No other place has changed. -/
  place : ∃ place, before.locate (fileIn dir) = .ok place ∧ Disk.SameBut place before after
  /-- To save once more changes nothing. -/
  again : manifest.save Disk.store dir after = (.ok (), after)

theorem locate_of_holds {old : Table String} (hOld : Holds (disk.read (fileIn dir)) old) {fault : FileFault}
    (h : disk.write (fileIn dir) (bytesOf old) = .error fault) : disk.locate (fileIn dir) = .error fault := by
  cases hPlace : disk.locate (fileIn dir) with
  | error other =>
    rw [Disk.write, hPlace] at h
    cases h
    rfl
  | ok place =>
    have hNode : disk.node? place ≠ some .folder := by
      intro hFolder
      have hRead : disk.read (fileIn dir) = .error .isDirectory := by
        rw [Disk.read, hPlace]
        simp only [bind, Except.bind, hFolder]
      rw [hRead] at hOld
      cases hOld
    rw [Disk.write_of_locate hPlace hNode] at h
    cases h

theorem saved_of_write {old : Table String} {after : Disk} (hEntries : manifest.entries.toList ≠ [])
    (h : disk.write (fileIn dir) (bytesOf (manifest.mergeInto old)) = .ok after) :
    Saved dir manifest old disk after := by
  have hRead := Disk.read_of_write h
  have hNow : Holds (after.read (fileIn dir)) (manifest.mergeInto old) := by
    rw [hRead]
    exact holds_bytesOf _
  refine ⟨⟨manifest.mergeInto old, _, hRead, ?_, ?_, readFile_eq_ok_iff.mpr hNow, get?_mergeInto manifest old⟩,
    Disk.sameBut_of_write h, ?_⟩
  · rw [String.toList_ofList]
    exact ManifestText.isObject_write _
  · rw [List.pairwise_map]
    exact (manifest.mergeInto old).ascending
  · rw [save_of_holds hEntries hNow, mergeInto_mergeInto]
    exact (keep_keep (keep_ok h) _).trans (keep_ok h)

/-- A save merges. Where the file is missing or blank or an object of strings, it comes to hold the old
members with the entries over them, unless no file can be there; in all other cases the save fails and the
disk stays as it was. Saves with different keys do the same in any order. -/
theorem save_merges (dir : String) (before : Disk) :
    (∀ (manifest : Manifest) old, manifest.entries.toList ≠ [] → Holds (before.read (fileIn dir)) old →
      (∃ after, manifest.save Disk.store dir before = (.ok (), after) ∧ Saved dir manifest old before after) ∨
      ∃ fault, before.locate (fileIn dir) = .error fault ∧
        manifest.save Disk.store dir before = (.error (.manifestAccess (fileIn dir) fault), before)) ∧
    (∀ manifest : Manifest, manifest.entries.toList ≠ [] → (∀ old, ¬ Holds (before.read (fileIn dir)) old) →
      ∃ e, manifest.save Disk.store dir before = (.error e, before)) ∧
    ∀ front back, front.Perm back → front.Pairwise Apart →
      saveAll dir front before = saveAll dir back before := by
  refine ⟨?_, ?_, fun front back hPerm hApart => saveAll_perm hPerm hApart before⟩
  · intro manifest old hEntries hOld
    rw [save_of_holds hEntries hOld]
    cases hWrite : before.write (fileIn dir) (bytesOf (manifest.mergeInto old)) with
    | ok after => exact .inl ⟨after, keep_ok hWrite, saved_of_write hEntries hWrite⟩
    | error fault =>
      exact .inr ⟨fault, locate_of_holds hOld (Disk.write_error hWrite _), keep_error hWrite _⟩
  · intro manifest hEntries hNone
    obtain ⟨e, -, hSave⟩ := save_of_not_holds hEntries hNone
    exact ⟨e, hSave⟩

instance (a b : Manifest) : Decidable (Apart a b) :=
  inferInstanceAs (Decidable (∀ e ∈ a.entries.toList, ∀ f ∈ b.entries.toList, e.1 ≠ f.1))

/-- A folder whose manifest has an entry for one service, and manifests for two other ones. -/
def listedFolder : Disk := ⟨[(["handler.json"], .file (bytesOf (.ofList [("b/S", "b")])))]⟩

def oneService : Manifest := Manifest.add {} "a" "T"

def otherService : Manifest := Manifest.add {} "c" "T"

theorem save_merges_listedFolder : oneService.entries.toList ≠ [] ∧
    Holds (listedFolder.read (fileIn ".")) (.ofList [("b/S", "b")]) ∧
    (∃ after, oneService.save Disk.store "." listedFolder = (.ok (), after) ∧
      Saved "." oneService (.ofList [("b/S", "b")]) listedFolder after) ∧
    saveAll "." [oneService, otherService] listedFolder = saveAll "." [otherService, oneService] listedFolder := by
  have hEntries : oneService.entries.toList ≠ [] := by decide
  have hHolds : Holds (listedFolder.read (fileIn ".")) (.ofList [("b/S", "b")]) := holds_bytesOf _
  obtain ⟨hMerges, -, hPerm⟩ := save_merges "." listedFolder
  have hApart : Apart oneService otherService := by decide
  refine ⟨hEntries, hHolds, ?_, hPerm _ _ (List.Perm.swap _ _ _) (List.pairwise_pair.mpr hApart)⟩
  rcases hMerges oneService _ hEntries hHolds with hSaved | ⟨fault, hFault, -⟩
  · exact hSaved
  · have hPlace : listedFolder.locate (fileIn ".") = .ok ["handler.json"] := rfl
    rw [hPlace] at hFault
    cases hFault

end Manifest

end ProtoBind
