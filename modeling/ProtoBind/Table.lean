/-!
# Tables

Finite maps from texts, kept in the order of their keys. One map has one table, so tables that answer
alike are equal.
-/

set_option autoImplicit false

namespace ProtoBind

/-- The entries with `key` sent to `value`, in the order of their keys. -/
def insertEntry {β : Type} (key : String) (value : β) : List (String × β) → List (String × β)
  | [] => [(key, value)]
  | (k, v) :: rest =>
    if key < k then (key, value) :: (k, v) :: rest
    else if key = k then (key, value) :: rest
    else (k, v) :: insertEntry key value rest

def entryAt? {β : Type} (key : String) : List (String × β) → Option β
  | [] => none
  | (k, v) :: rest => if key = k then some v else entryAt? key rest

theorem entryAt?_insertEntry {β : Type} (key other : String) (value : β)
    (entries : List (String × β)) :
    entryAt? other (insertEntry key value entries)
      = if other = key then some value else entryAt? other entries := by
  induction entries with
  | nil => simp [insertEntry, entryAt?]
  | cons head rest ih =>
    obtain ⟨k, v⟩ := head
    simp only [insertEntry]
    split
    · simp [entryAt?]
    · split
      · rename_i eq
        subst eq
        by_cases h : other = key <;> simp [entryAt?, h]
      · rename_i ne
        simp only [entryAt?, ih]
        by_cases h : other = k
        · subst h
          have differs : ¬other = key := fun e => ne e.symm
          simp [differs]
        · simp [h]

theorem mem_insertEntry {β : Type} {key : String} {value : β} {entries : List (String × β)}
    {e : String × β} (h : e ∈ insertEntry key value entries) : e = (key, value) ∨ e ∈ entries := by
  induction entries with
  | nil => simpa [insertEntry] using h
  | cons head rest ih =>
    obtain ⟨k, v⟩ := head
    simp only [insertEntry] at h
    split at h
    · simpa using h
    · split at h
      · rcases List.mem_cons.1 h with h | h
        · exact .inl h
        · exact .inr (List.mem_cons_of_mem _ h)
      · rcases List.mem_cons.1 h with h | h
        · exact .inr (h ▸ List.mem_cons_self)
        · exact (ih h).imp_right (List.mem_cons_of_mem _)

theorem pairwise_insertEntry {β : Type} (key : String) (value : β) {entries : List (String × β)}
    (h : entries.Pairwise fun a b => a.1 < b.1) :
    (insertEntry key value entries).Pairwise fun a b => a.1 < b.1 := by
  induction entries with
  | nil => simp [insertEntry]
  | cons head rest ih =>
    obtain ⟨k, v⟩ := head
    obtain ⟨above, tail⟩ := List.pairwise_cons.1 h
    simp only [insertEntry]
    split
    · rename_i lt
      refine List.pairwise_cons.2 ⟨fun e he => ?_, h⟩
      rcases List.mem_cons.1 he with rfl | he
      · exact lt
      · exact String.lt_trans lt (above e he)
    · split
      · rename_i eq
        exact List.pairwise_cons.2 ⟨fun e he => eq ▸ above e he, tail⟩
      · rename_i nlt ne
        refine List.pairwise_cons.2 ⟨fun e he => ?_, ih tail⟩
        rcases mem_insertEntry he with rfl | he
        · by_cases lt : k < key
          · exact lt
          · exact absurd (String.le_antisymm (String.not_lt.1 lt) (String.not_lt.1 nlt)) ne
        · exact above e he

structure Table (β : Type) where
  entries : List (String × β) := []
  ascending : entries.Pairwise (fun a b => a.1 < b.1) := by simp

namespace Table

variable {β : Type}

theorem ext {s t : Table β} (h : s.entries = t.entries) : s = t := by
  cases s
  cases t
  cases h
  rfl

def empty : Table β := {}

instance : Inhabited (Table β) := ⟨empty⟩

/-- The table with `key` sent to `value`, whatever it was sent to before. -/
def insert (t : Table β) (key : String) (value : β) : Table β :=
  ⟨insertEntry key value t.entries, pairwise_insertEntry key value t.ascending⟩

def get? (t : Table β) (key : String) : Option β := entryAt? key t.entries

/-- The table with the pairs of a list put in, the later ones over the earlier. -/
def insertAll (t : Table β) (pairs : List (String × β)) : Table β :=
  pairs.foldl (fun t pair => t.insert pair.1 pair.2) t

def ofList (pairs : List (String × β)) : Table β := empty.insertAll pairs

def toList (t : Table β) : List (String × β) := t.entries

theorem get?_empty (key : String) : (empty : Table β).get? key = none := rfl

theorem get?_insert (t : Table β) (key other : String) (value : β) :
    (t.insert key value).get? other = if other = key then some value else t.get? other :=
  entryAt?_insertEntry key other value t.entries

end Table

end ProtoBind
