import ProtoBind.Graph.Arena

/-!
# Nesting in arenas

The entries that a message adds to an arena lie side by side, its own first, and stand in each other as
the messages are nested.
-/

set_option autoImplicit false

namespace ProtoBind

/-- The places from the `n`-th on of the elements with a property. -/
def placesWhere {α : Type} (p : α → Bool) : Nat → List α → List Nat
  | _, [] => []
  | n, a :: as => if p a then n :: placesWhere p (n + 1) as else placesWhere p (n + 1) as

theorem placesWhere_append {α : Type} (p : α → Bool) (n : Nat) (as bs : List α) :
    placesWhere p n (as ++ bs) = placesWhere p n as ++ placesWhere p (n + as.length) bs := by
  induction as generalizing n with
  | nil => rfl
  | cons a as ih =>
    rw [List.cons_append, placesWhere, placesWhere, ih, List.length_cons, Nat.add_right_comm n 1,
      Nat.add_assoc]
    split <;> rfl

theorem placesWhere_eq_nil {α : Type} {p : α → Bool} {as : List α} (h : ∀ a ∈ as, p a = false) (n : Nat) :
    placesWhere p n as = [] := by
  induction as generalizing n with
  | nil => rfl
  | cons a as ih =>
    rw [placesWhere, h a List.mem_cons_self, ih fun b hB => h b (List.mem_cons_of_mem _ hB)]
    rfl

theorem placesWhere_eq_range' {α : Type} {p : α → Bool} {as : List α} (h : ∀ a ∈ as, p a = true)
    (n : Nat) : placesWhere p n as = List.range' n as.length := by
  induction as generalizing n with
  | nil => rfl
  | cons a as ih =>
    rw [placesWhere, h a List.mem_cons_self, ih fun b hB => h b (List.mem_cons_of_mem _ hB)]
    rfl

theorem filter_range'_eq {α : Type} {p : α → Bool} {f : Nat → Bool} {as : List α} {n : Nat}
    (h : ∀ k a, as[k]? = some a → f (n + k) = p a) :
    (List.range' n as.length).filter f = placesWhere p n as := by
  induction as generalizing n with
  | nil => rfl
  | cons a as ih =>
    have hHead : f n = p a := h 0 a rfl
    rw [List.length_cons, List.range'_succ, List.filter_cons, hHead, placesWhere, ih]
    intro k b hB
    rw [Nat.add_assoc, Nat.add_comm 1 k]
    exact h (k + 1) b hB

theorem length_placesWhere {α : Type} (p : α → Bool) (n : Nat) (as : List α) :
    (placesWhere p n as).length = (as.filter p).length := by
  induction as generalizing n with
  | nil => rfl
  | cons a as ih =>
    rw [placesWhere, List.filter_cons]
    split
    · rw [List.length_cons, List.length_cons, ih]
    · exact ih (n + 1)

/-- What stands at the places of the elements with a property, behind others. -/
theorem map_getElem?_placesWhere {α : Type} (p : α → Bool) (front as : List α) :
    (placesWhere p front.length as).map ((front ++ as)[·]?) = (as.filter p).map some := by
  induction as generalizing front with
  | nil => rfl
  | cons a as ih =>
    have hRest := ih (front ++ [a])
    rw [List.append_assoc, List.length_append, List.length_singleton] at hRest
    rw [placesWhere, List.filter_cons]
    split
    · rw [List.map_cons, List.map_cons, List.getElem?_append_right (Nat.le_refl _), Nat.sub_self,
        ← hRest]
      rfl
    · exact hRest

namespace MessageDecl

mutual

/-- A message, followed by all that are nested in it, each before those nested in it. -/
def preorder : MessageDecl → List MessageDecl
  | .mk name fields nested enums oneofs extensions extensionRanges reservedRanges mapEntry deprecated
      options =>
    .mk name fields nested enums oneofs extensions extensionRanges reservedRanges mapEntry deprecated
      options :: preorders nested

def preorders : List MessageDecl → List MessageDecl
  | [] => []
  | message :: rest => message.preorder ++ preorders rest

end

theorem preorder_eq (m : MessageDecl) : m.preorder = m :: preorders m.nested := by
  cases m
  rw [preorder]
  rfl

end MessageDecl

namespace Arena

/-! ### What a message adds -/

def under (package : String) (file : Nat) (outer : Option (Nat × MessageEntry)) (i : Nat)
    (decl : MessageDecl) : MessageEntry :=
  match outer with
  | none => .outermost file i decl
  | some (place, entry) => entry.within package file place i decl

mutual

def block (package : String) (file : Nat) (outer : Option (Nat × MessageEntry)) (i n : Nat) :
    MessageDecl → List MessageEntry
  | .mk name fields nested enums oneofs extensions extensionRanges reservedRanges mapEntry deprecated
      options =>
    let entry := under package file outer i (.mk name fields nested enums oneofs extensions
      extensionRanges reservedRanges mapEntry deprecated options)
    entry :: blocks package file (some (n, entry)) 0 (n + 1) nested

/-- The entries that messages side by side add behind `n` others. -/
def blocks (package : String) (file : Nat) (outer : Option (Nat × MessageEntry)) (i n : Nat) :
    List MessageDecl → List MessageEntry
  | [] => []
  | message :: rest =>
    block package file outer i n message ++
      blocks package file outer (i + 1) (n + (block package file outer i n message).length) rest

end

theorem block_eq (package : String) (file : Nat) (outer : Option (Nat × MessageEntry)) (i n : Nat)
    (m : MessageDecl) :
    block package file outer i n m = under package file outer i m ::
      blocks package file (some (n, under package file outer i m)) 0 (n + 1) m.nested := by
  cases m
  rw [block]
  rfl

/-- The message around others is the one at its place, if there is one. -/
def Around (entries : List MessageEntry) (outer : Option (Nat × MessageEntry)) : Prop :=
  ∀ place entry, outer = some (place, entry) → entries[place]? = some entry

theorem Around.append {entries : List MessageEntry} {outer : Option (Nat × MessageEntry)}
    (h : Around entries outer) (more : List MessageEntry) : Around (entries ++ more) outer := by
  intro place entry hOuter
  have hPlace := h place entry hOuter
  rw [List.getElem?_append_left (List.getElem?_eq_some_iff.mp hPlace).1, hPlace]

theorem around_last (entries : List MessageEntry) (entry : MessageEntry) :
    Around (entries ++ [entry]) (some (entries.length, entry)) := by
  rintro place other ⟨⟩
  exact List.getElem?_concat_length

theorem entryOf_eq {entries : List MessageEntry} {outer : Option (Nat × MessageEntry)}
    (h : Around entries outer) (package : String) (file i : Nat) (m : MessageDecl) :
    entryOf entries package file (outer.map (·.1)) i m = under package file outer i m := by
  cases outer with
  | none => rfl
  | some place => simp [entryOf, under, h place.1 place.2 rfl]

mutual

/-- A message adds its block, and the places of that. -/
theorem addMessage_eq (package : String) (file : Nat) : ∀ (m : MessageDecl) (entries : List MessageEntry)
    (outer : Option (Nat × MessageEntry)) (i : Nat), Around entries outer →
    addMessage package file (outer.map (·.1)) i entries m =
      (entries ++ block package file outer i entries.length m,
        List.range' entries.length (block package file outer i entries.length m).length)
  | .mk name fields nested enums oneofs extensions extensionRanges reservedRanges mapEntry deprecated
      options, entries, outer, i, h => by
    rw [addMessage, block, entryOf_eq h]
    generalize under package file outer i _ = entry
    have hNested := addMessages_eq package file nested _ _ 0 (around_last entries entry)
    rw [Option.map_some, List.length_append, List.length_singleton] at hNested
    rw [hNested, List.append_assoc]
    rfl

theorem addMessages_eq (package : String) (file : Nat) : ∀ (ms : List MessageDecl)
    (entries : List MessageEntry) (outer : Option (Nat × MessageEntry)) (i : Nat),
    Around entries outer →
    addMessages package file (outer.map (·.1)) i entries ms =
      (entries ++ blocks package file outer i entries.length ms,
        List.range' entries.length (blocks package file outer i entries.length ms).length)
  | [], entries, outer, i, _ => by
    rw [addMessages, blocks, List.append_nil]
    rfl
  | m :: rest, entries, outer, i, h => by
    rw [addMessages, addMessage_eq package file m entries outer i h]
    dsimp only
    rw [addMessages_eq package file rest _ outer (i + 1) (h.append _), blocks, List.append_assoc,
      List.length_append, List.length_append, ← List.range'_append_1]

end

/-- A parent that stands in front of `n` entries, as far as there is one. -/
def Below (n : Nat) (outer : Option (Nat × MessageEntry)) : Prop :=
  ∀ place entry, outer = some (place, entry) → place < n

theorem Below.mono {n k : Nat} {outer : Option (Nat × MessageEntry)} (h : Below n outer) (hLe : n ≤ k) :
    Below k outer := fun place entry hOuter => Nat.lt_of_lt_of_le (h place entry hOuter) hLe

theorem parent_under (package : String) (file : Nat) (outer : Option (Nat × MessageEntry)) (i : Nat)
    (m : MessageDecl) : (under package file outer i m).parent = outer.map (·.1) := by
  cases outer <;> rfl

theorem decl_under (package : String) (file : Nat) (outer : Option (Nat × MessageEntry)) (i : Nat)
    (m : MessageDecl) : (under package file outer i m).decl = m := by
  cases outer <;> rfl

/-- The parent of an entry among those added behind `n` others: the one around all of them, or one of
them. -/
def ParentIn (outer : Option (Nat × MessageEntry)) (n length : Nat) (entry : MessageEntry) : Prop :=
  entry.parent = outer.map (·.1) ∨ ∃ place, entry.parent = some place ∧ n ≤ place ∧ place < n + length

/-- How an entry stands among those added behind `n` others: in what is around all of them, or in one of
them. -/
def StandsIn (package : String) (file : Nat) (outer : Option (Nat × MessageEntry)) (n : Nat)
    (added : List MessageEntry) (entry : MessageEntry) : Prop :=
  ∃ around i, entry = under package file around i entry.decl ∧
    (around = outer ∨ ∃ k other, around = some (n + k, other) ∧ added[k]? = some other)

mutual

theorem standsIn_block (package : String) (file : Nat) : ∀ (m : MessageDecl)
    (outer : Option (Nat × MessageEntry)) (i n : Nat), ∀ entry ∈ block package file outer i n m,
    StandsIn package file outer n (block package file outer i n m) entry
  | .mk name fields nested enums oneofs extensions extensionRanges reservedRanges mapEntry deprecated
      options, outer, i, n, entry, hEntry => by
    rw [block] at hEntry ⊢
    rcases List.mem_cons.mp hEntry with rfl | hEntry
    · exact ⟨outer, i, by rw [decl_under], .inl rfl⟩
    · obtain ⟨around, j, hEq, hAround⟩ := standsIn_blocks package file nested _ 0 (n + 1) entry hEntry
      refine ⟨around, j, hEq, .inr ?_⟩
      rcases hAround with rfl | ⟨k, other, rfl, hOther⟩
      · exact ⟨0, _, rfl, rfl⟩
      · exact ⟨k + 1, other, by rw [Nat.add_assoc, Nat.add_comm 1], hOther⟩

theorem standsIn_blocks (package : String) (file : Nat) : ∀ (ms : List MessageDecl)
    (outer : Option (Nat × MessageEntry)) (i n : Nat), ∀ entry ∈ blocks package file outer i n ms,
    StandsIn package file outer n (blocks package file outer i n ms) entry
  | m :: rest, outer, i, n, entry, hEntry => by
    rw [blocks] at hEntry ⊢
    rcases List.mem_append.mp hEntry with hEntry | hEntry
    · obtain ⟨around, j, hEq, hAround⟩ := standsIn_block package file m outer i n entry hEntry
      refine ⟨around, j, hEq, hAround.imp_right ?_⟩
      rintro ⟨k, other, rfl, hOther⟩
      exact ⟨k, other, rfl, by
        rw [List.getElem?_append_left (List.getElem?_eq_some_iff.mp hOther).1, hOther]⟩
    · obtain ⟨around, j, hEq, hAround⟩ := standsIn_blocks package file rest outer (i + 1) _ entry hEntry
      refine ⟨around, j, hEq, hAround.imp_right ?_⟩
      rintro ⟨k, other, rfl, hOther⟩
      exact ⟨_, other, by rw [Nat.add_assoc], by
        rw [List.getElem?_append_right (Nat.le_add_right ..), Nat.add_sub_cancel_left, hOther]⟩

end

theorem StandsIn.parentIn {package : String} {file n : Nat} {outer : Option (Nat × MessageEntry)}
    {added : List MessageEntry} {entry : MessageEntry} (h : StandsIn package file outer n added entry) :
    ParentIn outer n added.length entry := by
  obtain ⟨around, i, hEq, hAround⟩ := h
  rw [ParentIn, hEq, parent_under]
  refine hAround.imp (fun hOuter => by rw [hOuter]) ?_
  rintro ⟨k, other, rfl, hOther⟩
  exact ⟨n + k, rfl, Nat.le_add_right n k,
    Nat.add_lt_add_left (List.getElem?_eq_some_iff.mp hOther).1 n⟩

theorem parentIn_block (package : String) (file : Nat) (m : MessageDecl)
    (outer : Option (Nat × MessageEntry)) (i n : Nat) : ∀ entry ∈ block package file outer i n m,
    ParentIn outer n (block package file outer i n m).length entry :=
  fun entry hEntry => (standsIn_block package file m outer i n entry hEntry).parentIn

theorem parentIn_blocks (package : String) (file : Nat) (ms : List MessageDecl)
    (outer : Option (Nat × MessageEntry)) (i n : Nat) : ∀ entry ∈ blocks package file outer i n ms,
    ParentIn outer n (blocks package file outer i n ms).length entry :=
  fun entry hEntry => (standsIn_blocks package file ms outer i n entry hEntry).parentIn

/-- An entry among those added behind `n` others stands in none that lies elsewhere. -/
theorem ParentIn.ne {outer : Option (Nat × MessageEntry)} {n length place : Nat} {entry : MessageEntry}
    (h : ParentIn outer n length entry) (hOuter : ∀ other, outer ≠ some (place, other))
    (hPlace : place < n ∨ n + length ≤ place) : (entry.parent == some place) = false := by
  rw [beq_eq_false_iff_ne]
  intro hParent
  rcases h with hHead | ⟨other, hOther, hLow, hHigh⟩
  · rw [hParent] at hHead
    cases outer with
    | none => cases hHead
    | some around =>
      cases hHead
      exact hOuter around.2 rfl
  · rw [hParent] at hOther
    cases hOther
    omega

/-! ### Trees -/

/-- Messages at `places` that are declared like `decls`, each linked to those nested in it. The last
list holds the places of all messages that are met, each in front of those nested in it. -/
inductive Forest (entries : List MessageEntry) : List Nat → List MessageDecl → List Nat → Prop
  | nil : Forest entries [] [] []
  | cons {place : Nat} {entry : MessageEntry} {places below others : List Nat} {decls : List MessageDecl}
      (hEntry : entries[place]? = some entry) (h : Forest entries entry.nested entry.decl.nested below)
      (hRest : Forest entries places decls others) :
      Forest entries (place :: places) (entry.decl :: decls) (place :: (below ++ others))

def SameLinks (a b : MessageEntry) : Prop := a.decl = b.decl ∧ a.nested = b.nested

theorem Forest.mono {entries others : List MessageEntry}
    (hSame : ∀ (place : Nat) a, entries[place]? = some a → ∃ b, others[place]? = some b ∧ SameLinks a b)
    {places all : List Nat} {decls : List MessageDecl} (h : Forest entries places decls all) :
    Forest others places decls all := by
  induction h with
  | nil => exact .nil
  | cons hEntry _ _ ih ihRest =>
    obtain ⟨b, hB, hDecl, hNested⟩ := hSame _ _ hEntry
    rw [hDecl, hNested] at ih
    rw [hDecl]
    exact .cons hB ih ihRest

theorem Forest.append {entries : List MessageEntry} {ps qs as bs : List Nat} {ms ks : List MessageDecl}
    (h : Forest entries ps ms as) (hMore : Forest entries qs ks bs) :
    Forest entries (ps ++ qs) (ms ++ ks) (as ++ bs) := by
  induction h with
  | nil => exact hMore
  | cons hEntry h _ _ ihRest =>
    rw [List.cons_append, List.cons_append, List.cons_append, List.append_assoc]
    exact .cons hEntry h ihRest

theorem Forest.map_decl {entries : List MessageEntry} {places all : List Nat} {decls : List MessageDecl}
    (h : Forest entries places decls all) :
    places.map (fun place => entries[place]?.map (·.decl)) = decls.map some := by
  induction h with
  | nil => rfl
  | cons hEntry _ _ _ ihRest => rw [List.map_cons, List.map_cons, hEntry, ihRest]; rfl

theorem Forest.at {entries : List MessageEntry} {places all : List Nat} {decls : List MessageDecl}
    (h : Forest entries places decls all) :
    ∀ place ∈ all, ∃ entry below, entries[place]? = some entry ∧
      Forest entries entry.nested entry.decl.nested below := by
  induction h with
  | nil => exact fun place hPlace => absurd hPlace List.not_mem_nil
  | @cons first entry _ below _ _ hEntry h hRest ih ihRest =>
    intro place hPlace
    rcases List.mem_cons.mp hPlace with rfl | hPlace
    · exact ⟨entry, below, hEntry, h⟩
    · rcases List.mem_append.mp hPlace with hPlace | hPlace
      · exact ih place hPlace
      · exact ihRest place hPlace

/-- All messages that are met are those of the declarations, in preorder. -/
theorem Forest.map_decl_all {entries : List MessageEntry} {places all : List Nat}
    {decls : List MessageDecl} (h : Forest entries places decls all) :
    all.map (fun place => entries[place]?.map (·.decl)) = (MessageDecl.preorders decls).map some := by
  induction h with
  | nil => rfl
  | cons hEntry _ _ ih ihRest =>
    rw [List.map_cons, List.map_append, ih, ihRest, hEntry, MessageDecl.preorders,
      MessageDecl.preorder_eq, List.map_append, List.map_cons]
    rfl

/-- Added entries as they stand behind `n` others, linked among themselves. -/
def LinkedFrom (entries : List MessageEntry) (n : Nat) (added : List MessageEntry) : Prop :=
  ∀ k entry, added[k]? = some entry → ∃ found, entries[n + k]? = some found ∧
    found.decl = entry.decl ∧ found.nested = placesWhere (·.parent == some (n + k)) n added

theorem LinkedFrom.left {entries : List MessageEntry} {n : Nat} {as bs : List MessageEntry}
    (h : LinkedFrom entries n (as ++ bs))
    (hElse : ∀ entry ∈ bs, ∀ place, n ≤ place → place < n + as.length →
      (entry.parent == some place) = false) : LinkedFrom entries n as := by
  intro k entry hEntry
  have hBound := (List.getElem?_eq_some_iff.mp hEntry).1
  obtain ⟨found, hFound, hDecl, hNested⟩ := h k entry (by rw [List.getElem?_append_left hBound, hEntry])
  refine ⟨found, hFound, hDecl, ?_⟩
  rw [hNested, placesWhere_append,
    placesWhere_eq_nil fun b hB => hElse b hB (n + k) (by omega) (by omega), List.append_nil]

theorem LinkedFrom.right {entries : List MessageEntry} {n : Nat} {as bs : List MessageEntry}
    (h : LinkedFrom entries n (as ++ bs))
    (hElse : ∀ entry ∈ as, ∀ place, n + as.length ≤ place → (entry.parent == some place) = false) :
    LinkedFrom entries (n + as.length) bs := by
  intro k entry hEntry
  obtain ⟨found, hFound, hDecl, hNested⟩ := h (as.length + k) entry
    (by rw [List.getElem?_append_right (by omega), Nat.add_sub_cancel_left, hEntry])
  rw [← Nat.add_assoc] at hFound hNested
  refine ⟨found, hFound, hDecl, ?_⟩
  rw [hNested, placesWhere_append,
    placesWhere_eq_nil fun a hA => hElse a hA (n + as.length + k) (by omega), List.nil_append]

theorem ne_of_below {outer : Option (Nat × MessageEntry)} {n place : Nat} (h : Below n outer)
    (hPlace : n ≤ place) (other : MessageEntry) : outer ≠ some (place, other) :=
  fun hOuter => absurd (h place other hOuter) (Nat.not_lt.mpr hPlace)

/-- The only entry of a block with the parent around it is the first. -/
theorem placesWhere_block (package : String) (file : Nat) {outer : Option (Nat × MessageEntry)} {n : Nat}
    (hBelow : Below n outer) (i : Nat) (m : MessageDecl) :
    placesWhere (·.parent == outer.map (·.1)) n (block package file outer i n m) = [n] := by
  rw [block_eq, placesWhere, parent_under, if_pos (beq_self_eq_true _), placesWhere_eq_nil]
  intro entry hEntry
  rw [beq_eq_false_iff_ne]
  intro hParent
  rcases parentIn_blocks package file _ _ _ _ entry hEntry with hHead | ⟨place, hPlace, hLow, -⟩
  · rw [hParent] at hHead
    cases outer with
    | none => cases hHead
    | some around => cases hHead; exact Nat.lt_irrefl _ (hBelow _ _ rfl)
  · rw [hParent] at hPlace
    cases outer with
    | none => cases hPlace
    | some around =>
      cases hPlace
      have hLess : around.1 < n := hBelow _ _ rfl
      dsimp only at hLow
      omega

mutual

theorem forest_block (entries : List MessageEntry) (package : String) (file : Nat) : ∀ (m : MessageDecl)
    (outer : Option (Nat × MessageEntry)) (i n : Nat), Below n outer →
    LinkedFrom entries n (block package file outer i n m) →
    Forest entries [n] [m] (List.range' n (block package file outer i n m).length)
  | .mk name fields nested enums oneofs extensions extensionRanges reservedRanges mapEntry deprecated
      options, outer, i, n, hBelow, h => by
    rw [block] at h ⊢
    have hParent := parent_under package file outer i (.mk name fields nested enums oneofs extensions
      extensionRanges reservedRanges mapEntry deprecated options)
    have hHead := decl_under package file outer i (.mk name fields nested enums oneofs extensions
      extensionRanges reservedRanges mapEntry deprecated options)
    generalize under package file outer i _ = head at h hParent hHead ⊢
    have hElse : ∀ place, n ≤ place → (head.parent == some place) = false := by
      intro place hPlace
      have hIn : ParentIn outer n 0 head := .inl hParent
      exact hIn.ne (ne_of_below hBelow hPlace) (by omega)
    obtain ⟨found, hFound, hDecl, hNested⟩ := h 0 head rfl
    rw [Nat.add_zero, placesWhere, hElse n (Nat.le_refl n), if_neg Bool.false_ne_true] at hNested
    rw [hHead] at hDecl
    have hBelowHead : Below (n + 1) (some (n, head)) := by
      rintro place entry ⟨⟩
      exact Nat.lt_succ_self n
    have hBlocks : LinkedFrom entries (n + 1) (blocks package file (some (n, head)) 0 (n + 1) nested) := by
      refine @LinkedFrom.right entries n [head] _ h ?_
      intro entry hEntry place hPlace
      rw [List.mem_singleton.mp hEntry]
      exact hElse place (Nat.le_of_succ_le hPlace)
    have hForest := forest_blocks entries package file nested (some (n, head)) 0 (n + 1) hBelowHead hBlocks
    rw [Option.map_some, ← hNested] at hForest
    have hNestedDecl : found.decl.nested = nested := congrArg MessageDecl.nested hDecl
    have hOne := Forest.cons hFound (hNestedDecl.symm ▸ hForest) .nil
    rwa [hDecl, List.append_nil] at hOne

theorem forest_blocks (entries : List MessageEntry) (package : String) (file : Nat) :
    ∀ (ms : List MessageDecl) (outer : Option (Nat × MessageEntry)) (i n : Nat), Below n outer →
    LinkedFrom entries n (blocks package file outer i n ms) →
    Forest entries (placesWhere (·.parent == outer.map (·.1)) n (blocks package file outer i n ms)) ms
      (List.range' n (blocks package file outer i n ms).length)
  | [], _, _, _, _, _ => .nil
  | m :: rest, outer, i, n, hBelow, h => by
    rw [blocks] at h ⊢
    have hFirst := h.left fun entry hEntry place hLow hHigh =>
      (parentIn_blocks package file rest outer (i + 1) _ entry hEntry).ne (ne_of_below hBelow hLow)
        (.inl hHigh)
    have hRest := h.right fun entry hEntry place hPlace =>
      (parentIn_block package file m outer i n entry hEntry).ne (ne_of_below hBelow (by omega))
        (.inr hPlace)
    rw [placesWhere_append, placesWhere_block package file hBelow, List.length_append,
      ← List.range'_append_1]
    exact (forest_block entries package file m outer i n hBelow hFirst).append
      (forest_blocks entries package file rest outer (i + 1) _ (hBelow.mono (by omega)) hRest)

end

end Arena

end ProtoBind
