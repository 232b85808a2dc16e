import Mathlib.Data.List.TakeWhile
import ProtoBind.Manifest.Text
import ProtoBind.Proofs.JsonStrings

/-!
# Objects of strings

A JSON object whose values are strings, said apart from the reader. The reader takes just these texts, and
of several members with one key the last one counts; what is written for a table is such a text, with the
members in the order of the table.
-/

set_option autoImplicit false

namespace ProtoBind.ManifestText

open Text JsonString

def IsBlank (cs : List Char) : Prop := ∀ c ∈ cs, isSpace c = true

inductive IsMember : List Char → String × String → Prop where
  | mk {key before after value k v : List Char} (hKey : IsString key k) (hBefore : IsBlank before)
      (hAfter : IsBlank after) (hValue : IsString value v) :
      IsMember (key ++ (before ++ ':' :: (after ++ value))) (String.ofList k, String.ofList v)

inductive AreMembers : List Char → List (String × String) → Prop where
  | last {text after : List Char} {member : String × String} (h : IsMember text member)
      (hAfter : IsBlank after) : AreMembers (text ++ after) [member]
  | cons {text before after rest : List Char} {member : String × String} {members : List (String × String)}
      (h : IsMember text member) (hBefore : IsBlank before) (hAfter : IsBlank after)
      (hRest : AreMembers rest members) :
      AreMembers (text ++ (before ++ ',' :: (after ++ rest))) (member :: members)

inductive IsObject : List Char → List (String × String) → Prop where
  | empty {before inside after : List Char} (hBefore : IsBlank before) (hInside : IsBlank inside)
      (hAfter : IsBlank after) : IsObject (before ++ '\x7b' :: (inside ++ '\x7d' :: after)) []
  | filled {before lead inside after : List Char} {members : List (String × String)}
      (hBefore : IsBlank before) (hLead : IsBlank lead) (hInside : AreMembers inside members)
      (hAfter : IsBlank after) :
      IsObject (before ++ '\x7b' :: (lead ++ (inside ++ '\x7d' :: after))) members

/-! ### Blanks -/

theorem isBlank_nil : IsBlank [] := fun _ h => absurd h List.not_mem_nil

theorem skip_append {blank : List Char} (h : IsBlank blank) (cs : List Char) : skip (blank ++ cs) = skip cs :=
  List.dropWhile_append_of_pos h

theorem skip_cons {c : Char} (h : isSpace c = false) (cs : List Char) : skip (c :: cs) = c :: cs :=
  List.dropWhile_cons_of_neg (by simp [h])

theorem exists_blank (cs : List Char) : ∃ blank, IsBlank blank ∧ cs = blank ++ skip cs :=
  ⟨cs.takeWhile isSpace, fun _ h => (List.mem_takeWhile_imp h), List.takeWhile_append_dropWhile.symm⟩

theorem skip_eq_nil_iff {cs : List Char} : skip cs = [] ↔ IsBlank cs := List.dropWhile_eq_nil_iff

/-! ### Members -/

theorem member?_of_isMember {text : List Char} {member : String × String} (h : IsMember text member)
    (rest : List Char) : member? (text ++ rest) = some (member, skip rest) := by
  cases h with
  | mk hKey hBefore hAfter hValue =>
    rename_i key before after value k v
    have hFirst : JsonString.decode (key ++ (before ++ ':' :: (after ++ (value ++ rest))))
        = some (k, before ++ ':' :: (after ++ (value ++ rest))) := decode_eq_some_iff.mpr ⟨key, hKey, rfl⟩
    have hSecond : JsonString.decode (skip (after ++ (value ++ rest))) = some (v, rest) := by
      rw [skip_append hAfter]
      obtain ⟨hBody⟩ := hValue
      exact decode_eq_some_iff.mpr ⟨_, .mk hBody, skip_cons (by decide) _⟩
    have hText : key ++ (before ++ ':' :: (after ++ value)) ++ rest
        = key ++ (before ++ ':' :: (after ++ (value ++ rest))) := by simp
    have hColon : skip (before ++ ':' :: (after ++ (value ++ rest))) = ':' :: (after ++ (value ++ rest)) := by
      rw [skip_append hBefore, skip_cons (by decide)]
    rw [hText, member?]
    simp only [hFirst, hColon, hSecond]

theorem exists_isMember {cs rest : List Char} {member : String × String}
    (h : member? cs = some (member, rest)) :
    ∃ text blank, IsMember text member ∧ IsBlank blank ∧ cs = text ++ (blank ++ rest) := by
  unfold member? at h
  split at h
  · cases h
  · rename_i k more hFirst
    obtain ⟨key, hKey, rfl⟩ := decode_eq_some_iff.mp hFirst
    obtain ⟨before, hBefore, hMore⟩ := exists_blank more
    split at h
    · rename_i behind hColon
      rw [hColon] at hMore
      obtain ⟨after, hAfter, hBehind⟩ := exists_blank behind
      split at h
      · cases h
      · rename_i v last hSecond
        cases h
        obtain ⟨value, hValue, hSkipped⟩ := decode_eq_some_iff.mp hSecond
        rw [hSkipped] at hBehind
        obtain ⟨blank, hBlank, hLast⟩ := exists_blank last
        refine ⟨_, blank, .mk hKey hBefore hAfter hValue, hBlank, ?_⟩
        rw [hMore, hBehind, ← hLast]
        simp
    · cases h

theorem exists_cons_of_areMembers {text : List Char} {members : List (String × String)}
    (h : AreMembers text members) : ∃ tail, text = '\x22' :: tail := by
  have hMember : ∀ {text : List Char} {member : String × String}, IsMember text member →
      ∃ tail, text = '\x22' :: tail := by
    rintro text member ⟨⟨hBody⟩, hBefore, hAfter, hValue⟩
    exact ⟨_, rfl⟩
  cases h with
  | last h hAfter =>
    obtain ⟨tail, rfl⟩ := hMember h
    exact ⟨_, rfl⟩
  | cons h hBefore hAfter hRest =>
    obtain ⟨tail, rfl⟩ := hMember h
    exact ⟨_, rfl⟩

theorem members?_of_comma {cs more : List Char} {member : String × String}
    (h : member? cs = some (member, ',' :: more)) :
    members? cs = (members? (skip more)).map (member :: ·) := by
  rw [members?]
  split
  · rename_i hFound
    rw [h] at hFound
    cases hFound
    rfl
  · rename_i hFound
    rw [h] at hFound
    cases hFound
  · rename_i hNone _
    exact absurd h (hNone _ _)

theorem members?_of_close {cs more : List Char} {member : String × String}
    (h : member? cs = some (member, '\x7d' :: more)) :
    members? cs = if skip more = [] then some [member] else none := by
  rw [members?]
  split
  · rename_i hFound
    rw [h] at hFound
    cases hFound
  · rename_i hFound
    rw [h] at hFound
    cases hFound
    rfl
  · rename_i hNone
    exact absurd h (hNone _ _)

theorem members?_of_areMembers {text after : List Char} {members : List (String × String)}
    (h : AreMembers text members) (hAfter : IsBlank after) :
    members? (text ++ '\x7d' :: after) = some members := by
  induction h with
  | last h hBlank =>
    rename_i text blank member
    have hFound : member? (text ++ blank ++ '\x7d' :: after) = some (member, '\x7d' :: after) := by
      rw [List.append_assoc, member?_of_isMember h, skip_append hBlank, skip_cons (by decide)]
    rw [members?_of_close hFound, if_pos (skip_eq_nil_iff.mpr hAfter)]
  | cons h hBefore hBlank hRest ih =>
    rename_i text before blank rest member members
    have hFound : member? (text ++ (before ++ ',' :: (blank ++ rest)) ++ '\x7d' :: after)
        = some (member, ',' :: (blank ++ (rest ++ '\x7d' :: after))) := by
      rw [List.append_assoc, member?_of_isMember h, List.append_assoc, skip_append hBefore, List.cons_append,
        skip_cons (by decide), List.append_assoc]
    obtain ⟨tail, rfl⟩ := exists_cons_of_areMembers hRest
    rw [members?_of_comma hFound, skip_append hBlank, List.cons_append, skip_cons (by decide),
      ← List.cons_append, ih]
    rfl

theorem exists_areMembers {cs : List Char} {members : List (String × String)}
    (h : members? cs = some members) :
    ∃ text after, AreMembers text members ∧ IsBlank after ∧ cs = text ++ '\x7d' :: after := by
  fun_induction members? cs generalizing members with
  | case1 cs member more hFound ih =>
    obtain ⟨others, hOthers, rfl⟩ := Option.map_eq_some_iff.mp h
    obtain ⟨text, before, hMember, hBefore, rfl⟩ := exists_isMember hFound
    obtain ⟨after, hAfter, hMore⟩ := exists_blank more
    obtain ⟨rest, last, hRest, hLast, hSkipped⟩ := ih hOthers
    refine ⟨_, last, .cons hMember hBefore hAfter hRest, hLast, ?_⟩
    rw [hMore, hSkipped]
    simp
  | case2 cs member more hFound hEnd =>
    cases h
    obtain ⟨text, before, hMember, hBefore, rfl⟩ := exists_isMember hFound
    exact ⟨_, more, .last hMember hBefore, skip_eq_nil_iff.mp hEnd, by simp⟩
  | case3 => cases h
  | case4 => cases h

/-! ### Objects -/

theorem read?_of_isObject {cs : List Char} {members : List (String × String)} (h : IsObject cs members) :
    read? cs = some (.ofList members) := by
  cases h with
  | empty hBefore hInside hAfter =>
    rename_i before inside after
    have hOpen : skip (before ++ '\x7b' :: (inside ++ '\x7d' :: after)) = '\x7b' :: (inside ++ '\x7d' :: after) := by
      rw [skip_append hBefore, skip_cons (by decide)]
    have hClose : skip (inside ++ '\x7d' :: after) = '\x7d' :: after := by
      rw [skip_append hInside, skip_cons (by decide)]
    simp only [read?, hOpen, hClose, if_pos (skip_eq_nil_iff.mpr hAfter)]
    rfl
  | filled hBefore hLead hInside hAfter =>
    rename_i before lead inside after
    have hOpen : skip (before ++ '\x7b' :: (lead ++ (inside ++ '\x7d' :: after)))
        = '\x7b' :: (lead ++ (inside ++ '\x7d' :: after)) := by
      rw [skip_append hBefore, skip_cons (by decide)]
    obtain ⟨tail, rfl⟩ := exists_cons_of_areMembers hInside
    have hQuote : skip (lead ++ ('\x22' :: tail ++ '\x7d' :: after)) = '\x22' :: (tail ++ '\x7d' :: after) := by
      rw [skip_append hLead, List.cons_append, skip_cons (by decide)]
    have hMembers : members? ('\x22' :: (tail ++ '\x7d' :: after)) = some members :=
      members?_of_areMembers hInside hAfter
    simp only [read?, hOpen, hQuote]
    exact congrArg (Option.map Table.ofList) hMembers

theorem exists_isObject {cs : List Char} {table : Table String} (h : read? cs = some table) :
    ∃ members, IsObject cs members ∧ table = .ofList members := by
  obtain ⟨before, hBefore, hCs⟩ := exists_blank cs
  unfold read? at h
  split at h
  · rename_i rest hOpen
    rw [hOpen] at hCs
    obtain ⟨lead, hLead, hRest⟩ := exists_blank rest
    split at h
    · rename_i after hClose
      split at h
      · rename_i hEnd
        cases h
        rw [hClose] at hRest
        exact ⟨[], by rw [hCs, hRest]; exact .empty hBefore hLead (skip_eq_nil_iff.mp hEnd), rfl⟩
      · cases h
    · obtain ⟨members, hMembers, rfl⟩ := Option.map_eq_some_iff.mp h
      obtain ⟨inside, after, hInside, hAfter, hSkipped⟩ := exists_areMembers hMembers
      rw [hSkipped] at hRest
      exact ⟨members, by rw [hCs, hRest]; exact .filled hBefore hLead hInside hAfter, rfl⟩
  · cases h

/-! ### Written texts -/

theorem isMember_writeMember (member : String × String) : IsMember (writeMember member) member := by
  have hMember := IsMember.mk (isString_encode member.1.toList) isBlank_nil isBlank_nil
    (isString_encode member.2.toList)
  rw [String.ofList_toList, String.ofList_toList] at hMember
  exact hMember

theorem areMembers_writeMembers (member : String × String) (rest : List (String × String)) :
    AreMembers (writeMembers (member :: rest)) (member :: rest) := by
  induction rest generalizing member with
  | nil =>
    have hLast := AreMembers.last (isMember_writeMember member) isBlank_nil
    rwa [List.append_nil] at hLast
  | cons other rest ih =>
    exact .cons (isMember_writeMember member) isBlank_nil isBlank_nil (ih other)

/-- What is written for a table is an object with the members of the table, in their order. -/
theorem isObject_write (table : Table String) : IsObject (write table) table.toList := by
  unfold write
  cases table.toList with
  | nil => exact .empty isBlank_nil isBlank_nil isBlank_nil
  | cons member rest => exact .filled isBlank_nil isBlank_nil (areMembers_writeMembers member rest) isBlank_nil

end ProtoBind.ManifestText
