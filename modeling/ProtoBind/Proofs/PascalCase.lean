import ProtoBind.Proofs.ReservedTypes

/-!
# Names in Pascal case

What the escape of type names relies on: a name in Pascal case holds no underscore and begins with neither a small
letter nor a digit, so that an underscore behind a reserved name keeps it apart from all others. A name in Pascal case
stays as it is.
-/

set_option autoImplicit false

namespace ProtoBind.Naming

open Text

def plainPathName (path : List String) : String := String.join (path.map pascal)

structure Escapes (plain name : String) : Prop where
  free : name ∉ reservedTypeNames
  begins : ∃ c cs, name.toList = c :: cs ∧ c.isLower = false ∧ c.isDigit = false
  underscore : ∀ front back, name.toList = front ++ '_' :: back → back = [] ∧ plain ∈ reservedTypeNames

theorem underscore_not_mem_plainPathName (path : List String) : '_' ∉ (plainPathName path).toList := by
  rw [plainPathName, join_pascal]
  exact underscore_not_mem_flatSpelling path

/-- The escape puts an underscore behind a reserved name. -/
theorem escapeTypeName_eq_append (name : String) :
    ∃ more, (escapeTypeName name).toList = name.toList ++ more
      ∧ (more = [] ∨ more = ['_'] ∧ name ∈ reservedTypeNames) := by
  rw [escapeTypeName_toList]
  split
  · rename_i hReserved
    exact ⟨['_'], rfl, .inr ⟨rfl, hReserved⟩⟩
  · exact ⟨[], (List.append_nil _).symm, .inl rfl⟩

theorem underscore_is_last {name more front back : List Char} (hName : '_' ∉ name) (hMore : more = [] ∨ more = ['_'])
    (hText : name ++ more = front ++ '_' :: back) : back = [] ∧ more = ['_'] := by
  have hMem : '_' ∈ name ++ more := hText ▸ List.mem_append_right front List.mem_cons_self
  rcases hMore with rfl | rfl
  · rw [List.append_nil] at hMem
    exact absurd hMem hName
  · refine ⟨?_, rfl⟩
    rcases List.eq_nil_or_concat back with rfl | ⟨rest, last, rfl⟩
    · rfl
    · rw [List.concat_eq_append, ← List.cons_append, ← List.append_assoc] at hText
      have hFront := List.append_inj_left' hText rfl
      exact absurd (hFront ▸ List.mem_append_right front List.mem_cons_self) hName

theorem escapes_typePathName (first : String) (rest : List String) :
    Escapes (plainPathName (first :: rest)) (typePathName (first :: rest)) := by
  obtain ⟨more, hName, hMore⟩ := escapeTypeName_eq_append (plainPathName (first :: rest))
  change (typePathName (first :: rest)).toList = _ at hName
  constructor
  case free => exact typePathName_not_reserved _
  case begins =>
    obtain ⟨c, cs, hSpelling, hBegins⟩ := exists_spelling first
    refine ⟨c, cs ++ flatSpelling rest ++ more, ?_, hBegins⟩
    rw [hName, plainPathName, join_pascal, flatSpelling, List.flatMap_cons, hSpelling]
    rfl
  case underscore =>
    intro front back hText
    rw [hName] at hText
    obtain ⟨hBack, rfl⟩ := underscore_is_last (underscore_not_mem_plainPathName _) (hMore.imp_right And.left) hText
    exact ⟨hBack, hMore.elim (fun hNil => by cases hNil) And.right⟩

theorem pascal_pascal (name : String) : pascal (pascal name) = pascal name := by
  obtain ⟨c, cs, hSpelling, hLower, hDigit⟩ := exists_spelling name
  rw [← pascal_toList] at hSpelling
  have hUnderscore : '_' ∉ (pascal name).toList := by
    have hFlat := underscore_not_mem_flatSpelling [name]
    rwa [flatSpelling, List.flatMap_singleton, ← pascal_toList] at hFlat
  rw [← String.toList_inj, pascal_toList]
  exact spelling_of_settled hSpelling hUnderscore hLower hDigit

/-- The name of a type is not reserved, begins with neither a small letter nor a digit, and holds no underscore but one
at its end where its name would be reserved without. Two paths have one type name just where they would have one name
without the escape, and a second conversion to Pascal case changes nothing. -/
theorem typePathName_apart :
    (∀ first rest, Escapes (plainPathName (first :: rest)) (typePathName (first :: rest))) ∧
      (∀ a b, typePathName a = typePathName b ↔ plainPathName a = plainPathName b) ∧
      ∀ name, pascal (pascal name) = pascal name :=
  ⟨escapes_typePathName,
    fun a b => escapeTypeName_inj (underscore_not_mem_plainPathName a) (underscore_not_mem_plainPathName b),
    pascal_pascal⟩

example : typePathName ["hash", "_", "map"] = "HashXMap" ∧ typePathName ["hash_map"] = "HashMap_" := by decide

end ProtoBind.Naming
