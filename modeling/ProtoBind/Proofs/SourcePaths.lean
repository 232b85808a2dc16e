import ProtoBind.Graph.Basic
import ProtoBind.Proofs.LocalPackages
import ProtoBind.Proofs.Pieces

/-!
# Source paths

Where the elements of a schema file stand, and the path of numbers that leads to each. An element is read
back from its path and a path from its text, so no two elements of a file have one text.
-/

set_option autoImplicit false

namespace ProtoBind

open Text

/-- Where a message stands: in the outermost message with an index, down through the messages nested with
these. -/
structure MessageSpot where
  outermost : Nat
  nested : List Nat := []
  deriving DecidableEq

/-- Where an enum stands: in the file, or in a message. -/
inductive EnumSpot where
  | outermost (i : Nat)
  | within (spot : MessageSpot) (i : Nat)
  deriving DecidableEq

inductive Spot where
  | package
  | message (spot : MessageSpot)
  | field (spot : MessageSpot) (i : Nat)
  | oneof (spot : MessageSpot) (i : Nat)
  | enum (spot : EnumSpot)
  | value (spot : EnumSpot) (i : Nat)
  | service (i : Nat)
  | method (outer i : Nat)
  deriving DecidableEq

def descent (nested : List Nat) : SourcePath := nested.flatMap fun i => [3, (i : Int)]

def MessageSpot.path (spot : MessageSpot) : SourcePath :=
  spot.nested.foldl SourcePath.nested (SourcePath.message spot.outermost)

def EnumSpot.path : EnumSpot → SourcePath
  | .outermost i => SourcePath.enum i
  | .within spot i => spot.path.nestedEnum i

def Spot.path : Spot → SourcePath
  | .package => SourcePath.package
  | .message spot => spot.path
  | .field spot i => spot.path.field i
  | .oneof spot i => spot.path.oneof i
  | .enum spot => spot.path
  | .value spot i => spot.path.value i
  | .service i => SourcePath.service i
  | .method outer i => (SourcePath.service outer).method i

theorem foldl_nested (path : SourcePath) (nested : List Nat) :
    nested.foldl SourcePath.nested path = path ++ descent nested := by
  induction nested generalizing path with
  | nil => exact (List.append_nil path).symm
  | cons i rest ih =>
    rw [List.foldl_cons, ih, SourcePath.nested, List.append_assoc]
    rfl

theorem MessageSpot.path_eq (spot : MessageSpot) :
    spot.path = 4 :: (spot.outermost : Int) :: descent spot.nested :=
  foldl_nested _ _

/-! ### Elements of paths -/

def Spot.below (spot : MessageSpot) : SourcePath → Option Spot
  | [] => some (.message spot)
  | [2, i] => some (.field spot i.toNat)
  | [8, i] => some (.oneof spot i.toNat)
  | [4, i] => some (.enum (.within spot i.toNat))
  | [4, i, 2, j] => some (.value (.within spot i.toNat) j.toNat)
  | 3 :: i :: rest => below ⟨spot.outermost, spot.nested ++ [i.toNat]⟩ rest
  | _ => none

def Spot.ofPath? : SourcePath → Option Spot
  | [2] => some .package
  | 4 :: i :: rest => below ⟨i.toNat, []⟩ rest
  | [5, i] => some (.enum (.outermost i.toNat))
  | [5, i, 2, j] => some (.value (.outermost i.toNat) j.toNat)
  | [6, i] => some (.service i.toNat)
  | [6, i, 2, j] => some (.method i.toNat j.toNat)
  | _ => none

theorem Spot.below_descent (outermost : Nat) (front nested : List Nat) (rest : SourcePath) :
    below ⟨outermost, front⟩ (descent nested ++ rest) = below ⟨outermost, front ++ nested⟩ rest := by
  induction nested generalizing front with
  | nil => rw [List.append_nil]; rfl
  | cons i nested ih =>
    change below ⟨outermost, front ++ [i]⟩ (descent nested ++ rest) = _
    rw [ih, List.append_assoc]
    rfl

theorem Spot.ofPath?_message (spot : MessageSpot) (rest : SourcePath) :
    ofPath? (spot.path ++ rest) = below spot rest := by
  rw [MessageSpot.path_eq]
  exact below_descent spot.outermost [] spot.nested rest

/-- An element is read back from its path. -/
theorem Spot.ofPath?_path (spot : Spot) : ofPath? spot.path = some spot := by
  cases spot with
  | package => rfl
  | message spot =>
    have h := ofPath?_message spot []
    rwa [List.append_nil] at h
  | field spot i => exact ofPath?_message spot [2, (i : Int)]
  | oneof spot i => exact ofPath?_message spot [8, (i : Int)]
  | enum spot =>
    cases spot with
    | outermost i => rfl
    | within spot i => exact ofPath?_message spot [4, (i : Int)]
  | value spot j =>
    cases spot with
    | outermost i => rfl
    | within spot i =>
      have h := ofPath?_message spot [4, (i : Int), 2, (j : Int)]
      rw [Spot.path, EnumSpot.path, SourcePath.value, SourcePath.nestedEnum, List.append_assoc]
      exact h
  | service i => rfl
  | method outer i => rfl

theorem Spot.path_injective : Function.Injective Spot.path := by
  intro a b h
  rw [← Option.some_inj, ← ofPath?_path a, h, ofPath?_path]

/-! ### Texts of paths -/

namespace SourcePath

/-- The pieces of the text of a path are the texts of its numbers. -/
theorem splitOn_key {path : SourcePath} (h : path ≠ []) :
    splitOn ',' path.key.toList = path.map fun n => (toString n).toList := by
  induction path with
  | nil => exact absurd rfl h
  | cons n rest ih =>
    cases rest with
    | nil =>
      have hKey : SourcePath.key [n] = toString n := by simp [key]
      rw [hKey, splitOn_of_not_mem (not_mem_toString (by decide) (by decide) n)]
      rfl
    | cons m rest =>
      have hKey : SourcePath.key (n :: m :: rest) = toString n ++ "," ++ SourcePath.key (m :: rest) := by
        simp only [key, List.map_cons, String.intercalate_cons_cons]
      have hList : (toString n ++ "," ++ SourcePath.key (m :: rest)).toList
          = (toString n).toList ++ ',' :: (SourcePath.key (m :: rest)).toList := by simp
      rw [hKey, hList, splitOn_append_sep, splitOn_of_not_mem (not_mem_toString (by decide) (by decide) n),
        ih (List.cons_ne_nil m rest)]
      rfl

theorem key_ne_empty {path : SourcePath} (h : path ≠ []) : path.key ≠ "" := by
  intro hEmpty
  have hPieces := splitOn_key h
  rw [hEmpty] at hPieces
  obtain ⟨n, rest, rfl⟩ := List.exists_cons_of_ne_nil h
  have hFirst : ([] : List Char) = (toString n).toList := (List.cons.inj hPieces).1
  exact toString_int_ne_empty n hFirst.symm

/-- A path is known by its text. -/
theorem key_injective : Function.Injective key := by
  intro a b h
  by_cases hA : a = []
  · by_cases hB : b = []
    · rw [hA, hB]
    · exact absurd (h.symm.trans (congrArg key hA)) (key_ne_empty hB)
  · by_cases hB : b = []
    · exact absurd (h.trans (congrArg key hB)) (key_ne_empty hA)
    · have hPieces := splitOn_key hA
      rw [h, splitOn_key hB] at hPieces
      have hNumbers : Function.Injective fun n : Int => (toString n).toList :=
        fun m n hSame => int_of_toString (String.toList_inj.mp hSame)
      exact (List.map_injective_iff.mpr hNumbers hPieces).symm

end SourcePath

/-- No two elements of a file have one text for their paths. -/
theorem Spot.key_injective : Function.Injective fun spot : Spot => spot.path.key :=
  SourcePath.key_injective.comp Spot.path_injective

end ProtoBind
