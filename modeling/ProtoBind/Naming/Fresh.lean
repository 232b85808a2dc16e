/-!
# Fresh names

The first of numbered candidates that is not busy. If the candidates differ from one another, one of
the first `busy.length + 1` is free, so the search below finds it.
-/

set_option autoImplicit false

namespace ProtoBind.Naming

/-- The least index whose candidate is not busy, up to the number of busy names. -/
def freeIndex (busy : List String) (candidate : Nat → String) : Nat :=
  ((List.range (busy.length + 1)).find? fun i => !busy.contains (candidate i)).getD (busy.length + 1)

def firstFree (busy : List String) (candidate : Nat → String) : String :=
  candidate (freeIndex busy candidate)

/-- A name followed by `suffix` so many times. -/
def repeatedly (suffix name : String) : Nat → String
  | 0 => name
  | n + 1 => repeatedly suffix name n ++ suffix

def withSuffix (suffix : String) (busy : List String) (name : String) : String :=
  firstFree busy (repeatedly suffix name)

end ProtoBind.Naming
