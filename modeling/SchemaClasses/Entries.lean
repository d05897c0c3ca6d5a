/-!
Entries under keys, in the order in which their keys were first put.
-/

namespace SchemaClasses

abbrev Entries (Value : Type) := List (String × Value)

namespace Entries

/-- A key that is already there keeps its place and takes the new value. -/
def put {Value : Type} (entries : Entries Value) (key : String) (value : Value) : Entries Value :=
  match entries with
  | [] => [(key, value)]
  | (known, old) :: rest =>
      if known = key then (known, value) :: rest else (known, old) :: put rest key value

def ofPairs {Value : Type} (pairs : List (String × Value)) : Entries Value :=
  pairs.foldl (fun entries pair => put entries pair.1 pair.2) []

end Entries

end SchemaClasses
