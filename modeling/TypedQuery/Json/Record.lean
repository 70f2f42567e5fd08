import TypedQuery.Json.Tree

/-!
# Objects with known members

Reading an object of which some members are known. A known member stands at most once; other
members are skipped unread, also where they have no value. An optional member may be missing or
null. A record may also be written as an array, which holds one item for each member, in order.
-/

namespace TypedQuery.Json.Tree

/-- The members of an object with the known keys: every key is readable, and no known key is
    repeated. -/
def record? (known : List String) : Tree → Option (List (String × Tree))
  | .object members => do
    let entries ← members.mapM fun (p : Option String × Tree) => p.1.map fun key => (key, p.2)
    let read := entries.filter fun p => known.contains p.1
    if (Entries.names read).Nodup then some read else none
  | _ => none

/-- The members of a record: of an object by their keys, of an array by their places. -/
def entries? (known : List String) : Tree → Option (List (String × Tree))
  | .array items => if items.length = known.length then some (known.zip items) else none
  | tree => record? known tree

/-- A member that must be there. -/
def required (entries : List (String × Tree)) (key : String) (read : Tree → Option α) : Option α :=
  (entries.lookup key).bind read

/-- A member that may be missing or null. -/
def optional (entries : List (String × Tree)) (key : String) (read : Tree → Option α) :
    Option (Option α) :=
  match entries.lookup key with
  | none => some none
  | some .null => some none
  | some tree => (read tree).map some

/-- The text of a string. -/
def string? : Tree → Option String
  | .string s => s
  | _ => none

/-- The truth value of `true` or `false`. -/
def boolean? : Tree → Option Bool
  | .boolean b => some b
  | _ => none

/-- The value of a natural number. -/
def natural? : Tree → Option Nat
  | .number (some (.integer n)) => if 0 ≤ n then some n.toNat else none
  | _ => none

end TypedQuery.Json.Tree
