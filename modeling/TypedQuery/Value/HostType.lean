/-!
# Host types

The program that embeds the library holds coerced values in types of its own, and tells them apart
by an identity that each of them has. Here the full name stands for that identity: two host types
are the same if their names are. The names of the built-in ones are those that messages write.
-/

namespace TypedQuery

/-- A type of the embedding program. -/
structure HostType where
  /-- The full name, which messages write. It stands for the identity of the type as well: tables of
      host types go by it, so types of one name are one type. -/
  name : String
deriving Repr, DecidableEq, Inhabited

namespace HostType

/-- Integers of 32 bits. -/
def int32 : HostType := ⟨"i32"⟩

/-- Integers of 64 bits. -/
def int64 : HostType := ⟨"i64"⟩

/-- Doubles. -/
def float : HostType := ⟨"f64"⟩

/-- Truth values. -/
def boolean : HostType := ⟨"bool"⟩

/-- Texts. -/
def text : HostType := ⟨"alloc::string::String"⟩

/-- Any coerced value. -/
def coerced : HostType := ⟨"graphql_coercion::execution::coerced::CoercedValue"⟩

/-- Any input object. -/
def object : HostType := ⟨"graphql_coercion::execution::coerced::HostObject"⟩

/-- Records whose members are the entries that were supplied. -/
def dynamic : HostType := ⟨"graphql_coercion::execution::coerced::DynamicInputObject"⟩

/-- A record of the given type that stands inside another. -/
def embedded (record : HostType) : HostType :=
  ⟨"graphql_coercion::execution::coerced::Host<" ++ record.name ++ ">"⟩

/-- A value that may be absent. -/
def optional (of : HostType) : HostType := ⟨"core::option::Option<" ++ of.name ++ ">"⟩

/-- A list. -/
def list (of : HostType) : HostType := ⟨"alloc::vec::Vec<" ++ of.name ++ ">"⟩

end HostType

end TypedQuery
