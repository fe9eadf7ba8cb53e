import BranchPrediction.Json.Value

/-!
# Records as JSON

A record is described by its fields, each with a name, a way to write it and a way to read it.
The same description writes a record as an object and reads it back.

Reading is strict where it matters and lenient where it does not: members with unknown names are
ignored, a known name must not come twice, and a field that is missing keeps the value it has in
the record that reading starts from.  A record may also be given as an array of its fields in
order, cut short at any point but not longer.
-/

namespace BranchPrediction

namespace Json

structure Field (σ : Type) where
  name : String
  write : σ → Json
  read? : Json → σ → Option σ

/-- How the values of a type are written and read. -/
structure Format (α : Type) where
  write : α → Json
  read? : Json → Option α

namespace Format

/-- Natural numbers below a bound, written as integers. -/
def natBelow (bound : Nat) : Format Nat where
  write := Json.nat
  read?
    | .integer n => if 0 ≤ n ∧ n < bound then some n.toNat else none
    | _ => none

/-- Natural numbers of one byte. -/
def byte : Format Nat :=
  natBelow UInt8.size

/-- Natural numbers of one word. -/
def size : Format Nat :=
  natBelow UInt64.size

/-- Integers of half a word. -/
def int32 : Format Int where
  write := .integer
  read?
    | .integer n => if -0x80000000 ≤ n ∧ n < 0x80000000 then some n else none
    | _ => none

/-- Words, written as integers. -/
def word : Format UInt64 where
  write w := .nat w.toNat
  read? j := (size.read? j).map UInt64.ofNat

def bool : Format Bool where
  write := .bool
  read?
    | .bool b => some b
    | _ => none

def option {α : Type} (format : Format α) : Format (Option α) where
  write := Json.option format.write
  read?
    | .null => some none
    | j => (format.read? j).map some

def list {α : Type} (format : Format α) : Format (List α) where
  write items := .array (items.map format.write)
  read?
    | .array items => items.mapM format.read?
    | _ => none

def field {α σ : Type} (format : Format α) (name : String) (get : σ → α) (set : σ → α → σ) :
    Field σ where
  name := name
  write s := format.write (get s)
  read? j s := (format.read? j).map (set s)

end Format

variable {σ : Type}

/-- Read the members of an object into a record. -/
def readMembersInto (fields : List (Field σ)) :
    List (Option String × Json) → List String → σ → Option σ
  | [], _, s => some s
  | (none, _) :: _, _, _ => none
  | (some key, value) :: rest, seen, s =>
    match fields.find? (·.name = key) with
    | none => readMembersInto fields rest seen s
    | some field =>
      if key ∈ seen then none
      else (field.read? value s).bind (readMembersInto fields rest (key :: seen))

/-- Read the items of an array into the fields in order. -/
def readItemsInto : List (Field σ) → List Json → σ → Option σ
  | _, [], s => some s
  | [], _ :: _, _ => none
  | field :: fields, item :: items, s =>
    (field.read? item s).bind (readItemsInto fields items)

/-- Every field is given. -/
def givesAll (fields : List (Field σ)) : Json → Bool
  | .object members => fields.all fun field => members.any fun (key, _) => key = some field.name
  | .array items => fields.length ≤ items.length
  | _ => false

/-- The format of a record whose missing fields are taken from `default`. -/
def recordFormat (fields : List (Field σ)) (default : σ) : Format σ where
  write s := ofMembers (fields.map fun field => (field.name, field.write s))
  read?
    | .object members => readMembersInto fields members [] default
    | .array items => readItemsInto fields items default
    | _ => none

/-- The format of a record none of whose fields may be missing. -/
def fullRecordFormat (fields : List (Field σ)) (default : σ) : Format σ where
  write := (recordFormat fields default).write
  read? j := if givesAll fields j then (recordFormat fields default).read? j else none

end Json

end BranchPrediction
