/-
Records in JSON.

One list of slots describes a record, and both spellings are read by it: an
object, whose keys are visited in ascending order, and an array, whose items
stand in the order of the slots. A slot turns a value into a change of the
record, so that no spelling needs a code path of its own.
-/
import SchemaSharp.Decode.Error

namespace SchemaSharp

namespace Decode

/-! ## Scalars and lists -/

/-- A string. -/
def string : Json → Except DataError String
  | .string s => .ok s
  | j => .error (.wrongType (.ofJson j) .string)

/-- A truth value. -/
def bool : Json → Except DataError Bool
  | .bool b => .ok b
  | j => .error (.wrongType (.ofJson j) .bool)

/-- A whole number of 16 bits. -/
def index : Json → Except DataError UInt16
  | .number (.whole n _) =>
    if 0 ≤ n ∧ n < 2 ^ 16 then .ok (.ofNat n.toNat) else .error (.indexRange n)
  | j => .error (.wrongType (.ofJson j) .index)

/-- A value or null. -/
def optional {α : Type} (decode : Json → Except DataError α) : Json → Except DataError (Option α)
  | .null => .ok none
  | j => (decode j).map some

/-- Decodes the items one after the other; the first failure counts. -/
def items {α : Type} (decode : Json → Except DataError α) : List Json → Except DataError (List α)
  | [] => .ok []
  | j :: js => (decode j).bind fun a => (items decode js).map (a :: ·)

/-- An array, item by item. -/
def list {α : Type} (decode : Json → Except DataError α) : Json → Except DataError (List α)
  | .array js => items decode js
  | j => .error (.wrongType (.ofJson j) .sequence)

end Decode

/-! ## Slots -/

/-- A field of a record: its key, a second spelling of it, and the change
that a value makes. -/
structure Slot (α : Type) where
  key : String
  otherKey : Option String
  isRequired : Bool
  read : Json → Except DataError (α → α)

namespace Slot

variable {α β : Type}

/-- A field that has to be there. -/
def required (key : String) (decode : Json → Except DataError β) (set : β → α → α) : Slot α :=
  ⟨key, none, true, fun j => (decode j).map set⟩

/-- A field that keeps its default if it is absent. -/
def optional (key : String) (decode : Json → Except DataError β) (set : β → α → α) : Slot α :=
  ⟨key, none, false, fun j => (decode j).map set⟩

/-- The same field with a second spelling of its key. -/
def orKey (slot : Slot α) (key : String) : Slot α := { slot with otherKey := some key }

/-- Whether a key is one of the field's spellings. -/
def spelled (slot : Slot α) (key : String) : Bool := slot.key = key || slot.otherKey = some key

end Slot

/-! ## Shapes -/

/-- A record: the name that errors call it by, its defaults, and its fields
in order of declaration. -/
structure Shape (α : Type) where
  title : String
  blank : α
  slots : List (Slot α)

namespace Shape

variable {α : Type}

/-- Takes up the members of an object in turn, skipping keys of no field.
`seen` are the fields met so far. -/
def visit (shape : Shape α) (seen : List String) (a : α) :
    List (String × Json) → Except DataError (List String × α)
  | [] => .ok (seen, a)
  | (key, value) :: rest =>
    match shape.slots.find? (·.spelled key) with
    | none => shape.visit seen a rest
    | some slot =>
      if slot.key ∈ seen then .error (.repeatedField slot.key)
      else (slot.read value).bind fun change => shape.visit (slot.key :: seen) (change a) rest

/-- Reads an object. After its members the first required field that is
absent counts. -/
def ofObject (shape : Shape α) (members : List (String × Json)) : Except DataError α :=
  (shape.visit [] shape.blank (Json.byKey members)).bind fun (seen, a) =>
    match shape.slots.find? fun slot => slot.isRequired && slot.key ∉ seen with
    | some slot => .error (.missingField slot.key)
    | none => .ok a

/-- Fills the remaining slots, the first of them at `position`, with the
remaining items of an array of the given length. -/
def fill (shape : Shape α) (length : Nat) (position : Nat) (a : α) :
    List (Slot α) → List Json → Except DataError α
  | [], [] => .ok a
  | [], _ :: _ => .error (.tooLong length)
  | slot :: slots, [] =>
    if slot.isRequired then .error (.tooShort position shape.title shape.slots.length)
    else shape.fill length (position + 1) a slots []
  | slot :: slots, j :: js =>
    (slot.read j).bind fun change => shape.fill length (position + 1) (change a) slots js

/-- Reads an array. -/
def ofArray (shape : Shape α) (js : List Json) : Except DataError α :=
  shape.fill js.length 0 shape.blank shape.slots js

/-- Reads a record in either spelling. -/
def decode (shape : Shape α) : Json → Except DataError α
  | .object members => shape.ofObject members
  | .array js => shape.ofArray js
  | j => .error (.wrongType (.ofJson j) (.record shape.title))

end Shape

end SchemaSharp
