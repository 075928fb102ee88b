/-
JSON documents as trees.

A number is a whole number of 64 bits, signed or unsigned, or a finite
double. The members of an object stand as they were written; `byKey` is the
view that a reader of objects takes: one member per key, the last one
written, in ascending order of keys. `<` on strings compares code points,
which is the order of their UTF-8 bytes.
-/
import SchemaSharp.Double.Basic

namespace SchemaSharp

namespace Json

/-- A JSON number. -/
inductive Number
  | whole (n : Int) (fits : -(2 ^ 63) ≤ n ∧ n < 2 ^ 64)
  | real (x : Double) (finite : x.isFinite = true)
  deriving DecidableEq

end Json

/-- A JSON document. -/
inductive Json
  | null
  | bool (b : Bool)
  | number (n : Json.Number)
  | string (s : String)
  | array (items : List Json)
  | object (members : List (String × Json))

namespace Json

/-- Puts a member into a list in ascending order of keys, in place of one
with the same key. -/
def insertByKey (key : String) (value : Json) : List (String × Json) → List (String × Json)
  | [] => [(key, value)]
  | (k, v) :: rest =>
    if key = k then (key, value) :: rest
    else if key < k then (key, value) :: (k, v) :: rest
    else (k, v) :: insertByKey key value rest

/-- The members in ascending order of keys, of equal keys the last one. -/
def byKey (members : List (String × Json)) : List (String × Json) :=
  members.foldl (fun sorted m => insertByKey m.1 m.2 sorted) []

end Json

end SchemaSharp
