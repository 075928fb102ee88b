/-
Reading JSON text.

The grammar is strict: four blank characters, no comments, no trailing
commas, no raw control characters in strings, surrogates only in pairs, and
nothing after the document. Arrays and objects nest 127 deep. A reader
takes its part off the front of the text, or refuses the text.
-/
import SchemaSharp.Json.Number

namespace SchemaSharp

namespace Json

/-- Takes a value off the front of a text and gives what follows it. -/
abbrev Reader (α : Type) := List Char → Option (α × List Char)

/-- Space, tab, line feed and carriage return. -/
def isBlank (c : Char) : Bool := c == ' ' || c == '\t' || c == '\n' || c == '\r'

/-- What follows the blanks in front. -/
def skipBlanks (cs : List Char) : List Char := cs.dropWhile isBlank

/-! ## Strings -/

/-- What a letter after a backslash stands for. -/
def escape? : Char → Option Char
  | '"' => some '"'
  | '\\' => some '\\'
  | '/' => some '/'
  | 'b' => some '\x08'
  | 'f' => some '\x0c'
  | 'n' => some '\n'
  | 'r' => some '\r'
  | 't' => some '\t'
  | _ => none

/-- What a `\u` escape does after a high surrogate or without one: it adds
a character, or it is a high surrogate itself and waits for the low one. -/
def unit? (high : Option Nat) (n : Nat) : Option (Char ⊕ Nat) :=
  match high with
  | none =>
    if 0xd800 ≤ n ∧ n < 0xdc00 then some (.inr n)
    else if 0xdc00 ≤ n ∧ n < 0xe000 then none
    else some (.inl (.ofNat n))
  | some h =>
    if 0xdc00 ≤ n ∧ n < 0xe000 then
      some (.inl (.ofNat (0x10000 + (h - 0xd800) * 0x400 + (n - 0xdc00))))
    else none

/-- Reads the rest of a string after the characters in `read`, which stand
last one first. -/
def stringRest (read : List Char) (high : Option Nat) : Reader String
  | '\\' :: 'u' :: a :: b :: c :: d :: cs =>
    match (Numeral.natural? 16 [a, b, c, d]).bind (unit? high) with
    | some (.inl c) => stringRest (c :: read) none cs
    | some (.inr h) => stringRest read (some h) cs
    | none => none
  | '\\' :: c :: cs =>
    match high, escape? c with
    | none, some e => stringRest (e :: read) none cs
    | _, _ => none
  | c :: cs =>
    if high.isSome || c < ' ' then none
    else if c = '"' then some (.ofList read.reverse, cs)
    else stringRest (c :: read) none cs
  | [] => none

/-- A string with its quotation marks. -/
def quoted : Reader String
  | '"' :: cs => stringRest [] none cs
  | _ => none

/-! ## Sequences -/

/-- Reads items with commas between them up to the closing character. There
are at most `limit` of them. -/
def items {α : Type} (close : Char) (item : Reader α) (limit : Nat) : Reader (List α) := fun cs =>
  match limit with
  | 0 => none
  | limit + 1 => (item (skipBlanks cs)).bind fun (a, cs) =>
    match skipBlanks cs with
    | ',' :: cs => (items close item limit cs).map fun (as, cs) => (a :: as, cs)
    | c :: cs => if c = close then some ([a], cs) else none
    | [] => none

/-- Reads what follows an opening bracket: nothing, or items. -/
def bracketed {α : Type} (close : Char) (item : Reader α) (limit : Nat) : Reader (List α) :=
  fun cs =>
    match skipBlanks cs with
    | c :: rest => if c = close then some ([], rest) else items close item limit (c :: rest)
    | [] => none

/-- Reads a key, a colon and a value. -/
def member (value : Reader Json) : Reader (String × Json) := fun cs =>
  (quoted cs).bind fun (key, cs) =>
    match skipBlanks cs with
    | ':' :: cs => (value cs).map fun (v, cs) => ((key, v), cs)
    | _ => none

/-! ## Values -/

/-- Reads a value. The values inside it are read by `inner`; without one,
arrays and objects are refused. -/
def valueWith (limit : Nat) (inner : Option (Reader Json)) : Reader Json := fun cs =>
  match skipBlanks cs with
  | 'n' :: 'u' :: 'l' :: 'l' :: cs => some (.null, cs)
  | 't' :: 'r' :: 'u' :: 'e' :: cs => some (.bool true, cs)
  | 'f' :: 'a' :: 'l' :: 's' :: 'e' :: cs => some (.bool false, cs)
  | '"' :: cs => (stringRest [] none cs).map fun (s, cs) => (.string s, cs)
  | '[' :: cs => inner.bind fun value =>
    (bracketed ']' value limit cs).map fun (vs, cs) => (.array vs, cs)
  | '\x7b' :: cs => inner.bind fun value =>
    (bracketed '\x7d' (member value) limit cs).map fun (ms, cs) => (.object ms, cs)
  | cs => (Number.read cs).map fun (n, cs) => (.number n, cs)

/-- Reads a value with arrays and objects nested at most `depth` deep. -/
def value (limit : Nat) : Nat → Reader Json
  | 0 => valueWith limit none
  | depth + 1 => valueWith limit (some (value limit depth))

/-- Reads a whole document. -/
def read? (text : String) : Option Json :=
  match value text.length 127 text.toList with
  | some (json, rest) => if skipBlanks rest = [] then some json else none
  | none => none

end Json

end SchemaSharp
