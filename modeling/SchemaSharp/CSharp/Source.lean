/-
C# source files as lines.

A file uses namespaces and declares one type. The lines of the
declaration carry their depth, so a namespace around them is one more line
at either end and one more tab before each line that is not blank.
-/

namespace SchemaSharp

/-- A line of source, indented by tabs. -/
inductive Line
  | blank
  | code (depth : Nat) (text : String)
  deriving DecidableEq

namespace Line

/-- One tab deeper; blank lines stay blank. -/
def indent : Line → Line
  | blank => blank
  | code depth text => code (depth + 1) text

/-- A line without its end. -/
def text : Line → String
  | blank => ""
  | code depth text => .ofList (List.replicate depth '\t') ++ text

end Line

/-- The namespaces that a file uses, and the declaration it holds. -/
structure Source where
  usings : List String
  body : List Line
  deriving DecidableEq

namespace Source

/-- The declaration, inside a namespace if there is one. -/
def enclosed (body : List Line) : Option String → List Line
  | none => body
  | some n => .code 0 s!"namespace {n} \x7b" :: (body.map Line.indent ++ [.code 0 "\x7d"])

/-- The lines of a file: using directives, a blank line after them, the
declaration. -/
def lines (s : Source) (scope : Option String) : List Line :=
  s.usings.map (fun name => .code 0 s!"using {name};") ++ (if s.usings = [] then [] else [.blank]) ++
    enclosed s.body scope

/-- Every line ends with a line feed. -/
def text (s : Source) (scope : Option String) : String :=
  String.join ((s.lines scope).map fun line => line.text ++ "\n")

end Source

end SchemaSharp
