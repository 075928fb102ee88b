/-
Generation: one C# file for each class, interface and enum of a schema.

A run goes through the descriptors in output order and stops at the first
that has no name, repeats the file of an earlier one, or cannot be
rendered. `run` gives the log of the run together with its result;
`generate` is its result alone.
-/
import SchemaSharp.CSharp.Declaration

namespace SchemaSharp

/-! ## Target -/

/-- A target of generation, as callers refer to it. -/
structure Target where
  name : String
  language : String
  extension : String

/-- The one target. -/
def csharp : Target := ⟨"csharp", "csharp", "cs"⟩

/-- A generated file. -/
structure SourceFile where
  name : String
  content : String
  deriving DecidableEq

/-! ## Log -/

/-- What a run logs. -/
inductive Event
  /-- The schema has an enum that no file is generated for. -/
  | skippedReserved
  | generated (file kind : String)
  /-- A descriptor that could not be rendered. -/
  | failed (descriptor : String) (error : GenerateError)
  | complete (files : Nat)
  deriving DecidableEq

/-- How much an event matters. -/
inductive Level
  | debug
  | warn
  deriving DecidableEq

namespace Event

/-- Failures are warned of. -/
def level : Event → Level
  | failed .. => .warn
  | _ => .debug

/-- The text of an event. -/
def message : Event → String
  | skippedReserved => "skipping reserved operation enum"
  | generated .. => "generated"
  | failed .. => "generation failed"
  | complete _ => "generation complete"

/-- The details of an event, by name. -/
def details : Event → List (String × String)
  | skippedReserved => []
  | generated file kind => [("file", file), ("kind", kind)]
  | failed descriptor error => [("descriptor", descriptor), ("error", error.message)]
  | complete files => [("files", Numeral.natText files)]

end Event

/-! ## Runs -/

/-- What a run logs and what it results in. -/
structure Run where
  log : List Event
  result : Except GenerateError (List SourceFile)

namespace Descriptor

/-- The file that a descriptor is written to. -/
def fileName (d : Descriptor) : String := s!"{d.name}.{csharp.extension}"

/-- Why a descriptor gets no file, whatever it holds: it has no name, or its
file is one of the `earlier` ones. -/
def rejection? (earlier : List String) (d : Descriptor) : Option GenerateError :=
  if d.name = "" then some (.unnamed d.kind)
  else if d.fileName ∈ earlier then some (.duplicateOutput d.fileName d.kind d.name)
  else none

end Descriptor

namespace Run

/-- A first event before a run. -/
def after (event : Event) (r : Run) : Run := { r with log := event :: r.log }

/-- A first file before a run, with the event of its generation. -/
def afterFile (file : SourceFile) (kind : String) (r : Run) : Run :=
  ⟨.generated file.name kind :: r.log, r.result.map (file :: ·)⟩

/-- A last event that tells the number of files, unless the run failed. -/
def completed (r : Run) : Run :=
  match r.result with
  | .ok files => { r with log := r.log ++ [.complete files.length] }
  | .error _ => r

/-- Generates the files of descriptors after the `earlier` files. -/
def ofDescriptors (render : Descriptor → Except GenerateError String) (earlier : List String) :
    List Descriptor → Run
  | [] => ⟨[], .ok []⟩
  | d :: ds => match d.rejection? earlier with
    | some e => ⟨[], .error e⟩
    | none => match render d with
      | .error e => ⟨[.failed d.name e], .error e⟩
      | .ok content =>
        (ofDescriptors render (d.fileName :: earlier) ds).afterFile ⟨d.fileName, content⟩ d.kind

end Run

/-! ## Generation -/

/-- One run over a schema, with a type table of its own. -/
def run (s : Schema) (options : Options) : Run :=
  let r := (Run.ofDescriptors (·.render (.ofSchema s) options) [] s.outputs).completed
  if s.enums.any (·.isReserved) then r.after .skippedReserved else r

/-- The files of a schema. -/
def generate (s : Schema) (options : Options) : Except GenerateError (List SourceFile) :=
  (run s options).result

/-- A run over a schema in JSON. A schema that does not load logs nothing. -/
def runText (text : String) (options : Options) : Run :=
  match Schema.load text with
  | .ok s => run s options
  | .error e => ⟨[], .error (.load e)⟩

/-- The files of a schema in JSON. -/
def generateText (text : String) (options : Options) :
    Except GenerateError (List SourceFile) :=
  (runText text options).result

/-- The files of a schema in a JSON file. -/
def generateFile (bytes : Option ByteArray) (options : Options) :
    Except GenerateError (List SourceFile) :=
  ((fileText bytes).mapError .file).bind fun text => generateText text options

end SchemaSharp
