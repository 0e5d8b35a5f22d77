import Narrowing.Store
import Narrowing.Toml.Document
import Narrowing.Toml.Printer

/-!
Seed files: TOML documents with a list of tables under the key `variable`, one for each seed, and
the same tables as a store or a seed writes them. A value that has been read can be rescaled into
another unit.
-/
namespace Narrowing
open Toml

def Provenance.text : Provenance → String
  | .given => "given"
  | .derived => "derived"
  | .assumed => "assumed"
  | .declaredUnknown => "declared_unknown"

def Provenance.ofText? (s : String) : Option Provenance :=
  [.given, .derived, .assumed, .declaredUnknown].find? fun p => p.text = s

/-- A provenance is written as its name, or as a table with that name as its only key and
    nothing under it. -/
def Provenance.ofDatum? : Datum → Option Provenance
  | .text s => ofText? s
  | .table [(key, d)] => if d.isHollow then ofText? key else none
  | _ => none

namespace Value

def ofDatum? (d : Datum) : Option Value :=
  match d with
  | .array [a, b] => do
    let lo ← a.float?
    let hi ← b.float?
    match Interval.ofEnds lo hi with
    | .ok range => some (.interval range)
    | .error _ => none
  | _ => d.float?.map .scalar

def toDatum : Value → Datum
  | .scalar x => .number x
  | .interval range => .array [.number range.lo, .number range.hi]

end Value

def readOptional {α : Type} (read : Datum → Option α) : Option Datum → Option (Option α)
  | none => some none
  | some d => (read d).map some

namespace Seed

def ofParts? (name provenance unit value : Option Datum) : Option Seed := do
  let name ← (← name).text?
  let provenance ← Provenance.ofDatum? (← provenance)
  let unit ← readOptional Datum.text? unit
  let value ← readOptional Value.ofDatum? value
  return ⟨name, provenance, unit.getD "", value⟩

/-- A seed is a table, other keys of which are ignored, or the list of its parts in order. -/
def ofDatum? : Datum → Option Seed
  | .table entries =>
    let part := Datum.field? entries
    ofParts? (part "name") (part "provenance") (part "unit") (part "value")
  | .array parts => ofParts? parts[0]? parts[1]? parts[2]? parts[3]?
  | _ => none

def toEntries (seed : Seed) : List (String × Datum) :=
  [("name", .text seed.name), ("provenance", .text seed.provenance.text),
    ("unit", .text seed.unit)] ++ (seed.value.map fun v => ("value", v.toDatum)).toList

def toml (seed : Seed) : String := tableText seed.toEntries

end Seed

def Variable.toSeed (v : Variable) : Seed := ⟨v.name, v.provenance, v.unit, some v.value⟩

def Store.sections (s : Store) : List (String × List (String × Datum)) :=
  s.toList.map fun v => (v.name, v.toSeed.toEntries)

def Store.toml (s : Store) : String := sectionsText s.sections

inductive LoadError where
  | parse
  | convert (name : String) (cause : BoundsError)
  deriving DecidableEq, Repr

namespace LoadError

def message : LoadError → String
  | .parse => "failed to parse seed file"
  | .convert name _ => "seed `" ++ name ++ "` has an invalid value after unit conversion"

def causes : LoadError → List String
  | .parse => []
  | .convert _ cause => [cause.message]

end LoadError

namespace SeedFile

/-- The seeds of a document's tree. Without the key there are none; other keys are ignored. -/
def seedsOf? (entries : List (String × Datum)) : Option (List Seed) :=
  match Datum.field? entries "variable" with
  | none => some []
  | some (.array items) => items.mapM Seed.ofDatum?
  | some _ => none

def load (text : String) : Except LoadError (List Seed) :=
  match (parse text).bind seedsOf? with
  | some seeds => .ok seeds
  | none => .error .parse

def render (seeds : List Seed) : String :=
  String.join (seeds.map fun seed => "[[variable]]\n" ++ seed.toml)

end SeedFile

def Value.rescale (factor : Float) : Value → Except BoundsError Value
  | .scalar x => .ok (.scalar (x * factor))
  | .interval range => Value.ofEnds (range.lo * factor) (range.hi * factor)

def Seed.rescale (seed : Seed) (factor : Float) (unit : String) : Except LoadError Seed :=
  match seed.value with
  | none => .ok { seed with unit := unit }
  | some value =>
    match value.rescale factor with
    | .ok scaled => .ok { seed with unit := unit, value := some scaled }
    | .error cause => .error (.convert seed.name cause)

end Narrowing
