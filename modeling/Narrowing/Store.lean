import Narrowing.Roster
import Narrowing.Variable

/-!
Stores: the variables of a problem by name, and the seeds they start from. A variable is never
removed, and its name, provenance and unit never change.
-/
namespace Narrowing

structure Seed where
  name : String
  provenance : Provenance
  unit : String
  value : Option Value
  deriving DecidableEq

inductive StoreError where
  | duplicate (name : String)
  | notFound (name : String)
  | seed (cause : VariableError)
  deriving DecidableEq, Repr

namespace StoreError

def message : StoreError → String
  | .duplicate name => "variable `" ++ name ++ "` already exists"
  | .notFound name => "variable `" ++ name ++ "` not found"
  | .seed _ => "invalid seed value"

def causes : StoreError → List String
  | .seed cause => [cause.message]
  | _ => []

end StoreError

/-- The variable a seed stands for. An unbounded value says no more than a missing one. -/
def Seed.toVariable (seed : Seed) : Except VariableError Variable :=
  let blank := Variable.new seed.name seed.provenance seed.unit
  match seed.value with
  | none => .ok blank
  | some value =>
    if value == .unconstrained then .ok blank else (blank.update value).map Prod.fst

structure Store where
  roster : Roster Variable Variable.name

inductive NarrowError where
  | access (cause : StoreError)
  | refusal (cause : VariableError)
  deriving DecidableEq, Repr

namespace Store

def empty : Store := ⟨.empty⟩

def find? (s : Store) (name : String) : Option Variable := s.roster.find? name

def contains (s : Store) (name : String) : Bool := s.roster.contains name

def get (s : Store) (name : String) : Except StoreError Variable :=
  match s.find? name with
  | some v => .ok v
  | none => .error (.notFound name)

def toList (s : Store) : List Variable := s.roster.entries

def size (s : Store) : Nat := s.roster.size

def add (s : Store) (v : Variable) : Except StoreError Store :=
  if s.contains v.name then .error (.duplicate v.name) else .ok ⟨s.roster.put v⟩

def narrow (s : Store) (name : String) (proposed : Value) : Except NarrowError (Store × Bool) :=
  match s.get name with
  | .error e => .error (.access e)
  | .ok v =>
    match v.update proposed with
    | .error e => .error (.refusal e)
    | .ok (narrowed, changed) => .ok (⟨s.roster.put narrowed⟩, changed)

/-- Adds the variable of one seed. A value that the variable refuses is reported before a name
    that is taken. -/
def plant (s : Store) (seed : Seed) : Except StoreError Store :=
  match seed.toVariable with
  | .error e => .error (.seed e)
  | .ok v => s.add v

def seeded (seeds : List Seed) : Except StoreError Store := seeds.foldlM plant .empty

end Store

end Narrowing
