import Narrowing.Equation.Basic

/-!
Catalogs: equations by name, each of them without defect. The order of names fixes the order in
which a solver applies them.
-/
namespace Narrowing

inductive CatalogError where
  | duplicate (name : String)
  | invalid (cause : EquationError)
  deriving DecidableEq, Repr

namespace CatalogError

def message : CatalogError → String
  | .duplicate name => "equation `" ++ name ++ "` is already in the catalog"
  | .invalid cause => cause.message

def causes : CatalogError → List String
  | .duplicate _ => []
  | .invalid cause => cause.causes

end CatalogError

structure Catalog where
  equations : Roster Equation Equation.name
  sound : ∀ e ∈ equations.entries, e.fault? = none

namespace Catalog

def empty : Catalog := ⟨.empty, by simp [Roster.empty]⟩

/-- Adds an equation. A defect is reported before a name that is taken. -/
def insert (c : Catalog) (e : Equation) : Except CatalogError Catalog :=
  match valid : e.fault? with
  | some fault => .error (.invalid ⟨e.name, fault⟩)
  | none =>
    if c.equations.contains e.name then .error (.duplicate e.name)
    else
      .ok ⟨c.equations.put e, fun _ member =>
        (Roster.mem_of_mem_place member).elim (fun same => same ▸ valid) (c.sound _)⟩

def ofList (equations : List Equation) : Except CatalogError Catalog :=
  equations.foldlM insert .empty

def find? (c : Catalog) (name : String) : Option Equation := c.equations.find? name

def toList (c : Catalog) : List Equation := c.equations.entries

def names (c : Catalog) : List String := c.equations.keys

def size (c : Catalog) : Nat := c.equations.size

end Catalog

end Narrowing
