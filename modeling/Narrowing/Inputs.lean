/-!
Inputs: the numbers a form is evaluated at, by name.
-/
namespace Narrowing

structure UnboundInput where
  name : String
  deriving DecidableEq, Repr

def UnboundInput.message (e : UnboundInput) : String := "input `" ++ e.name ++ "` is not bound"

@[ext] structure Inputs (κ : Type) where
  find? : String → Option κ

namespace Inputs
variable {κ : Type}

def empty : Inputs κ := ⟨fun _ => none⟩

def bind (inputs : Inputs κ) (name : String) (x : κ) : Inputs κ :=
  ⟨fun n => if n = name then some x else inputs.find? n⟩

def ofList (bindings : List (String × κ)) : Inputs κ :=
  bindings.foldl (fun inputs b => inputs.bind b.1 b.2) empty

def get (inputs : Inputs κ) (name : String) : Except UnboundInput κ :=
  match inputs.find? name with
  | some x => .ok x
  | none => .error ⟨name⟩

theorem find?_bind (inputs : Inputs κ) (name n : String) (x : κ) :
    (inputs.bind name x).find? n = if n = name then some x else inputs.find? n := rfl

end Inputs

end Narrowing
