import Narrowing.Proofs.Store.Seeding

/-!
Stores that are written and read again. What a seed is written as is read as that seed, so a store
whose text is read back as the tables it was written from can be seeded from them.
-/
namespace Narrowing
open Toml

namespace Toml

mutual

/-- The same tree, numbers bit for bit. -/
def Datum.same : Datum → Datum → Bool
  | .text s, .text t => s == t
  | .integer m, .integer n => m == n
  | .number x, .number y => decide (x = y)
  | .boolean a, .boolean b => a == b
  | .moment s, .moment t => s == t
  | .array l, .array r => Datum.sameItems l r
  | .table l, .table r => Datum.sameEntries l r
  | _, _ => false

def Datum.sameItems : List Datum → List Datum → Bool
  | [], [] => true
  | a :: l, b :: r => a.same b && Datum.sameItems l r
  | _, _ => false

def Datum.sameEntries : List (String × Datum) → List (String × Datum) → Bool
  | [], [] => true
  | (key, a) :: l, (key', b) :: r => key == key' && a.same b && Datum.sameEntries l r
  | _, _ => false

end

mutual

theorem Datum.eq_of_same {a b : Datum} (same : a.same b = true) : a = b := by
  cases a with
  | array l =>
    cases b with
    | array r =>
      simp only [Datum.same] at same
      rw [Datum.items_eq_of_same same]
    | _ => simp [Datum.same] at same
  | table l =>
    cases b with
    | table r =>
      simp only [Datum.same] at same
      rw [Datum.entries_eq_of_same same]
    | _ => simp [Datum.same] at same
  | _ => cases b <;> simp_all [Datum.same]

theorem Datum.items_eq_of_same {l r : List Datum} (same : Datum.sameItems l r = true) : l = r := by
  cases l with
  | nil => cases r <;> simp_all [Datum.sameItems]
  | cons a l =>
    cases r with
    | nil => simp [Datum.sameItems] at same
    | cons b r =>
      simp only [Datum.sameItems, Bool.and_eq_true] at same
      rw [Datum.eq_of_same same.1, Datum.items_eq_of_same same.2]

theorem Datum.entries_eq_of_same {l r : List (String × Datum)}
    (same : Datum.sameEntries l r = true) : l = r := by
  cases l with
  | nil => cases r <;> simp_all [Datum.sameEntries]
  | cons a l =>
    cases r with
    | nil => simp [Datum.sameEntries] at same
    | cons b r =>
      rcases a with ⟨key, a⟩
      rcases b with ⟨key', b⟩
      simp only [Datum.sameEntries, Bool.and_eq_true, beq_iff_eq] at same
      rw [same.1.1, Datum.eq_of_same same.1.2, Datum.entries_eq_of_same same.2]

end

theorem Datum.eq_some_of_same {read : Option (List (String × Datum))}
    {entries : List (String × Datum)} (same : read.any (Datum.sameEntries · entries) = true) :
    read = some entries := by
  cases read with
  | none => simp at same
  | some found => rw [Datum.entries_eq_of_same same]

end Toml

theorem Provenance.ofText_text (p : Provenance) : ofText? p.text = some p := by
  cases p <;> decide

theorem Value.ofDatum_toDatum (value : Value) : ofDatum? value.toDatum = some value := by
  cases value with
  | scalar x => rfl
  | interval range => simp [toDatum, ofDatum?, Datum.float?, Interval.ofEnds_self]

theorem Seed.ofDatum_toEntries (seed : Seed) : ofDatum? (.table seed.toEntries) = some seed := by
  rcases seed with ⟨name, provenance, unit, value⟩
  cases value with
  | none =>
    simp [ofDatum?, toEntries, Datum.field?, List.lookup, ofParts?, Datum.text?,
      Provenance.ofDatum?, Provenance.ofText_text, readOptional]
  | some value =>
    simp [ofDatum?, toEntries, Datum.field?, List.lookup, ofParts?, Datum.text?,
      Provenance.ofDatum?, Provenance.ofText_text, readOptional, Value.ofDatum_toDatum]

namespace Store

def tables (s : Store) : List (String × Datum) :=
  s.sections.map fun entries => (entries.1, .table entries.2)

def reread (read : String → Option (List (String × Datum))) (text : String) :
    Option (List Seed) := do
  let tables ← read text
  tables.mapM fun table => Seed.ofDatum? table.2

theorem tables_seeds (s : Store) :
    s.tables.mapM (fun table => Seed.ofDatum? table.2) = some (s.toList.map Variable.toSeed) := by
  unfold tables sections
  induction s.toList with
  | nil => rfl
  | cons v rest ih =>
    rw [List.map_cons, List.map_cons, List.mapM_cons, ih, Seed.ofDatum_toEntries]
    rfl

/-- A store whose text is read back as the tables it was written from can be seeded again from
    them, in any order, and is the same store. -/
theorem reseeded_in_any_order {s : Store} {read : String → Option (List (String × Datum))}
    (faithful : read s.toml = some s.tables) :
    ∃ seeds, reread read s.toml = some seeds ∧
      ∀ order, order.Perm seeds → seeded order = .ok s := by
  refine ⟨s.toList.map Variable.toSeed, ?_, fun order perm => seeded_toSeed perm⟩
  unfold reread
  rw [faithful]
  exact s.tables_seeds

def assorted : Store where
  roster := .ofList
    [.new "width" .declaredUnknown "m",
      (Variable.new "mass" .assumed "kg").offer (.interval ⟨⟨0.25, infinity⟩, by decide +kernel⟩),
      (Variable.new "age" .given "").offer (.interval ⟨⟨2.5, 2.5⟩, by decide +kernel⟩)]

theorem assorted_reseeded :
    ∃ seeds, reread Toml.parse assorted.toml = some seeds ∧
      ∀ order, order.Perm seeds → seeded order = .ok assorted := by
  exact reseeded_in_any_order (Datum.eq_some_of_same (by decide +kernel))

end Store

end Narrowing
