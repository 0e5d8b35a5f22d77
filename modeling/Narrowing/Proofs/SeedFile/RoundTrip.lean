import Narrowing.Proofs.SeedFile.Rereading
import Narrowing.Proofs.Toml.Document

/-!
Seed files that are written and read again. The text of a list of seeds is parsed as their tree, and
the tree is read as these seeds, whichever reader it comes from. Whatever file is read, the pairs of
numbers in it are the ends of the intervals of its seeds: a pair that is no interval makes the file
fail.
-/
namespace Narrowing
open Toml

theorem Value.ofDatum_pair {a b : Datum} {lo hi : Float} {value : Value}
    (first : a.float? = some lo) (second : b.float? = some hi)
    (read : ofDatum? (.array [a, b]) = some value) :
    ∃ range : Interval, value = .interval range ∧ range.lo = lo ∧ range.hi = hi := by
  simp only [ofDatum?, first, second, Option.bind_eq_bind, Option.bind_some] at read
  cases made : Interval.ofEnds lo hi with
  | error e => simp [made] at read
  | ok range =>
    rw [made] at read
    exact ⟨range, (Option.some.inj read).symm, (Interval.ofEnds_ok_iff lo hi range).mp made⟩

theorem Value.pair_of_interval {d : Datum} {range : Interval}
    (read : ofDatum? d = some (.interval range)) :
    ∃ a b, d = .array [a, b] ∧ a.float? = some range.lo ∧ b.float? = some range.hi := by
  unfold ofDatum? at read
  split at read
  · rename_i a b
    simp only [Option.bind_eq_bind, Option.bind_eq_some_iff] at read
    obtain ⟨lo, first, hi, second, made⟩ := read
    split at made
    · rename_i found ends
      obtain rfl : found = range := by simpa using made
      obtain ⟨rfl, rfl⟩ := (Interval.ofEnds_ok_iff lo hi found).mp ends
      exact ⟨a, b, rfl, first, second⟩
    · cases made
  · simp at read

theorem readOptional_some {α : Type} {read : Datum → Option α} {part : Option Datum} {a : α}
    (done : readOptional read part = some (some a)) : ∃ d, part = some d ∧ read d = some a := by
  cases part with
  | none => simp [readOptional] at done
  | some d => exact ⟨d, rfl, by simpa [readOptional] using done⟩

theorem read_of_readOptional {α : Type} {read : Datum → Option α} {d : Datum} {found : Option α}
    (done : readOptional read (some d) = some found) : ∃ a, found = some a ∧ read d = some a := by
  cases result : read d with
  | none => simp [readOptional, result] at done
  | some a => exact ⟨a, by simpa [readOptional, result] using done.symm, rfl⟩

namespace Seed

def valuePart? : Datum → Option Datum
  | .table entries => Datum.field? entries "value"
  | .array parts => parts[3]?
  | _ => none

def HasPair (item : Datum) (lo hi : Float) : Prop :=
  ∃ a b, valuePart? item = some (.array [a, b]) ∧ a.float? = some lo ∧ b.float? = some hi

/-- A seed and the datum it was read from. Where two numbers stand they are in order, and they are
    the ends of the seed's interval; it has no interval otherwise. -/
structure Checked (item : Datum) (seed : Seed) : Prop where
  ordered : ∀ {lo hi}, HasPair item lo hi → lo.isNaN = false ∧ hi.isNaN = false ∧ lo ≤ hi
  ends : ∀ {lo hi}, HasPair item lo hi →
    ∃ range, seed.value = some (.interval range) ∧ range.lo = lo ∧ range.hi = hi
  found : ∀ {range}, seed.value = some (.interval range) → HasPair item range.lo range.hi

theorem value_of_ofParts {name provenance unit value : Option Datum} {seed : Seed}
    (read : ofParts? name provenance unit value = some seed) :
    readOptional Value.ofDatum? value = some seed.value := by
  unfold ofParts? at read
  simp only [Option.bind_eq_bind, Option.bind_eq_some_iff, Option.pure_def, Option.some.injEq]
    at read
  obtain ⟨_, _, _, _, _, _, _, _, _, _, found, last, rfl⟩ := read
  exact last

theorem value_of_ofDatum {item : Datum} {seed : Seed} (read : ofDatum? item = some seed) :
    readOptional Value.ofDatum? (valuePart? item) = some seed.value := by
  cases item with
  | table entries => exact value_of_ofParts read
  | array parts => exact value_of_ofParts read
  | _ => simp [ofDatum?] at read

theorem checked_of_ofDatum {item : Datum} {seed : Seed} (read : ofDatum? item = some seed) :
    Checked item seed := by
  have value := value_of_ofDatum read
  have ends {lo hi : Float} (pair : HasPair item lo hi) :
      ∃ range, seed.value = some (.interval range) ∧ range.lo = lo ∧ range.hi = hi := by
    obtain ⟨a, b, part, first, second⟩ := pair
    rw [part] at value
    obtain ⟨found, held, made⟩ := read_of_readOptional value
    obtain ⟨range, rfl, bounds⟩ := Value.ofDatum_pair first second made
    exact ⟨range, held, bounds⟩
  refine ⟨?_, ends, ?_⟩
  · intro lo hi pair
    obtain ⟨range, _, rfl, rfl⟩ := ends pair
    exact ⟨range.lo_number, range.hi_number, range.lo_le_hi⟩
  · intro range held
    rw [held] at value
    obtain ⟨d, part, made⟩ := readOptional_some value
    obtain ⟨a, b, rfl, first, second⟩ := Value.pair_of_interval made
    exact ⟨a, b, part, first, second⟩

end Seed

theorem Value.toDatum_legible (value : Value) :
    Legible (Toml.value (nestingLimit - 1)) value.toDatum := by
  cases value with
  | scalar x => exact (legible_number x).value _
  | interval range =>
    change Legible (Toml.value (nestingLimit - 2 + 1)) (.array [.number range.lo, .number range.hi])
    refine legible_array ?_
    intro d inside
    rcases List.mem_pair.mp inside with rfl | rfl
    · exact (legible_number range.lo).value _
    · exact (legible_number range.hi).value _

theorem Seed.toEntries_entry (seed : Seed) : ∀ entry ∈ seed.toEntries, Entry entry := by
  have text {key : String} (bare : isBareKey key.toList = true) (s : String) :
      Entry (key, .text s) :=
    ⟨bare, (legible_text s).value _⟩
  intro entry inside
  simp only [toEntries, List.mem_append, List.mem_cons, List.not_mem_nil, or_false,
    Option.mem_toList, Option.map_eq_some_iff] at inside
  rcases inside with (rfl | rfl | rfl) | ⟨value, _, rfl⟩
  · exact text (by decide) _
  · exact text (by decide) _
  · exact text (by decide) _
  · have bare : isBareKey "value".toList = true := by decide
    exact ⟨bare, value.toDatum_legible⟩

theorem Seed.toEntries_distinct (seed : Seed) : (seed.toEntries.map Prod.fst).Nodup := by
  unfold toEntries
  cases seed.value <;> simp

namespace SeedFile

def tree (seeds : List Seed) : List (String × Datum) :=
  treeOf "variable" (seeds.map Seed.toEntries)

theorem render_toList (seeds : List Seed) :
    (render seeds).toList = (seeds.map Seed.toEntries).flatMap (sectionText "variable") := by
  have header : "[[variable]]\n".toList = headerText "variable" := by decide
  have table (seed : Seed) : ("[[variable]]\n" ++ seed.toml).toList =
      sectionText "variable" seed.toEntries := by
    rw [String.toList_append, header, Seed.toml,
      tableText_toList fun entry inside => (seed.toEntries_entry entry inside).bare]
    rfl
  rw [render, String.toList_join, List.flatMap_map, List.flatMap_map]
  exact congrArg (seeds.flatMap ·) (funext table)

theorem parse_render (seeds : List Seed) : parse (render seeds) = some (tree seeds) := by
  refine parse_sections (by decide) ?_ ?_ (render_toList seeds)
  · intro entries inside
    obtain ⟨seed, _, rfl⟩ := List.mem_map.mp inside
    exact seed.toEntries_entry
  · intro entries inside
    obtain ⟨seed, _, rfl⟩ := List.mem_map.mp inside
    exact seed.toEntries_distinct

theorem seedsOf_tree (seeds : List Seed) : seedsOf? (tree seeds) = some seeds := by
  have read (seeds : List Seed) :
      (seeds.map fun seed => Datum.table seed.toEntries).mapM Seed.ofDatum? = some seeds := by
    induction seeds with
    | nil => rfl
    | cons seed rest ih =>
      rw [List.map_cons, List.mapM_cons, Seed.ofDatum_toEntries, ih]
      rfl
  cases seeds with
  | nil => rfl
  | cons seed rest =>
    have items := read (seed :: rest)
    rw [← Function.comp_def, ← List.map_map] at items
    exact items

/-- Loading with any reader of documents in the place of the parser. -/
def loadWith (read : String → Option (List (String × Datum))) (text : String) :
    Except LoadError (List Seed) :=
  match (read text).bind seedsOf? with
  | some seeds => .ok seeds
  | none => .error .parse

theorem load_eq : load = loadWith parse := rfl

def itemsWith (read : String → Option (List (String × Datum))) (text : String) : List Datum :=
  match (read text).bind fun entries => Datum.field? entries "variable" with
  | some (.array found) => found
  | _ => []

def items (text : String) : List Datum := itemsWith parse text

section
variable {read : String → Option (List (String × Datum))}

theorem loadWith_render {seeds : List Seed} (faithful : read (render seeds) = some (tree seeds)) :
    loadWith read (render seeds) = .ok seeds := by
  unfold loadWith
  rw [faithful, Option.bind_some, seedsOf_tree]

theorem checked_of_mapM {found : List Datum} {seeds : List Seed}
    (read : found.mapM Seed.ofDatum? = some seeds) : List.Forall₂ Seed.Checked found seeds := by
  induction found generalizing seeds with
  | nil =>
    obtain rfl : [] = seeds := by simpa using read
    exact .nil
  | cons item rest ih =>
    simp only [List.mapM_cons, Option.bind_eq_bind, Option.bind_eq_some_iff, Option.pure_def,
      Option.some.injEq] at read
    obtain ⟨seed, first, later, remaining, rfl⟩ := read
    exact .cons (Seed.checked_of_ofDatum first) (ih remaining)

theorem checked_of_loadWith {text : String} {seeds : List Seed}
    (loaded : loadWith read text = .ok seeds) :
    List.Forall₂ Seed.Checked (itemsWith read text) seeds := by
  unfold loadWith at loaded
  unfold itemsWith
  cases parsed : read text with
  | none => simp [parsed] at loaded
  | some entries =>
    have read : seedsOf? entries = some seeds := by
      cases result : seedsOf? entries with
      | none => simp [parsed, result] at loaded
      | some found => simpa [parsed, result] using loaded
    unfold seedsOf? at read
    rw [Option.bind_some]
    split at read
    · rename_i missing
      rw [missing]
      cases read
      exact .nil
    · rename_i found present
      rw [present]
      exact checked_of_mapM read
    · cases read

end

/-- With any reader that reads a written file as its tree, the file is loaded as the seeds it was
    written from, and with no reader does a file bring in an interval that is out of order. The
    parser is such a reader for every list of seeds. -/
theorem round_trip :
    (∀ read : String → Option (List (String × Datum)),
      (∀ seeds, read (render seeds) = some (tree seeds) →
        loadWith read (render seeds) = .ok seeds) ∧
      ∀ text seeds, loadWith read text = .ok seeds →
        List.Forall₂ Seed.Checked (itemsWith read text) seeds) ∧
    (∀ seeds, load (render seeds) = .ok seeds) ∧
    ∀ text seeds, load text = .ok seeds → List.Forall₂ Seed.Checked (items text) seeds := by
  refine ⟨fun read => ⟨fun _ => loadWith_render, fun _ _ => checked_of_loadWith⟩, ?_, ?_⟩
  · intro seeds
    rw [load_eq]
    exact loadWith_render (parse_render seeds)
  · intro text seeds loaded
    rw [load_eq] at loaded
    exact checked_of_loadWith loaded

def assorted : List Seed :=
  [⟨"width", .declaredUnknown, "", none⟩, ⟨"mass", .given, "\"kg\"", some (.scalar infinity)⟩,
    ⟨"age", .assumed, "s", some (.interval ⟨⟨0.1, infinity⟩, by decide +kernel⟩)⟩]

theorem assorted_round_trip :
    parse (render assorted) = some (tree assorted) ∧
    loadWith parse (render assorted) = .ok assorted ∧ load (render assorted) = .ok assorted ∧
    List.Forall₂ Seed.Checked (items (render assorted)) assorted := by
  have faithful := parse_render assorted
  have loaded := round_trip.2.1 assorted
  exact ⟨faithful, (round_trip.1 parse).1 assorted faithful, loaded, round_trip.2.2 _ _ loaded⟩

end SeedFile

end Narrowing
