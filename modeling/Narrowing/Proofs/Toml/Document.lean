import Narrowing.Proofs.Toml.Values

/-!
Written documents. A list of tables under one header is read back as it was written, table for
table and key for key, if all keys need no quotes and all values are read back from their texts.
-/
namespace Narrowing.Toml
open Reader

section
variable {rest : List Char}

theorem bareKey_parts {key : String} (bare : isBareKey key.toList = true) :
    ∃ c tail, key.toList = c :: tail ∧ ∀ d ∈ c :: tail, isBareKeyChar d = true := by
  rw [isBareKey, Bool.and_eq_true, List.all_eq_true] at bare
  obtain ⟨c, tail, text⟩ := List.exists_cons_of_ne_nil (l := key.toList) (by simpa using bare.1)
  exact ⟨c, tail, text, text ▸ bare.2⟩

theorem keyText_bare {key : String} (bare : isBareKey key.toList = true) : keyText key = key :=
  if_pos bare

theorem simpleKey_bare {key : String} (bare : isBareKey key.toList = true)
    (ends : Ends isBareKeyChar rest) : simpleKey (key.toList ++ rest) = some (key, rest) := by
  obtain ⟨c, tail, text, all⟩ := bareKey_parts bare
  have basic : c ≠ '"' := ne_of_kind (all c List.mem_cons_self) (by decide)
  have literal : c ≠ '\'' := ne_of_kind (all c List.mem_cons_self) (by decide)
  have read : run1 isBareKeyChar (c :: tail ++ rest) = some (c :: tail, rest) :=
    run1_append (List.cons_ne_nil c tail) all ends
  have joined : String.ofList (c :: tail) = key := by rw [← text, String.ofList_toList]
  rw [text]
  rw [List.cons_append] at read ⊢
  simp [simpleKey, onelineString, oneline, basic, literal, read, joined]

theorem dottedKey_bare {key : String} (bare : isBareKey key.toList = true) (gap rest : List Char)
    (blank : ∀ c ∈ gap, isBlank c = true) (ends : Ends isBareKeyChar (gap ++ rest))
    (dotless : Ends (fun c => isBlank c || c == '.') rest) :
    dottedKey (key.toList ++ (gap ++ rest)) = some (([], key), rest) := by
  obtain ⟨c, tail, text, all⟩ := bareKey_parts bare
  have visible : isBlank c = false := by
    have space : c ≠ ' ' := ne_of_kind (all c List.mem_cons_self) (by decide)
    have tab : c ≠ '\t' := ne_of_kind (all c List.mem_cons_self) (by decide)
    simp [isBlank, space, tab]
  have start : blanks (key.toList ++ (gap ++ rest)) = some ((), key.toList ++ (gap ++ rest)) :=
    blanks_none (by rw [text]; simpa using visible)
  have after : Ends isBlank rest ∧ Ends (· == '.') rest := by
    cases rest with
    | nil => simp
    | cons d rest => simpa using dotless
  have skipped : blanks (gap ++ rest) = some ((), rest) := by
    simp [blanks, run_append blank after.1]
  have last : many (symbol '.' *> (blanks *> simpleKey <* blanks)) rest = some ([], rest) :=
    many_none (by simp [symbol_ends after.2])
  simp [dottedKey, separated, start, simpleKey_bare bare ends, skipped, last, nestingLimit]

structure Entry (entry : String × Datum) : Prop where
  bare : isBareKey entry.1.toList = true
  legible : Legible (value (nestingLimit - 1)) entry.2

def entryText (entry : String × Datum) : List Char :=
  entry.1.toList ++ ' ' :: '=' :: ' ' :: (entry.2.inline.toList ++ ['\n'])

def headerText (name : String) : List Char := '[' :: '[' :: (name.toList ++ [']', ']', '\n'])

theorem line_entry {entry : String × Datum} (known : Entry entry) :
    line (entryText entry ++ rest) = some (.assignment [] entry.1 entry.2, rest) := by
  obtain ⟨c, tail, text, all⟩ := bareKey_parts known.bare
  have ne {d : Char} (other : isBareKeyChar d = false) : c ≠ d :=
    ne_of_kind (all c List.mem_cons_self) other
  have key := dottedKey_bare known.bare [' ']
    ('=' :: ' ' :: (entry.2.inline.toList ++ '\n' :: rest)) (by simp [isBlank])
    (by simp [isBareKeyChar]) (by simp [isBlank])
  have skipped : blanks (' ' :: (entry.2.inline.toList ++ '\n' :: rest)) =
      some ((), entry.2.inline.toList ++ '\n' :: rest) := by
    have after := (known.legible.opens.ends ('\n' :: rest)).2
    have space : ∀ c ∈ [' '], isBlank c = true := by simp [isBlank]
    have read := run_append space after
    rw [List.singleton_append] at read
    simp [blanks, read]
  have line_read : assignment (entryText entry ++ rest) =
      some (.assignment [] entry.1 entry.2, rest) := by
    have front : entryText entry ++ rest =
        entry.1.toList ++ ([' '] ++ '=' :: ' ' :: (entry.2.inline.toList ++ '\n' :: rest)) := by
      simp [entryText]
    rw [front]
    simp only [assignment, pair, bind_apply, key, Option.bind_some, symbol_cons, if_pos, skipped,
      known.legible.reads .line, pure_apply, lineEnd_newline]
  have start : entryText entry ++ rest =
      c :: (tail ++ ' ' :: '=' :: ' ' :: (entry.2.inline.toList ++ '\n' :: rest)) := by
    simp [entryText, text]
  have blankless : Ends isBlank (entryText entry ++ rest) := by
    rw [start, ends_cons]
    simp [isBlank, ne (d := ' ') (by decide), ne (d := '\t') (by decide)]
  rw [line, bind_apply, blanks_none blankless, Option.bind_some]
  simp only [orElse_apply, line_read]
  rw [start]
  simp [ne (d := '\r') (by decide), ne (d := '\n') (by decide), comment, ne (d := '#') (by decide),
    elementHeader, tableHeader, exactly, ne (d := '[') (by decide)]

theorem line_header {name : String} (bare : isBareKey name.toList = true) :
    line (headerText name ++ rest) = some (.elementHeader [] name, rest) := by
  have key := dottedKey_bare bare [] (']' :: ']' :: '\n' :: rest) (by simp)
    (by simp [isBareKeyChar]) (by simp [isBlank])
  have opening := exactly_append "[[" (name.toList ++ ']' :: ']' :: '\n' :: rest)
  have close := exactly_append "]]" ('\n' :: rest)
  have front : headerText name ++ rest =
      "[[".toList ++ (name.toList ++ ']' :: ']' :: '\n' :: rest) := by
    simp [headerText]
  have blankless : Ends isBlank (headerText name ++ rest) := by simp [headerText, isBlank]
  rw [line, bind_apply, blanks_none blankless, Option.bind_some]
  have header : elementHeader (headerText name ++ rest) = some (.elementHeader [] name, rest) := by
    rw [List.nil_append] at key
    have close : exactly "]]" (']' :: ']' :: '\n' :: rest) = some ((), '\n' :: rest) := close
    rw [front]
    simp only [elementHeader, bind_apply, opening, Option.bind_some, key, close, lineEnd_newline,
      pure_apply]
  simp only [orElse_apply, header]
  simp [headerText, comment]

theorem line_nil : line [] = none := by
  simp [line, blanks, run, comment, elementHeader, tableHeader, exactly, assignment, pair,
    dottedKey, separated, simpleKey, onelineString, oneline, run1]

def sectionText (name : String) (entries : List (String × Datum)) : List Char :=
  headerText name ++ entries.flatMap entryText

def sectionLines (name : String) (entries : List (String × Datum)) : List Line :=
  .elementHeader [] name :: entries.map fun entry => .assignment [] entry.1 entry.2

theorem entries_lines {entries : List (String × Datum)} (known : ∀ entry ∈ entries, Entry entry)
    {more : List Line} {last : List Char} (later : Repeats line rest more last) :
    Repeats line (entries.flatMap entryText ++ rest)
      ((entries.map fun entry => .assignment [] entry.1 entry.2) ++ more) last := by
  induction entries with
  | nil => exact later
  | cons entry entries ih =>
    rw [List.flatMap_cons, List.append_assoc]
    refine .step (line_entry (known entry List.mem_cons_self)) ?_
      (ih fun e inside => known e (List.mem_cons_of_mem entry inside))
    simp [entryText]
    omega

theorem sections_lines {name : String} (bare : isBareKey name.toList = true)
    {tables : List (List (String × Datum))}
    (known : ∀ entries ∈ tables, ∀ entry ∈ entries, Entry entry) :
    Repeats line (tables.flatMap (sectionText name)) (tables.flatMap (sectionLines name)) [] := by
  induction tables with
  | nil => exact .stop line_nil
  | cons entries tables ih =>
    have later := ih fun e inside => known e (List.mem_cons_of_mem entries inside)
    rw [List.flatMap_cons, List.flatMap_cons, sectionText, sectionLines, List.append_assoc,
      List.cons_append]
    refine .step (line_header bare) ?_ (entries_lines (known entries List.mem_cons_self) later)
    simp [headerText]
    omega

theorem lines_sections {name : String} (bare : isBareKey name.toList = true)
    {tables : List (List (String × Datum))}
    (known : ∀ entries ∈ tables, ∀ entry ∈ entries, Entry entry) :
    lines (tables.flatMap (sectionText name)) = some (tables.flatMap (sectionLines name), []) := by
  have all := many_of_repeats (sections_lines bare known)
  have mark : symbol '\ufeff' (tables.flatMap (sectionText name)) = none := by
    cases tables with
    | nil => rfl
    | cons entries tables => simp [sectionText, headerText]
  simp [lines, mark, all, blanks, run, atEnd]

end

def leaves (entries : List (String × Datum)) : Draft :=
  entries.map fun entry => (entry.1, .leaf entry.2)

def tablesUnder (name : String) (items : List Draft) : Draft := [(name, .tables items)]

theorem add_assignment (name : String) (items : List Draft) {key : String} {table : Draft}
    (d : Datum) (fresh : table.lookup key = none) :
    Outline.add ⟨tablesUnder name (items ++ [table]), [name]⟩ (.assignment [] key d) =
      some ⟨tablesUnder name (items ++ [table ++ [(key, .leaf d)]]), [name]⟩ := by
  simp [Outline.add, tablesUnder, Draft.assignWithin, Draft.modify, Draft.assign, Draft.insert,
    fresh, Draft.replace]

theorem add_header (name : String) (items : List Draft) (header : List String) :
    Outline.add ⟨tablesUnder name items, header⟩ (.elementHeader [] name) =
      some ⟨tablesUnder name (items ++ [[]]), [name]⟩ := by
  simp [Outline.add, tablesUnder, Draft.openElement, Draft.modify, Draft.replace]

theorem add_first (name : String) (header : List String) :
    Outline.add ⟨[], header⟩ (.elementHeader [] name) = some ⟨tablesUnder name [[]], [name]⟩ := by
  simp [Outline.add, tablesUnder, Draft.openElement, Draft.modify]

theorem lookup_leaves {entries : List (String × Datum)} {key : String}
    (fresh : key ∉ entries.map Prod.fst) : (leaves entries).lookup key = none := by
  induction entries with
  | nil => rfl
  | cons entry entries ih =>
    rw [List.map_cons, List.mem_cons, not_or] at fresh
    have other : (key == entry.1) = false := by simpa using fresh.1
    rw [leaves, List.map_cons, List.lookup_cons, other]
    exact ih fresh.2

theorem add_entries (name : String) (items : List Draft) (before : List (String × Datum))
    {entries : List (String × Datum)} (distinct : ((before ++ entries).map Prod.fst).Nodup) :
    (entries.map fun entry => Line.assignment [] entry.1 entry.2).foldlM Outline.add
        ⟨tablesUnder name (items ++ [leaves before]), [name]⟩ =
      some ⟨tablesUnder name (items ++ [leaves (before ++ entries)]), [name]⟩ := by
  induction entries generalizing before with
  | nil => simp
  | cons entry entries ih =>
    have fresh : entry.1 ∉ before.map Prod.fst := by
      simp only [List.map_append, List.map_cons, List.nodup_append, List.mem_cons] at distinct
      intro inside
      exact distinct.2.2 _ inside _ (Or.inl rfl) rfl
    have more : ((before ++ [entry] ++ entries).map Prod.fst).Nodup := by simpa using distinct
    have added := add_assignment name items entry.2 (lookup_leaves fresh)
    have grown : leaves before ++ [(entry.1, .leaf entry.2)] = leaves (before ++ [entry]) := by
      simp [leaves]
    rw [grown] at added
    have rest := ih (before ++ [entry]) more
    rw [List.append_assoc, List.singleton_append] at rest
    simp [added, rest]

theorem add_sections (name : String) {tables : List (List (String × Datum))}
    (distinct : ∀ entries ∈ tables, (entries.map Prod.fst).Nodup) (items : List Draft)
    (header : List String) :
    ∃ header', (tables.flatMap (sectionLines name)).foldlM Outline.add
        ⟨tablesUnder name items, header⟩ =
      some ⟨tablesUnder name (items ++ tables.map leaves), header'⟩ := by
  induction tables generalizing items header with
  | nil => exact ⟨header, by simp⟩
  | cons entries tables ih =>
    obtain ⟨header', rest⟩ := ih (fun e inside => distinct e (List.mem_cons_of_mem entries inside))
      (items ++ [leaves entries]) [name]
    have table := add_entries name items [] (distinct entries List.mem_cons_self)
    refine ⟨header', ?_⟩
    rw [List.flatMap_cons, sectionLines, List.cons_append, List.foldlM_cons, add_header,
      Option.bind_eq_bind, Option.bind_some, List.foldlM_append]
    rw [leaves, List.map_nil, List.nil_append] at table
    rw [table, Option.bind_eq_bind, Option.bind_some, rest]
    simp

theorem datum_leaves (entries : List (String × Datum)) :
    Node.fields (leaves entries) = entries := by
  induction entries with
  | nil => rfl
  | cons entry entries ih =>
    rw [leaves, List.map_cons, Node.fields, ← leaves, ih]
    rfl

theorem elements_leaves (tables : List (List (String × Datum))) :
    Node.elements (tables.map leaves) = tables.map Datum.table := by
  induction tables with
  | nil => rfl
  | cons entries tables ih => rw [List.map_cons, Node.elements, datum_leaves, ih, List.map_cons]

def treeOf (name : String) (tables : List (List (String × Datum))) : List (String × Datum) :=
  if tables = [] then [] else [(name, .array (tables.map .table))]

theorem tree_sections (name : String) {tables : List (List (String × Datum))}
    (distinct : ∀ entries ∈ tables, (entries.map Prod.fst).Nodup) :
    ∃ outline, (tables.flatMap (sectionLines name)).foldlM Outline.add ⟨[], []⟩ = some outline ∧
      Node.fields outline.root = treeOf name tables := by
  cases tables with
  | nil => exact ⟨⟨[], []⟩, rfl, rfl⟩
  | cons entries tables =>
    obtain ⟨header, all⟩ := add_sections name distinct [] [name]
    -- the first header makes the tables that every later one adds to
    have first : ((entries :: tables).flatMap (sectionLines name)).foldlM Outline.add ⟨[], []⟩ =
        ((entries :: tables).flatMap (sectionLines name)).foldlM Outline.add
          ⟨tablesUnder name [], [name]⟩ := by
      rw [List.flatMap_cons, sectionLines, List.cons_append, List.foldlM_cons, List.foldlM_cons,
        add_first, add_header, List.nil_append]
    refine ⟨_, first.trans all, ?_⟩
    rw [tablesUnder, Node.fields, Node.datum, List.nil_append, elements_leaves, treeOf,
      if_neg (List.cons_ne_nil entries tables)]
    rfl

/-- A document of tables under one key is read back as it was written. -/
theorem parse_sections {name : String} (bare : isBareKey name.toList = true)
    {tables : List (List (String × Datum))}
    (known : ∀ entries ∈ tables, ∀ entry ∈ entries, Entry entry)
    (distinct : ∀ entries ∈ tables, (entries.map Prod.fst).Nodup) {text : String}
    (written : text.toList = tables.flatMap (sectionText name)) :
    parse text = some (treeOf name tables) := by
  have read : StateT.run lines text.toList = some (tables.flatMap (sectionLines name), []) := by
    rw [written]
    exact lines_sections bare known
  obtain ⟨outline, folded, fields⟩ := tree_sections name distinct
  rw [parse, read]
  simp only [Option.bind_eq_bind, Option.bind_some, folded, fields, Option.pure_def]

theorem tableText_toList {entries : List (String × Datum)}
    (bare : ∀ entry ∈ entries, isBareKey entry.1.toList = true) :
    (tableText entries).toList = entries.flatMap entryText := by
  induction entries with
  | nil => rfl
  | cons entry entries ih =>
    have rest := ih fun e inside => bare e (List.mem_cons_of_mem entry inside)
    rw [tableText, String.toList_join] at rest ⊢
    rw [Datum.inlineEntries, List.map_cons, List.flatMap_cons, rest, List.flatMap_cons,
      keyText_bare (bare entry List.mem_cons_self)]
    simp [entryText]

end Narrowing.Toml
