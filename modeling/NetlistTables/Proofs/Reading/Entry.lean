import NetlistTables.Proofs.Reading.Item

/-!
# What the items of a file say

The third stage of reading a generated file. Of the items that a file consists of, `arrays` picks
out the arrays of strings, `enumerations` the enumerations, and `captioned` those enumerations that
a comment stands right above. A record points to its lists by naming arrays; following these names
gives the entry of the table that the record stands for (`Entry.ofRecord?`), and `readTable` reads
all entries of the table in a source file.

None of this knows how the files are written. It relies on the C side alone: on the fields of the
structure, and on a null pointer for a list that is empty.
-/

namespace NetlistTables.Reading

/-! ## Picking out items -/

/-- The arrays of strings among some items, by their symbols. -/
def arrays (is : List Item) : List (String × List String) :=
  is.filterMap fun
    | .strings symbol elements => some (symbol, elements)
    | _ => none

/-- The enumerations among some items. -/
def enumerations (is : List Item) : List (List (String × Nat)) :=
  is.filterMap fun
    | .enumeration members => some members
    | _ => none

/-- The enumerators that some items declare, in one list, since they share a scope. -/
def enumerators (is : List Item) : List String := (enumerations is).flatten.map (·.1)

/-- The enumerations that stand right under a comment, by what the comment says. -/
def captioned : List Item → List (String × List (String × Nat))
  | .comment s :: .enumeration members :: is => (s, members) :: captioned is
  | _ :: is => captioned is
  | [] => []

/-- The symbols of the arrays that some items define, of strings or of structures. -/
def definedSymbols (is : List Item) : List String :=
  is.filterMap fun
    | .strings symbol _ => some symbol
    | .records _ symbol _ => some symbol
    | _ => none

/-- The records of the array of structures of a symbol. -/
def recordsOf (symbol : String) (is : List Item) : Option (List Record) :=
  is.findSome? fun
    | .records _ s rs => if s = symbol then some rs else none
    | _ => none

/-- All that is listed under a key. -/
def valuesOf {β : Type} (key : String) (xs : List (String × β)) : List β :=
  xs.filterMap fun x => if x.1 = key then some x.2 else none

section Append

variable (is is' : List Item)

theorem arrays_append : arrays (is ++ is') = arrays is ++ arrays is' := List.filterMap_append

theorem enumerations_append :
    enumerations (is ++ is') = enumerations is ++ enumerations is' := List.filterMap_append

theorem enumerators_append : enumerators (is ++ is') = enumerators is ++ enumerators is' := by
  rw [enumerators, enumerations_append, List.flatten_append, List.map_append, enumerators,
    enumerators]

theorem definedSymbols_append :
    definedSymbols (is ++ is') = definedSymbols is ++ definedSymbols is' := List.filterMap_append

end Append

/-- Where the records of a symbol are found, the symbol is defined. -/
theorem mem_definedSymbols_of_recordsOf {symbol : String} {is : List Item} {rs : List Record}
    (h : recordsOf symbol is = some rs) : symbol ∈ definedSymbols is := by
  obtain ⟨i, hi, hrs⟩ := List.exists_of_findSome?_eq_some h
  cases i with
  | records tag s rs' =>
    dsimp only at hrs
    split at hrs
    next hs => exact List.mem_filterMap.2 ⟨_, hi, congrArg some hs⟩
    next => cases hrs
  | _ => cases hrs

section Keys

variable {β : Type}

theorem valuesOf_append (key : String) (xs ys : List (String × β)) :
    valuesOf key (xs ++ ys) = valuesOf key xs ++ valuesOf key ys := List.filterMap_append

theorem valuesOf_eq_nil {key : String} {xs : List (String × β)} (h : ∀ x ∈ xs, x.1 ≠ key) :
    valuesOf key xs = [] := by
  rw [valuesOf, List.filterMap_eq_nil_iff]
  intro x hx
  rw [if_neg (h x hx)]

/-- Looking up a key gives the first that is listed under it. -/
theorem lookup_eq_head?_valuesOf (key : String) (xs : List (String × β)) :
    xs.lookup key = (valuesOf key xs).head? := by
  induction xs with
  | nil => rfl
  | cons x xs ih =>
    rw [List.lookup_cons, valuesOf, List.filterMap_cons]
    by_cases h : x.1 = key
    · simp [h]
    · have hkey : (key == x.1) = false := by simpa using Ne.symm h
      rw [hkey, if_neg h]
      exact ih

end Keys

/-! ## Records -/

namespace Record

variable (r : Record) (field : String)

/-- The text that a field is set to. -/
def text? : Option String :=
  match r.lookup field with
  | some (.text s) => some s
  | _ => none

/-- The number that a field is set to. -/
def number? : Option Nat :=
  match r.lookup field with
  | some (.number n) => some n
  | _ => none

/-- The symbol that a field is set to. -/
def name? : Option String :=
  match r.lookup field with
  | some (.name s) => some s
  | _ => none

/-- All symbols that the fields of a record are set to. -/
def symbols : List String :=
  r.filterMap fun
    | (_, .name s) => some s
    | _ => none

end Record

/-- The directions of pins. -/
inductive Direction
  | inputs
  | outputs
  deriving DecidableEq, Repr

/-- The word for the pins of a direction. -/
def Direction.word : Direction → String
  | inputs => "inputs"
  | outputs => "outputs"

/-- The lists that a record points to. -/
inductive Part
  | attributeNames
  | attributeDefaults
  | pins (d : Direction)
  deriving DecidableEq, Repr

namespace Part

/-- The field that points to a list. -/
def field : Part → String
  | attributeNames => "attribute_names"
  | attributeDefaults => "default_attributes"
  | pins .inputs => "input_names"
  | pins .outputs => "output_names"

/-- The field that gives the length of a list. -/
def lengthField : Part → String
  | attributeNames => "attribute_count"
  | attributeDefaults => "attribute_count"
  | pins d => d.word

end Part

/-! ## Entries -/

/-- The list that a record points to, among the arrays `as`. A null pointer points to no strings. -/
def Record.list? (as : List (String × List String)) (r : Record) (a : Part) :
    Option (List String) :=
  (r.name? a.field).bind fun s => if s = "NULL" then some [] else as.lookup s

/-- An entry of the table, with the lengths that its record gives. -/
structure Entry where
  name : String
  /-- The attributes, each with its default value. -/
  attributes : List (String × String)
  inputs : List String
  outputs : List String
  attributeCount : Nat
  inputCount : Nat
  outputCount : Nat
  deriving DecidableEq, Repr

/-- The entry that a record stands for, among the arrays `as`. There has to be a default value for
every attribute. -/
def Entry.ofRecord? (as : List (String × List String)) (r : Record) : Option Entry := do
  let name ← r.text? "name"
  let names ← r.list? as .attributeNames
  let defaults ← r.list? as .attributeDefaults
  let inputs ← r.list? as (.pins .inputs)
  let outputs ← r.list? as (.pins .outputs)
  let attributeCount ← r.number? Part.attributeNames.lengthField
  let inputCount ← r.number? (Part.pins .inputs).lengthField
  let outputCount ← r.number? (Part.pins .outputs).lengthField
  if names.length = defaults.length then
    some ⟨name, names.zip defaults, inputs, outputs, attributeCount, inputCount, outputCount⟩
  else
    none

/-- The entries of the table in a source file. -/
def readTable (bytes : ByteArray) : Option (List Entry) := do
  let is ← readFile bytes
  let rs ← recordsOf "netlist_xilprims" is
  rs.mapM (Entry.ofRecord? (arrays is))

end NetlistTables.Reading
