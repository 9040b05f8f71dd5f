import Talaria.Column

/-! Sealed blocks of `internal/encoding/block`, whose definition (block.go) is not in src. -/

namespace Talaria

/-- Modelled from the spec: `block.Block`, missing from src. A block holds one column per schema
entry, all of one length; `selectErr` is the error `Select` reports when the block's column
data does not decode. -/
structure Block where
  columns : Columns
  selectErr : Option String
  square : (columns.entries.all fun p => p.2.count = columns.max) = true

namespace Block

def schema (b : Block) : Schema := b.columns.mapVals fun _ col => col.kind

def count (b : Block) : Nat := b.columns.max

/-- Modelled from the spec: `Select(schema)` returns the block's columns named in `schema`. -/
def select (b : Block) (s : Schema) : Except String Columns :=
  match b.selectErr with
  | some e => .error e
  | none => .ok (b.columns.filter s.contains)

/-- Modelled from the spec: `LastRow()`, the last value of every column. -/
def lastRow (b : Block) : Except String (NameMap (Option Value)) :=
  (b.select b.schema).map Columns.lastRow

def row (b : Block) (j : Nat) : List (String × Option Value) :=
  b.columns.entries.map fun p => (p.1, p.2.values.getD j none)

@[simp] lemma find?_schema (b : Block) (k : String) :
    b.schema.find? k = (b.columns.find? k).map Column.kind := by
  simp [schema]

lemma count_of_find? {b : Block} {k : String} {col : Column} (h : b.columns.find? k = some col) :
    col.count = b.count := by
  have := List.all_eq_true.mp b.square _ ((NameMap.find?_eq_some_iff _ _ _).mp h)
  simpa [count] using this

lemma find?_select_self {b : Block} {cols : Columns} (h : b.select b.schema = .ok cols)
    (k : String) : cols.find? k = b.columns.find? k := by
  unfold select at h
  split at h
  · cases h
  · cases h
    cases hk : b.columns.find? k <;> simp [NameMap.contains, hk]

lemma select_self_ok {b : Block} (h : b.selectErr = none) :
    b.select b.schema = .ok (b.columns.filter b.schema.contains) := by
  simp [select, h]

end Block

end Talaria
