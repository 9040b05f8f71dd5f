import Talaria.Column

/-! `block.FromParquetBy` (from_parquet.go): the rows of a Parquet payload repartitioned by the
string form of one column and appended through `Columns.Append` in chunks of about 10 MB. -/

namespace Talaria.Ingest

inductive GoValue
  | nil
  | str (s : String)
  | int64 (v : Int)
  | bool (b : Bool)
  | bytes (b : List UInt8)
  | other (text : String) (value : Value)
  deriving DecidableEq, Repr

abbrev Row := List GoValue

def GoValue.format : GoValue → String
  | .nil => "<nil>"
  | .str s => s
  | .int64 v => toString v
  | .bool b => toString b
  | .bytes b => "[" ++ " ".intercalate (b.map fun x => toString x.toNat) ++ "]"
  | .other text _ => text

/-- Modelled from the spec: the tagged value a column receives, a byte slice as JSON bytes. -/
def GoValue.value : GoValue → Option Value
  | .nil => none
  | .str s => some (.string s)
  | .int64 v => some (.int64 (BitVec.ofInt 64 v))
  | .bool b => some (.bool b)
  | .bytes b => some (.json b)
  | .other _ v => some v

def convertToStringForParquet (value : GoValue) : String × Bool :=
  let a := "[" ++ value.format ++ "]"
  let v : String := ⟨a.data.filter fun c => c ≠ '[' ∧ c ≠ ']'⟩
  if v.length > 0 then (v, true)
  else
    match value with
    | .str s => (s, true)
    | .int64 i => (toString i, true)
    | _ => ("", false)

structure ParquetFile where
  schema : Schema
  rows : List Row

def ParquetFile.cols (file : ParquetFile) : List String := file.schema.columns

/-- Modelled from the spec: `findString`, missing from src: the first index of a name. -/
def findString (cols : List String) (name : String) : Option Nat :=
  cols.findIdx? (· = name)

/-- Modelled from the spec: `block.Row`, missing from src: a schema and a name→value map. -/
structure BlockRow where
  schema : Schema
  values : NameMap GoValue

structure Tagged where
  partition : String
  columns : Columns

section FromParquet

variable (valueBytes : Typeof → Option Value → Nat) (convertToJSON : GoValue → Option GoValue)
  (buildErr : String → Columns → Option String) (filter : Option Schema)
  (apply : BlockRow → BlockRow)

/-- Modelled from the spec: `Row.AppendTo`, missing from src: `Columns.Append` of each value
under its schema type, a name the schema lacks counting as `Unsupported`, and the bytes
reported. -/
def BlockRow.appendTo (r : BlockRow) (cols : Columns) : Columns × Nat :=
  r.values.entries.foldl (fun acc e =>
    let t := (r.schema.find? e.1).getD .unsupported
    (acc.1.append e.1 e.2.value t, acc.2 + acc.1.appendBytes valueBytes e.1 e.2.value t)) (cols, 0)

-- A value whose name `Columns.Append` rejects reaches no column.
example : ((⟨⟨[("event-type", .string), ("p", .string)], by decide⟩,
    ⟨[("event-type", .str "e"), ("p", .str "a")], by decide⟩⟩ : BlockRow).appendTo
      (fun _ _ => 1) ∅).1.keys = ["p"] := rfl

def newRow (file : ParquetFile) (r : Row) : BlockRow :=
  ⟨file.schema, (file.cols.zip r).foldl (fun row e => row.insert e.1
    (if file.schema.find? e.1 = some .json then (convertToJSON e.2).getD e.2 else e.2)) ∅⟩

/-- Modelled from the spec: `makeBlocks`, missing from src: one block per partition of the
chunk, tagged with it; `buildErr` is the error building a partition's block reports. -/
def makeBlocks : List (String × Columns) → Except String (List Tagged)
  | [] => .ok []
  | (p, cols) :: rest =>
    match buildErr p cols with
    | some e => .error e
    | none => (makeBlocks rest).map (⟨p, cols⟩ :: ·)

def maxChunk : Nat := 10000000

structure Chunking where
  blocks : List Tagged
  result : NameMap Columns
  size : Nat

def addRow (file : ParquetFile) (idx : Nat) (r : Row) (st : Chunking) : Chunking × Bool :=
  match convertToStringForParquet (r.getD idx .nil) with
  | (_, false) => (st, true)
  | (partition, true) =>
    if partition = "" then (st, false)
    else
      let out := (apply (newRow convertToJSON file r)).appendTo valueBytes
        ((st.result.find? partition).getD (makeColumns filter))
      (⟨st.blocks, st.result.insert partition out.1.fillNulls,
        st.size + out.2 + out.1.fillNullsBytes valueBytes⟩, false)

def flush (st : Chunking) : Option Chunking :=
  if st.size ≥ maxChunk then
    match makeBlocks buildErr st.result.entries with
    | .error _ => none
    | .ok pending => some ⟨st.blocks ++ pending, ∅, 0⟩
  else some st

def visit (file : ParquetFile) (idx : Nat) (r : Row) (st : Chunking) : Chunking × Bool :=
  match flush buildErr st with
  | none => (st, true)
  | some st => addRow valueBytes convertToJSON filter apply file idx r st

def rangeRows (file : ParquetFile) (idx : Nat) : List Row → Chunking → Chunking
  | [], st => st
  | r :: rs, st =>
    if (visit valueBytes convertToJSON buildErr filter apply file idx r st).2 then
      (visit valueBytes convertToJSON buildErr filter apply file idx r st).1
    else rangeRows file idx rs (visit valueBytes convertToJSON buildErr filter apply file idx r st).1

def fromParquetBy (decoded : Except String ParquetFile) (partitionBy : String) :
    Except String (List Tagged) :=
  match decoded with
  | .error e => .error e
  | .ok file =>
    match findString file.cols partitionBy with
    | none => .ok []
    | some idx =>
      let st := rangeRows valueBytes convertToJSON buildErr filter apply file idx file.rows ⟨[], ∅, 0⟩
      match makeBlocks buildErr st.result.entries with
      | .error e => .error e
      | .ok last => .ok (st.blocks ++ last)

def partitionOf (idx : Nat) (r : Row) : String := (convertToStringForParquet (r.getD idx .nil)).1

def converting (idx : Nat) (rows : List Row) : List Row :=
  rows.takeWhile fun r => (convertToStringForParquet (r.getD idx .nil)).2

def appendRow (file : ParquetFile) (cols : Columns) (r : Row) : Columns :=
  ((apply (newRow convertToJSON file r)).appendTo valueBytes cols).1.fillNulls

def buildColumns (file : ParquetFile) (rows : List Row) : Columns :=
  rows.foldl (appendRow valueBytes convertToJSON apply file) (makeColumns filter)

def toTagged (e : String × Columns) : Tagged := ⟨e.1, e.2⟩

structure ChunkInv (file : ParquetFile) (idx : Nat) (done : List Row) (st : Chunking) : Prop where
  blocks : ∀ b ∈ st.blocks, b.partition ≠ ""
  result : ∀ p, (st.result.find? p).isSome → p ≠ ""
  rows : ∀ p, p ≠ "" → ∃ (chunks : List (List Row)) (cur : List Row), (∀ c ∈ chunks, c ≠ []) ∧
    st.blocks.filter (·.partition = p) =
      chunks.map (fun c => ⟨p, buildColumns valueBytes convertToJSON filter apply file c⟩) ∧
    (st.result.find? p).getD (makeColumns filter) =
      buildColumns valueBytes convertToJSON filter apply file cur ∧
    ((st.result.find? p).isSome ↔ cur ≠ []) ∧
    chunks.flatten ++ cur = done.filter (partitionOf idx · = p)

@[simp] lemma buildColumns_append_single (file : ParquetFile) (rows : List Row) (r : Row) :
    buildColumns valueBytes convertToJSON filter apply file (rows ++ [r]) =
      appendRow valueBytes convertToJSON apply file
        (buildColumns valueBytes convertToJSON filter apply file rows) r := by
  simp [buildColumns, List.foldl_append]

lemma filter_entries (m : NameMap Columns) (p : String) :
    (m.entries.map toTagged).filter (·.partition = p) = ((m.find? p).map (Tagged.mk p)).toList := by
  obtain ⟨l, hn⟩ := m
  simp only [NameMap.find?]
  induction l with
  | nil => rfl
  | cons e l ih =>
    obtain ⟨q, cols⟩ := e
    simp only [List.map_cons, List.nodup_cons] at hn
    by_cases hq : q = p
    · subst hq
      have hrest : (l.map toTagged).filter (·.partition = q) = [] :=
        List.filter_eq_nil_iff.mpr fun b hb => by
          obtain ⟨e, he, rfl⟩ := List.mem_map.mp hb
          simpa [toTagged] using fun h : e.1 = q => hn.1 (h ▸ List.mem_map_of_mem Prod.fst he)
      simp [toTagged, hrest]
    · simp [toTagged, hq, NameMap.lookup_cons_of_ne _ (Ne.symm hq), ih hn.2]

variable {valueBytes convertToJSON buildErr filter apply}

lemma makeBlocks_ok {l : List (String × Columns)} {bs : List Tagged}
    (h : makeBlocks buildErr l = .ok bs) : bs = l.map toTagged := by
  induction l generalizing bs with
  | nil => cases h; rfl
  | cons e l ih =>
    obtain ⟨p, cols⟩ := e
    simp only [makeBlocks] at h
    split at h
    · cases h
    · cases hl : makeBlocks buildErr l with
      | error e => simp [hl, Except.map] at h
      | ok bs' =>
        simp only [hl, Except.map, Except.ok.injEq] at h
        subst h
        rw [ih hl]
        rfl

lemma ChunkInv.init (file : ParquetFile) (idx : Nat) :
    ChunkInv valueBytes convertToJSON filter apply file idx [] ⟨[], ∅, 0⟩ :=
  ⟨by simp, by simp, fun _ _ => ⟨[], [], by simp, rfl, rfl, by simp, rfl⟩⟩

lemma ChunkInv.flush {file : ParquetFile} {idx : Nat} {done : List Row} {st st' : Chunking}
    (h : ChunkInv valueBytes convertToJSON filter apply file idx done st)
    (hf : flush buildErr st = some st') :
    ChunkInv valueBytes convertToJSON filter apply file idx done st' := by
  unfold Ingest.flush at hf
  split at hf
  · cases hm : makeBlocks buildErr st.result.entries with
    | error e => simp [hm] at hf
    | ok pending =>
      simp only [hm, Option.some.injEq] at hf
      subst hf
      rw [makeBlocks_ok hm]
      refine ⟨fun b hb => ?_, by simp, fun p hp => ?_⟩
      · rcases List.mem_append.mp hb with hb | hb
        · exact h.blocks b hb
        · obtain ⟨⟨q, cols⟩, he, rfl⟩ := List.mem_map.mp hb
          exact h.result q (by simp [(NameMap.find?_eq_some_iff _ _ _).mpr he])
      · obtain ⟨chunks, cur, hne, hb, hcur, hsome, hrows⟩ := h.rows p hp
        rw [List.filter_append, filter_entries, hb]
        cases hfp : st.result.find? p with
        | none =>
          have hc : cur = [] := by simpa [hfp] using hsome
          subst hc
          exact ⟨chunks, [], hne, by simp, rfl, by simp, hrows⟩
        | some cols =>
          have hc : cur ≠ [] := hsome.mp (by simp [hfp])
          refine ⟨chunks ++ [cur], [], fun c hc' => ?_, ?_, rfl, by simp, by simpa using hrows⟩
          · rcases List.mem_append.mp hc' with hc' | hc'
            · exact hne c hc'
            · exact (List.mem_singleton.mp hc') ▸ hc
          · simp only [hfp, Option.getD_some] at hcur
            simp [hcur]
  · cases hf
    exact h

lemma flush_eq_none {st : Chunking} (hf : flush buildErr st = none) :
    ∃ e, makeBlocks buildErr st.result.entries = .error e := by
  unfold flush at hf
  split at hf
  · cases hm : makeBlocks buildErr st.result.entries with
    | error e => exact ⟨e, rfl⟩
    | ok pending => simp [hm] at hf
  · cases hf

variable (valueBytes convertToJSON buildErr filter apply)

lemma ChunkInv.addRow {file : ParquetFile} {idx : Nat} {done : List Row} {st : Chunking} {r : Row}
    (h : ChunkInv valueBytes convertToJSON filter apply file idx done st)
    (hc : (convertToStringForParquet (r.getD idx .nil)).2 = true) :
    (addRow valueBytes convertToJSON filter apply file idx r st).2 = false ∧
      ChunkInv valueBytes convertToJSON filter apply file idx (done ++ [r])
        (addRow valueBytes convertToJSON filter apply file idx r st).1 := by
  rcases hcv : convertToStringForParquet (r.getD idx .nil) with ⟨q, ok⟩
  rw [hcv] at hc
  subst hc
  have hr : partitionOf idx r = q := by unfold partitionOf; rw [hcv]
  unfold Ingest.addRow
  simp only [hcv]
  by_cases hq : q = ""
  · simp only [hq, if_true, true_and]
    refine ⟨h.blocks, h.result, fun p hp => ?_⟩
    obtain ⟨chunks, cur, hne, hb, hcur, hsome, hrows⟩ := h.rows p hp
    exact ⟨chunks, cur, hne, hb, hcur, hsome, by simp [← hrows, hr, hq, Ne.symm hp]⟩
  · simp only [hq, if_false, true_and]
    refine ⟨h.blocks, fun p hp => ?_, fun p hp => ?_⟩
    · rw [NameMap.find?_insert] at hp
      split at hp
      · rename_i hpq
        exact hpq ▸ hq
      · exact h.result p hp
    · obtain ⟨chunks, cur, hne, hb, hcur, hsome, hrows⟩ := h.rows p hp
      by_cases hpq : p = q
      · subst hpq
        refine ⟨chunks, cur ++ [r], hne, hb, ?_, by simp, by simp [← hrows, hr]⟩
        simp only [NameMap.find?_insert, if_true, Option.getD_some, hcur,
          buildColumns_append_single]
        rfl
      · refine ⟨chunks, cur, hne, hb, ?_, ?_, by simp [← hrows, hr, Ne.symm hpq]⟩
        · simpa [NameMap.find?_insert, hpq] using hcur
        · simpa [NameMap.find?_insert, hpq] using hsome

lemma ChunkInv.visit {file : ParquetFile} {idx : Nat} {done : List Row} {st : Chunking} {r : Row}
    (h : ChunkInv valueBytes convertToJSON filter apply file idx done st)
    (hc : (convertToStringForParquet (r.getD idx .nil)).2 = true) :
    ((visit valueBytes convertToJSON buildErr filter apply file idx r st).2 = false ∧
        ChunkInv valueBytes convertToJSON filter apply file idx (done ++ [r])
          (visit valueBytes convertToJSON buildErr filter apply file idx r st).1) ∨
      (visit valueBytes convertToJSON buildErr filter apply file idx r st = (st, true) ∧
        ∃ e, makeBlocks buildErr st.result.entries = .error e) := by
  unfold Ingest.visit
  cases hf : Ingest.flush buildErr st with
  | none => exact .inr ⟨rfl, flush_eq_none hf⟩
  | some st' => exact .inl ((h.flush hf).addRow valueBytes convertToJSON filter apply hc)

lemma addRow_of_not_converts {file : ParquetFile} {idx : Nat} {r : Row} {st : Chunking}
    (hc : ¬ (convertToStringForParquet (r.getD idx .nil)).2 = true) :
    addRow valueBytes convertToJSON filter apply file idx r st = (st, true) := by
  unfold Ingest.addRow
  rcases hcv : convertToStringForParquet (r.getD idx .nil) with ⟨q, _ | _⟩
  · rfl
  · rw [hcv] at hc
    exact absurd rfl hc

lemma ChunkInv.rangeRows {file : ParquetFile} {idx : Nat} : ∀ {rows done : List Row} {st : Chunking},
    ChunkInv valueBytes convertToJSON filter apply file idx done st →
    ChunkInv valueBytes convertToJSON filter apply file idx (done ++ converting idx rows)
        (rangeRows valueBytes convertToJSON buildErr filter apply file idx rows st) ∨
      ∃ e, makeBlocks buildErr
        (rangeRows valueBytes convertToJSON buildErr filter apply file idx rows st).result.entries =
          .error e
  | [], _, _, h => .inl (by simpa [Ingest.rangeRows, converting] using h)
  | r :: rs, done, st, h => by
    simp only [Ingest.rangeRows]
    by_cases hc : (convertToStringForParquet (r.getD idx .nil)).2 = true
    · rcases h.visit valueBytes convertToJSON buildErr filter apply hc with ⟨hv, hi⟩ | ⟨hv, he⟩
      · rw [if_neg (by simp [hv]), converting,
          List.takeWhile_cons_of_pos (p := fun r : Row => (convertToStringForParquet (r.getD idx .nil)).2) hc]
        simpa [converting] using @ChunkInv.rangeRows file idx rs _ _ hi
      · simp only [hv, if_true]
        exact .inr he
    · unfold Ingest.visit
      cases hf : Ingest.flush buildErr st with
      | none => exact .inr (flush_eq_none hf)
      | some st' =>
        simp only [addRow_of_not_converts valueBytes convertToJSON filter apply hc, if_true]
        rw [converting,
          List.takeWhile_cons_of_neg (p := fun r : Row => (convertToStringForParquet (r.getD idx .nil)).2) hc,
          List.append_nil]
        exact .inl (h.flush hf)

variable {valueBytes convertToJSON buildErr filter apply}

lemma fromParquetBy_inv {file : ParquetFile} {partitionBy : String} {idx : Nat}
    {out : List Tagged} (hidx : findString file.cols partitionBy = some idx)
    (h : fromParquetBy valueBytes convertToJSON buildErr filter apply (.ok file) partitionBy =
      .ok out) :
    ChunkInv valueBytes convertToJSON filter apply file idx (converting idx file.rows)
      ⟨out, ∅, 0⟩ := by
  simp only [fromParquetBy, hidx] at h
  generalize hst : rangeRows valueBytes convertToJSON buildErr filter apply file idx file.rows
    ⟨[], ∅, 0⟩ = st at h
  cases hm : makeBlocks buildErr st.result.entries with
  | error e => simp [hm] at h
  | ok last =>
    simp only [hm, Except.ok.injEq] at h
    subst h
    have hinv : ChunkInv valueBytes convertToJSON filter apply file idx (converting idx file.rows)
        st := by
      rcases @ChunkInv.rangeRows valueBytes convertToJSON buildErr filter apply file idx file.rows [] _
        (ChunkInv.init file idx) with hi | ⟨e, he⟩
      · simpa [hst] using hi
      · rw [hst, hm] at he
        cases he
    have hf : flush buildErr { st with size := maxChunk } = some ⟨st.blocks ++ last, ∅, 0⟩ := by
      simp [Ingest.flush, hm]
    exact (show ChunkInv valueBytes convertToJSON filter apply file idx _ { st with size := maxChunk }
      from ⟨hinv.blocks, hinv.result, hinv.rows⟩).flush hf

theorem fromParquetBy_keeps_converting_rows {file : ParquetFile} {partitionBy : String}
    {idx : Nat} {out : List Tagged} (hidx : findString file.cols partitionBy = some idx)
    (h : fromParquetBy valueBytes convertToJSON buildErr filter apply (.ok file) partitionBy =
      .ok out) :
    (∀ b ∈ out, b.partition ≠ "") ∧
      ∀ p, p ≠ "" → ∃ chunks : List (List Row), (∀ c ∈ chunks, c ≠ []) ∧
        chunks.flatten = (converting idx file.rows).filter (partitionOf idx · = p) ∧
        out.filter (·.partition = p) =
          chunks.map fun c => ⟨p, buildColumns valueBytes convertToJSON filter apply file c⟩ := by
  have hinv := fromParquetBy_inv hidx h
  refine ⟨hinv.blocks, fun p hp => ?_⟩
  obtain ⟨chunks, cur, hne, hb, -, hsome, hrows⟩ := hinv.rows p hp
  have hc : cur = [] := by simpa using hsome
  subst hc
  exact ⟨chunks, hne, by simpa using hrows, hb⟩

end FromParquet

def pSchema : Schema := ⟨[("p", .string)], by decide⟩

-- Two partitions interleaved over rows of 5 MB each, so that the third row starts a new chunk,
-- then a row whose partition value, an empty byte slice, does not convert.
def interleaved : ParquetFile :=
  ⟨pSchema, [[.str "a"], [.str "b"], [.str "a"], [.bytes []], [.str "b"]]⟩

def rowBytes (_ : Typeof) (v : Option Value) : Nat := if v.isSome then 5000000 else 0

theorem interleaved_keeps_converting_rows :
    ∃ out, fromParquetBy rowBytes (fun _ => none) (fun _ _ => none) none id (.ok interleaved)
        "p" = .ok out ∧
      (∀ b ∈ out, b.partition ≠ "") ∧
      ∀ p, p ≠ "" → ∃ chunks : List (List Row), (∀ c ∈ chunks, c ≠ []) ∧
        chunks.flatten = (converting 0 interleaved.rows).filter (partitionOf 0 · = p) ∧
        out.filter (·.partition = p) =
          chunks.map fun c => ⟨p, buildColumns rowBytes (fun _ => none) none id interleaved c⟩ :=
  ⟨_, rfl, @fromParquetBy_keeps_converting_rows rowBytes (fun _ => none) (fun _ _ => none) none id
    interleaved "p" 0 _ rfl rfl⟩

example : converting 0 interleaved.rows = interleaved.rows.take 3 := by decide

example : (fromParquetBy rowBytes (fun _ => none) (fun _ _ => none) none id (.ok interleaved)
    "p").map (·.map fun b => (b.partition, b.columns.keys)) =
      .ok [("a", ["p"]), ("b", ["p"]), ("a", ["p"])] := rfl

theorem fromParquetBy_merges_and_drops_rows :
    (fromParquetBy (fun _ _ => 1) (fun _ => none) (fun _ _ => none) none id
        (.ok ⟨pSchema, [[.str "[x]"], [.str "x"]]⟩) "p").map
        (·.map fun b => (b.partition, b.columns.entries)) =
      .ok [("x", [("p", ⟨.string, [some (.string "[x]"), some (.string "x")]⟩)])] ∧
    fromParquetBy (fun _ _ => 1) (fun _ => none) (fun _ _ => none) none id
        (.ok ⟨pSchema, [[.bytes []], [.str "a"]]⟩) "p" = .ok [] :=
  ⟨rfl, rfl⟩

end Talaria.Ingest
