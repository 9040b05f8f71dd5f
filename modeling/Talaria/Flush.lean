import Talaria.Block

/-! `flush.Storage.Merge`: the blocks of one compaction group written into one ORC file, and
what the writer receives for each block. -/

namespace Talaria.Flush

structure OrcFile where
  columns : List String
  stripes : List (List Column)
  deriving DecidableEq, Repr

structure Orc where
  schemaErr : Schema → Option String
  writeErr : OrcFile → List Column → Option String
  closeErr : OrcFile → Option String

def pick (schema : Schema) (rows : Columns) : Columns :=
  schema.mapVals fun name typ =>
    match rows.find? name with
    | some col => if col.kind = typ then col else newColumn typ
    | none => newColumn typ

def stripeOf (schema : Schema) (rows : Columns) : List Column :=
  schema.columns.filterMap (pick schema rows).fillNulls.find?

def writeBlocks (orc : Orc) (schema : Schema) (w : OrcFile) : List Block → Except String OrcFile
  | [] => .ok w
  | blk :: rest =>
    match blk.select blk.schema with
    | .error _ => writeBlocks orc schema w rest
    | .ok rows =>
      match orc.writeErr w (stripeOf schema rows) with
      | some e => .error e
      | none => writeBlocks orc schema { w with stripes := w.stripes ++ [stripeOf schema rows] } rest

def generateFileName (fileNameFunc : NameMap (Option Value) → Except String String) (b : Block) :
    List UInt8 :=
  match b.lastRow with
  | .error _ => []
  | .ok row =>
    match fileNameFunc row with
    | .error _ => []
    | .ok output => output.toUTF8.toList

def merge (orc : Orc) (fileNameFunc : NameMap (Option Value) → Except String String)
    (blocks : List Block) (schema : Schema) : Except String (List UInt8 × Option OrcFile) :=
  match orc.schemaErr schema with
  | some _ => .ok ([], none)
  | none =>
    match writeBlocks orc schema ⟨schema.columns, []⟩ blocks with
    | .error _ => .ok ([], none)
    | .ok w =>
      match orc.closeErr w with
      | some _ => .ok ([], none)
      | none =>
        match blocks with
        | [] => .error "runtime error: index out of range [0] with length 0"
        | b :: _ => .ok (generateFileName fileNameFunc b, some w)

def stripe (schema : Schema) (b : Block) : List Column := stripeOf schema b.columns

def expected (schema : Schema) (b : Block) : List (List (Option Value)) :=
  schema.columns.map fun n =>
    ((b.columns.find? n).map Column.values).getD (List.replicate b.count none)

lemma mem_columns {s : Schema} {n : String} : n ∈ s.columns ↔ n ∈ s.keys :=
  (List.perm_insertionSort _ _).mem_iff

lemma stripeOf_select {b : Block} {rows : Columns} (schema : Schema)
    (h : b.select b.schema = .ok rows) : stripeOf schema rows = stripe schema b := by
  have hf : NameMap.find? rows = NameMap.find? b.columns := funext (Block.find?_select_self h)
  simp only [stripe, stripeOf, pick, hf]


lemma find?_pick {schema : Schema} {b : Block} (hsub : b.schema.Sub schema) {n : String}
    {typ : Typeof} (hn : schema.find? n = some typ) :
    (pick schema b.columns).find? n = some ((b.columns.find? n).getD (newColumn typ)) := by
  cases hc : b.columns.find? n with
  | none => simp [pick, hn, hc]
  | some col =>
    have hk := hsub n col.kind (by simp [hc])
    rw [hn, Option.some.injEq] at hk
    simp [pick, hn, hc, hk]

lemma max_pick {schema : Schema} {b : Block} (hsub : b.schema.Sub schema) :
    (pick schema b.columns).max = b.count := by
  apply Nat.le_antisymm
  · refine Columns.max_le fun n col h => ?_
    obtain ⟨typ, hn, rfl⟩ := Option.map_eq_some'.mp (by simpa [pick] using h)
    cases hc : b.columns.find? n with
    | none => simp [hc, newColumn, Column.count]
    | some col' =>
      have hk := hsub n col'.kind (by simp [hc])
      rw [hn, Option.some.injEq] at hk
      simp [hc, hk, (Block.count_of_find? hc).le]
  · cases he : b.columns.entries with
    | nil => simp [Block.count, Columns.max, he]
    | cons p _ =>
      have hp : b.columns.find? p.1 = some p.2 :=
        (NameMap.find?_eq_some_iff _ _ _).mpr (he ▸ List.mem_cons_self _ _)
      have hs := hsub p.1 p.2.kind (by simp [hp])
      rw [← Block.count_of_find? hp]
      exact Columns.le_max (by rw [find?_pick hsub hs, hp]; rfl)

lemma find?_fillNulls_pick {schema : Schema} {b : Block} (hsub : b.schema.Sub schema) {n : String}
    {typ : Typeof} (hn : schema.find? n = some typ) :
    ∃ col, (pick schema b.columns).fillNulls.find? n = some col ∧
      col.values = ((b.columns.find? n).map Column.values).getD (List.replicate b.count none) := by
  rw [Columns.find?_fillNulls, find?_pick hsub hn, max_pick hsub]
  cases hc : b.columns.find? n with
  | none => exact ⟨_, rfl, by simp [newColumn, Column.count]⟩
  | some col => exact ⟨_, rfl, by simp [Block.count_of_find? hc]⟩

lemma map_filterMap_values {l : List String} {f : String → Option Column}
    {g : String → List (Option Value)} (h : ∀ n ∈ l, ∃ c, f n = some c ∧ c.values = g n) :
    (l.filterMap f).map Column.values = l.map g := by
  induction l with
  | nil => rfl
  | cons n l ih =>
    obtain ⟨c, hc, hv⟩ := h n (.head _)
    simp [List.filterMap_cons, hc, hv, ih fun m hm => h m (.tail _ hm)]

theorem stripe_values {schema : Schema} {b : Block} (hsub : b.schema.Sub schema) :
    (stripe schema b).map Column.values = expected schema b :=
  map_filterMap_values fun n hn => by
    obtain ⟨typ, htyp⟩ := Option.isSome_iff_exists.mp
      ((NameMap.mem_keys_iff _ _).mp (mem_columns.mp hn))
    exact find?_fillNulls_pick hsub htyp


lemma writeBlocks_ok (orc : Orc) (schema : Schema) (w : OrcFile) (blocks : List Block)
    (hsel : ∀ b ∈ blocks, b.selectErr = none)
    (hw : ∀ i (hi : i < blocks.length), orc.writeErr
      { w with stripes := w.stripes ++ (blocks.take i).map (stripe schema) }
        (stripe schema blocks[i]) = none) :
    writeBlocks orc schema w blocks =
      .ok { w with stripes := w.stripes ++ blocks.map (stripe schema) } := by
  induction blocks generalizing w with
  | nil => simp [writeBlocks]
  | cons b bs ih =>
    have hb := Block.select_self_ok (hsel b (.head _))
    have h0 : orc.writeErr w (stripe schema b) = none := by simpa using hw 0 (by simp)
    rw [writeBlocks, hb]
    simp only [stripeOf_select schema hb, h0]
    rw [ih _ (fun b hb => hsel b (.tail _ hb)) fun i hi => by
      simpa [List.take_succ_cons] using hw (i + 1) (by simpa using hi)]
    simp

lemma count_of_mem_stripe {schema : Schema} {b : Block} (hsub : b.schema.Sub schema) {c : Column}
    (hc : c ∈ stripe schema b) : c.count = b.count := by
  have hv := stripe_values hsub
  have : c.values ∈ expected schema b := hv ▸ List.mem_map_of_mem _ hc
  obtain ⟨n, -, hn⟩ := List.mem_map.mp this
  rw [Column.count, ← hn]
  cases h : b.columns.find? n with
  | none => simp [h]
  | some col => simpa [h] using Block.count_of_find? h

lemma merge_ok (orc : Orc) (fileNameFunc : NameMap (Option Value) → Except String String)
    {blocks : List Block} (schema : Schema) (hne : blocks ≠ [])
    (hsel : ∀ b ∈ blocks, b.selectErr = none) (hs : orc.schemaErr schema = none)
    (hw : ∀ i (hi : i < blocks.length), orc.writeErr
      ⟨schema.columns, (blocks.take i).map (stripe schema)⟩ (stripe schema blocks[i]) = none)
    (hc : orc.closeErr ⟨schema.columns, blocks.map (stripe schema)⟩ = none) :
    merge orc fileNameFunc blocks schema = .ok (generateFileName fileNameFunc (blocks.head hne),
      some ⟨schema.columns, blocks.map (stripe schema)⟩) := by
  have hrun := writeBlocks_ok orc schema ⟨schema.columns, []⟩ blocks hsel (by simpa using hw)
  obtain ⟨b, bs, rfl⟩ := List.exists_cons_of_ne_nil hne
  simp only [merge, hs, hrun, List.nil_append, hc, List.head_cons]

theorem merge_writes_blocks (orc : Orc)
    (fileNameFunc : NameMap (Option Value) → Except String String) (blocks : List Block)
    (schema : Schema) (hne : blocks ≠ []) (hsel : ∀ b ∈ blocks, b.selectErr = none)
    (hsub : ∀ b ∈ blocks, b.schema.Sub schema) (hs : orc.schemaErr schema = none)
    (hw : ∀ i (hi : i < blocks.length), orc.writeErr
      ⟨schema.columns, (blocks.take i).map (stripe schema)⟩ (stripe schema blocks[i]) = none)
    (hc : orc.closeErr ⟨schema.columns, blocks.map (stripe schema)⟩ = none) :
    merge orc fileNameFunc blocks schema = .ok (generateFileName fileNameFunc (blocks.head hne),
      some ⟨schema.columns, blocks.map (stripe schema)⟩) ∧
    ∀ b ∈ blocks, (stripe schema b).map Column.values = expected schema b ∧
      ∀ c ∈ stripe schema b, c.count = b.count :=
  ⟨merge_ok orc fileNameFunc schema hne hsel hs hw hc,
    fun b hb => ⟨stripe_values (hsub b hb), fun _ hc => count_of_mem_stripe (hsub b hb) hc⟩⟩

lemma writeBlocks_filter (orc : Orc) (hw : ∀ w cs, orc.writeErr w cs = none) (schema : Schema) :
    ∀ (w : OrcFile) (blocks : List Block), writeBlocks orc schema w blocks =
      .ok { w with stripes := w.stripes ++ (blocks.filter (·.selectErr.isNone)).map (stripe schema) }
  | w, [] => by simp [writeBlocks]
  | w, b :: bs => by
    cases hb : b.selectErr with
    | some e => simp [writeBlocks, Block.select, hb, writeBlocks_filter orc hw schema w bs]
    | none =>
      rw [writeBlocks, Block.select_self_ok hb]
      simp [stripeOf_select schema (Block.select_self_ok hb), hw, hb,
        writeBlocks_filter orc hw schema _ bs]

theorem merge_skips_unselectable (orc : Orc)
    (fileNameFunc : NameMap (Option Value) → Except String String) (b : Block) (bs : List Block)
    (schema : Schema) (hs : orc.schemaErr schema = none) (hw : ∀ w cs, orc.writeErr w cs = none)
    (hc : ∀ w, orc.closeErr w = none) :
    merge orc fileNameFunc (b :: bs) schema = .ok (generateFileName fileNameFunc b,
      some ⟨schema.columns, ((b :: bs).filter (·.selectErr.isNone)).map (stripe schema)⟩) ∧
    (b.selectErr.isSome → generateFileName fileNameFunc b = []) := by
  refine ⟨by simp only [merge, hs, writeBlocks_filter orc hw, List.nil_append, hc], fun hb => ?_⟩
  obtain ⟨e, he⟩ := Option.isSome_iff_exists.mp hb
  simp only [generateFileName, Block.lastRow, Block.select, he]
  rfl

def oneRowBlock : Block := ⟨⟨[("a", ⟨.int32, [some (.int32 1)]⟩)], by decide⟩, none, by decide⟩

def reliableOrc : Orc := ⟨fun _ => none, fun _ _ => none, fun _ => none⟩

def otherRowBlock : Block := ⟨⟨[("b", ⟨.int32, [some (.int32 2)]⟩)], by decide⟩, none, by decide⟩

def abSchema : Schema := ⟨[("a", .int32), ("b", .int32)], by decide⟩

theorem merge_writes_disjoint_blocks :
    merge reliableOrc (fun _ => .ok "f") [oneRowBlock, otherRowBlock] abSchema =
      .ok (generateFileName (fun _ => .ok "f") oneRowBlock,
        some ⟨abSchema.columns, [oneRowBlock, otherRowBlock].map (stripe abSchema)⟩) ∧
    ∀ b ∈ [oneRowBlock, otherRowBlock], (stripe abSchema b).map Column.values =
        expected abSchema b ∧ ∀ c ∈ stripe abSchema b, c.count = b.count :=
  merge_writes_blocks reliableOrc _ [oneRowBlock, otherRowBlock] abSchema (List.cons_ne_nil _ _)
    (by simp [oneRowBlock, otherRowBlock])
    (fun b hb k t h => (by decide : ∀ b ∈ [oneRowBlock, otherRowBlock], ∀ e ∈ b.schema.entries,
      abSchema.find? e.1 = some e.2) b hb (k, t) ((NameMap.find?_eq_some_iff _ _ _).mp h))
    rfl (fun _ _ => rfl) rfl

lemma abSchema_columns : abSchema.columns = ["a", "b"] := by
  simp [Schema.columns, abSchema, NameMap.keys, List.insertionSort, List.orderedInsert]
  decide

example : expected abSchema oneRowBlock = [[some (.int32 1)], [none]] ∧
    expected abSchema otherRowBlock = [[none], [some (.int32 2)]] := by
  rw [expected, expected, abSchema_columns]
  decide

def corruptBlock : Block := { oneRowBlock with selectErr := some "corrupt" }

theorem corrupt_first_block_unnamed :
    merge reliableOrc (fun _ => .ok "f") [corruptBlock, oneRowBlock] oneRowBlock.schema =
      .ok (generateFileName (fun _ => .ok "f") corruptBlock,
        some ⟨oneRowBlock.schema.columns,
          ([corruptBlock, oneRowBlock].filter (·.selectErr.isNone)).map (stripe oneRowBlock.schema)⟩) ∧
    (corruptBlock.selectErr.isSome → generateFileName (fun _ => .ok "f") corruptBlock = []) :=
  merge_skips_unselectable reliableOrc _ corruptBlock [oneRowBlock] _ rfl (fun _ _ => rfl)
    (fun _ => rfl)

example : ([corruptBlock, oneRowBlock].filter (·.selectErr.isNone)).map (stripe oneRowBlock.schema) =
    [stripe oneRowBlock.schema oneRowBlock] ∧
    generateFileName (fun _ => .ok "f") corruptBlock = [] := by
  decide

end Talaria.Flush
