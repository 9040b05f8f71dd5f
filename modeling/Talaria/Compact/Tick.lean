import Talaria.Disk.Iterator
import Talaria.Flush

/-! One tick of `compact.Storage.Compact`: the range callback that groups the buffer's blocks by
partition hash, and the merge tasks the tick schedules. `merged = append(merged, k)` keeps the
slice `item.Key()` badger handed the callback, so what a task's `Delete` removes is what those
slices read when it runs. -/

namespace Talaria.Compact

open Disk

structure Task where
  keys : List Key
  blocks : List Block
  schema : Schema
  sentBy : Option Key
  parsed : List Key

structure Accum where
  hash : UInt32
  blocks : List Block
  merged : List Key
  schema : Schema
  tasks : List Task

def Accum.init : Accum := ⟨0, [], [], ∅, []⟩

def Accum.group (acc : Accum) : Task := ⟨acc.merged, acc.blocks, acc.schema, none, []⟩

section Tick

variable (hashOf : Key → UInt32) (fromBuffer : Bytes → Option Block)

def visit (k : Key) (v : Bytes) (acc : Accum) : Accum × Bool :=
  match fromBuffer v with
  | none => (acc, true)
  | some input =>
    let previous := acc.hash
    let hash := hashOf k
    let u := acc.schema.union input.schema
    if previous = 0 ∨ (u.2 = true ∧ hash = previous) then
      ({ acc with
          hash := hash
          blocks := acc.blocks ++ [input]
          merged := acc.merged ++ [k]
          schema := u.1 }, false)
    else
      (⟨hash, [], [], ∅, acc.tasks ++ [{ acc.group with sentBy := some k }]⟩, false)

variable (first last : Key) (copyOk : Key → Bool)

def compact (buffer : Store) : Except String (List Task) :=
  match Disk.range last copyOk (visit hashOf fromBuffer) buffer first Accum.init with
  | .error e => .error e
  | .ok acc => .ok ((acc.tasks ++ [acc.group]).map fun t =>
      { t with parsed := parsedKeys last copyOk (visit hashOf fromBuffer) buffer first Accum.init })

def Task.sentAt (t : Task) : Nat :=
  match t.sentBy with
  | some k => min (t.parsed.indexOf k + 2) t.parsed.length
  | none => t.parsed.length

def Task.heldAt (t : Task) (n : Nat) : List Key :=
  t.keys.map fun k => heldKey growslice (t.parsed.take n) (t.parsed.indexOf k)

def decodedKeys (done : List (Key × Bytes)) : List Key :=
  (done.filter fun e => (fromBuffer e.2).isSome).map Prod.fst

structure Sound (entries : List (Key × Bytes)) (t : Task) : Prop where
  decoded : List.Forall₂ (fun k b => ∃ v, (k, v) ∈ entries ∧ fromBuffer v = some b) t.keys t.blocks
  hash : ∀ k ∈ t.keys, ∀ k' ∈ t.keys, hashOf k = hashOf k'
  schema : Schema.unionFrom ∅ (t.blocks.map Block.schema) = some t.schema

structure AccInv (done : List (Key × Bytes)) (acc : Accum) : Prop where
  sub : (acc.tasks.flatMap Task.keys ++ acc.merged).Sublist (decodedKeys fromBuffer done)
  tasks : ∀ t ∈ acc.tasks, Sound hashOf fromBuffer done t
  group : Sound hashOf fromBuffer done acc.group
  hash : ∀ k ∈ acc.merged, hashOf k = acc.hash
  fresh : acc.hash = 0 → acc.merged = [] ∧ acc.blocks = [] ∧ acc.schema = ∅

variable {hashOf fromBuffer}

lemma Sound.mono {l l' : List (Key × Bytes)} {t : Task} (h : Sound hashOf fromBuffer l t)
    (hl : ∀ e ∈ l, e ∈ l') : Sound hashOf fromBuffer l' t :=
  ⟨h.decoded.imp fun _ _ ⟨v, hv, hb⟩ => ⟨v, hl _ hv, hb⟩, h.hash, h.schema⟩

lemma decodedKeys_append (done : List (Key × Bytes)) (k : Key) (v : Bytes) :
    decodedKeys fromBuffer (done ++ [(k, v)]) =
      decodedKeys fromBuffer done ++ if (fromBuffer v).isSome then [k] else [] := by
  by_cases h : (fromBuffer v).isSome <;> simp [decodedKeys, List.filter_append, h]

lemma sound_of_keys_eq {entries : List (Key × Bytes)} {t t' : Task}
    (ht : Sound hashOf fromBuffer entries t')
    (h : (t.keys, t.blocks, t.schema) = (t'.keys, t'.blocks, t'.schema)) :
    Sound hashOf fromBuffer entries t := by
  simp only [Prod.mk.injEq] at h
  obtain ⟨hk, hb, hs⟩ := h
  exact ⟨hk ▸ hb ▸ ht.decoded, hk ▸ ht.hash, hb ▸ hs ▸ ht.schema⟩

lemma AccInv.init : AccInv hashOf fromBuffer [] Accum.init :=
  ⟨by simp [Accum.init, decodedKeys], by simp [Accum.init],
    ⟨.nil, by simp [Accum.group, Accum.init], rfl⟩, by simp [Accum.init], fun _ => ⟨rfl, rfl, rfl⟩⟩

lemma AccInv.skip {done : List (Key × Bytes)} {acc : Accum} {k : Key} {v : Bytes}
    (h : AccInv hashOf fromBuffer done acc) (hb : fromBuffer v = none) :
    AccInv hashOf fromBuffer (done ++ [(k, v)]) acc := by
  have hmono : ∀ e ∈ done, e ∈ done ++ [(k, v)] := fun e he => List.mem_append_left _ he
  refine ⟨?_, fun t ht => (h.tasks t ht).mono hmono, h.group.mono hmono, h.hash, h.fresh⟩
  simpa [decodedKeys_append, hb] using h.sub

lemma AccInv.accumulate {done : List (Key × Bytes)} {acc : Accum} {k : Key} {v : Bytes}
    {input : Block} (h : AccInv hashOf fromBuffer done acc) (hb : fromBuffer v = some input)
    (hk : hashOf k ≠ 0)
    (hc : acc.hash = 0 ∨ (acc.schema.union input.schema).2 = true ∧ hashOf k = acc.hash) :
    AccInv hashOf fromBuffer (done ++ [(k, v)]) { acc with
      hash := hashOf k
      blocks := acc.blocks ++ [input]
      merged := acc.merged ++ [k]
      schema := (acc.schema.union input.schema).1 } := by
  have hmono : ∀ e ∈ done, e ∈ done ++ [(k, v)] := fun e he => List.mem_append_left _ he
  have hdk : decodedKeys fromBuffer (done ++ [(k, v)]) = decodedKeys fromBuffer done ++ [k] := by
    simp [decodedKeys_append, hb]
  have hu : (acc.schema.union input.schema).2 = true := by
    rcases hc with h0 | ⟨hu, _⟩
    · rw [(h.fresh h0).2.2]
      exact Schema.union_empty_ok _
    · exact hu
  have hall : ∀ a ∈ acc.merged ++ [k], hashOf a = hashOf k := by
    intro a ha
    rcases List.mem_append.mp ha with ha | ha
    · rcases hc with h0 | ⟨-, he⟩
      · simp [(h.fresh h0).1] at ha
      · exact (h.hash a ha).trans he.symm
    · rw [List.mem_singleton.mp ha]
  have hg : Schema.unionFrom ∅ (acc.blocks.map Block.schema) = some acc.schema := h.group.schema
  refine ⟨?_, fun t ht => (h.tasks t ht).mono hmono,
    ⟨?_, fun a ha b hb' => (hall a ha).trans (hall b hb').symm, ?_⟩, hall, fun h0 => absurd h0 hk⟩
  · rw [hdk, ← List.append_assoc]
    exact h.sub.append (List.Sublist.refl _)
  · exact List.rel_append (h.group.mono hmono).decoded (.cons ⟨v, by simp, hb⟩ .nil)
  · simp only [Accum.group, List.map_append, List.map_cons, List.map_nil,
      Schema.unionFrom_append, hg, Option.some_bind, hu, if_true]

lemma AccInv.startGroup {done : List (Key × Bytes)} {acc : Accum} {k : Key} {v : Bytes}
    {input : Block} (h : AccInv hashOf fromBuffer done acc) (hb : fromBuffer v = some input)
    (hk : hashOf k ≠ 0) :
    AccInv hashOf fromBuffer (done ++ [(k, v)])
      ⟨hashOf k, [], [], ∅, acc.tasks ++ [{ acc.group with sentBy := some k }]⟩ := by
  have hmono : ∀ e ∈ done, e ∈ done ++ [(k, v)] := fun e he => List.mem_append_left _ he
  refine ⟨?_, fun t ht => ?_, ⟨.nil, by simp [Accum.group], rfl⟩, by simp, fun h0 => absurd h0 hk⟩
  · simpa [decodedKeys_append, hb] using h.sub.trans (List.sublist_append_left _ _)
  · rcases List.mem_append.mp ht with ht | ht
    · exact (h.tasks t ht).mono hmono
    · rw [List.mem_singleton.mp ht]
      exact sound_of_keys_eq (h.group.mono hmono) rfl

lemma AccInv.visit {done : List (Key × Bytes)} {acc : Accum} {k : Key} {v : Bytes}
    (h : AccInv hashOf fromBuffer done acc) (hz : (fromBuffer v).isSome → hashOf k ≠ 0) :
    AccInv hashOf fromBuffer (done ++ [(k, v)]) (Compact.visit hashOf fromBuffer k v acc).1 := by
  unfold Compact.visit
  cases hb : fromBuffer v with
  | none => exact h.skip hb
  | some input =>
    have hk : hashOf k ≠ 0 := hz (by simp [hb])
    simp only
    split
    · exact h.accumulate hb hk ‹_›
    · exact h.startGroup hb hk

lemma decodedKeys_sublist {l l' : List (Key × Bytes)} (h : l.Sublist l') :
    (decodedKeys fromBuffer l).Sublist (decodedKeys fromBuffer l') :=
  (h.filter _).map _

lemma sorted_decodedKeys (buffer : Store) : (decodedKeys fromBuffer buffer.entries).Pairwise Lt :=
  (buffer.sorted.filter _).map _ fun _ _ h => h

lemma keys_sublist_flatMap {tasks : List Task} {t : Task} (h : t ∈ tasks) :
    t.keys.Sublist (tasks.flatMap Task.keys) := by
  rw [List.flatMap]
  exact List.sublist_flatten_of_mem (List.mem_map_of_mem _ h)

lemma compact_ok {buffer : Store} {tasks : List Task}
    (h : compact hashOf fromBuffer first last copyOk buffer = .ok tasks) :
    ∃ acc, rangeLoop last copyOk (visit hashOf fromBuffer)
      (iterate buffer.entries first (prefixOf first last)) Accum.init = acc ∧
      tasks = (acc.tasks ++ [acc.group]).map fun t =>
        { t with parsed := parsedKeys last copyOk (visit hashOf fromBuffer) buffer first Accum.init } := by
  unfold compact Disk.range at h
  split at h
  · cases h
  · rename_i acc hacc
    cases h
    split at hacc
    · cases hacc
    · exact ⟨acc, by simpa using hacc, rfl⟩

lemma compact_inv {buffer : Store} {tasks : List Task}
    (hz : ∀ e ∈ buffer.entries, (fromBuffer e.2).isSome → hashOf e.1 ≠ 0)
    (h : compact hashOf fromBuffer first last copyOk buffer = .ok tasks) :
    ∃ acc vis, (tasks.map fun t : Task => (t.keys, t.blocks, t.schema)) =
        (acc.tasks ++ [acc.group]).map (fun t : Task => (t.keys, t.blocks, t.schema)) ∧
      vis.Sublist buffer.entries ∧ AccInv hashOf fromBuffer vis acc := by
  obtain ⟨acc, hacc, rfl⟩ := compact_ok first last copyOk h
  obtain ⟨vis, hvis, hinv⟩ := rangeLoop_induct last copyOk (visit hashOf fromBuffer)
    (P := AccInv hashOf fromBuffer) buffer.entries
    (fun _ k v _ hk hP => hP.visit (hz (k, v) (hk.subset (by simp))))
    (iterate buffer.entries first (prefixOf first last)) [] Accum.init
    (by simpa using iterate_sublist _ _ _) AccInv.init
  rw [hacc, List.nil_append] at hinv
  exact ⟨acc, vis, by simp, hvis.trans ((List.take_sublist _ _).trans (iterate_sublist _ _ _)), hinv⟩

lemma compact_sound {buffer : Store} {tasks : List Task}
    (hz : ∀ e ∈ buffer.entries, (fromBuffer e.2).isSome → hashOf e.1 ≠ 0)
    (h : compact hashOf fromBuffer first last copyOk buffer = .ok tasks) :
    ∀ t ∈ tasks, Sound hashOf fromBuffer buffer.entries t := by
  obtain ⟨acc, vis, heq, hsub, hinv⟩ := compact_inv first last copyOk hz h
  intro t ht
  obtain ⟨t', ht', he⟩ := List.mem_map.mp (heq ▸ List.mem_map_of_mem
    (fun t : Task => (t.keys, t.blocks, t.schema)) ht)
  have hs : Sound hashOf fromBuffer vis t' := by
    rcases List.mem_append.mp ht' with ht' | ht'
    · exact hinv.tasks t' ht'
    · rw [List.mem_singleton.mp ht']; exact hinv.group
  exact (sound_of_keys_eq hs he.symm).mono fun e he => hsub.subset he

theorem compact_groups_sound {buffer : Store} {tasks : List Task}
    (hz : ∀ e ∈ buffer.entries, (fromBuffer e.2).isSome → hashOf e.1 ≠ 0)
    (h : compact hashOf fromBuffer first last copyOk buffer = .ok tasks) :
    (tasks.flatMap Task.keys).Sublist (decodedKeys fromBuffer buffer.entries) ∧
      ∀ t ∈ tasks, Sound hashOf fromBuffer buffer.entries t ∧ t.keys.Pairwise Lt := by
  have hsound := compact_sound first last copyOk hz h
  obtain ⟨acc, vis, heq, hsub, hinv⟩ := compact_inv first last copyOk hz h
  have hall : tasks.flatMap Task.keys = acc.tasks.flatMap Task.keys ++ acc.merged := by
    have := congrArg (List.flatMap · fun p => p.1) heq
    simpa [List.flatMap_map, Accum.group] using this
  have hkeys := hall ▸ hinv.sub.trans (decodedKeys_sublist hsub)
  exact ⟨hkeys, fun t ht => ⟨hsound t ht, (sorted_decodedKeys buffer).sublist
    ((keys_sublist_flatMap ht).trans hkeys)⟩⟩

structure KeysInv (done : List (Key × Bytes)) (acc : Accum) : Prop where
  seen : ∀ k ∈ acc.tasks.flatMap Task.keys ++ acc.merged, k ∈ done.map Prod.fst
  sent : ∀ t ∈ acc.tasks, ∃ b, t.sentBy = some b ∧ b ∈ done.map Prod.fst ∧ ∀ k ∈ t.keys, Lt k b

lemma KeysInv.visit {done : List (Key × Bytes)} {acc : Accum} {k : Key} {v : Bytes}
    (h : KeysInv done acc) (hlt : ∀ x ∈ done, Lt x.1 k) :
    KeysInv (done ++ [(k, v)]) (Compact.visit hashOf fromBuffer k v acc).1 := by
  have hmono : ∀ k', k' ∈ done.map Prod.fst → k' ∈ (done ++ [(k, v)]).map Prod.fst :=
    fun k' hk' => by simp only [List.map_append]; exact List.mem_append_left _ hk'
  have hnew : k ∈ (done ++ [(k, v)]).map Prod.fst := by simp
  have hsent : ∀ t ∈ acc.tasks, ∃ b, t.sentBy = some b ∧ b ∈ (done ++ [(k, v)]).map Prod.fst ∧
      ∀ k' ∈ t.keys, Lt k' b := fun t ht => by
    obtain ⟨b, hb, hbd, hlb⟩ := h.sent t ht
    exact ⟨b, hb, hmono b hbd, hlb⟩
  unfold Compact.visit
  cases fromBuffer v with
  | none => exact ⟨fun k' hk' => hmono k' (h.seen k' hk'), hsent⟩
  | some input =>
    simp only
    split
    · refine ⟨fun k' hk' => ?_, hsent⟩
      rw [← List.append_assoc, List.mem_append, List.mem_singleton] at hk'
      rcases hk' with hk' | rfl
      · exact hmono k' (h.seen k' hk')
      · exact hnew
    · refine ⟨fun k' hk' => ?_, fun t ht => ?_⟩
      · simp only [List.flatMap_append, List.append_nil, List.mem_append] at hk'
        rcases hk' with hk' | hk'
        · exact hmono k' (h.seen k' (List.mem_append_left _ hk'))
        · simp only [List.flatMap_cons, List.flatMap_nil, List.append_nil, Accum.group] at hk'
          exact hmono k' (h.seen k' (List.mem_append_right _ hk'))
      · rcases List.mem_append.mp ht with ht | ht
        · exact hsent t ht
        · rw [List.mem_singleton.mp ht]
          refine ⟨k, rfl, hnew, fun k' hk' => ?_⟩
          obtain ⟨x, hx, rfl⟩ := List.mem_map.mp (h.seen k' (List.mem_append_right _ hk'))
          exact hlt x hx

lemma compact_keys_parsed {buffer : Store} {tasks : List Task}
    (h : compact hashOf fromBuffer first last copyOk buffer = .ok tasks) :
    ∀ t ∈ tasks, t.parsed = parsedKeys last copyOk (visit hashOf fromBuffer) buffer first Accum.init ∧
      ∀ k ∈ t.keys, k ∈ t.parsed ∧ t.parsed.indexOf k < t.sentAt := by
  obtain ⟨acc, hacc, rfl⟩ := compact_ok first last copyOk h
  obtain ⟨vis, hvis, hinv⟩ := rangeLoop_induct last copyOk (visit hashOf fromBuffer)
    (P := KeysInv) buffer.entries
    (fun done k v _ hk hP => hP.visit fun x hx => by
      have hs := buffer.sorted.sublist hk
      rw [List.pairwise_append] at hs
      exact hs.2.2 x hx (k, v) (.head _))
    (iterate buffer.entries first (prefixOf first last)) [] Accum.init
    (by simpa using iterate_sublist _ _ _) ⟨by simp [Accum.init], by simp [Accum.init]⟩
  rw [hacc, List.nil_append] at hinv
  have hparsed : ∀ k ∈ vis.map Prod.fst,
      k ∈ parsedKeys last copyOk (visit hashOf fromBuffer) buffer first Accum.init := by
    intro k hk
    obtain ⟨x, hx, rfl⟩ := List.mem_map.mp hk
    exact mem_parsedKeys last copyOk _ (hvis.subset hx)
  have hsorted := parsedKeys_sorted last copyOk (visit hashOf fromBuffer) buffer first Accum.init
  intro _ hmem
  obtain ⟨t, ht, rfl⟩ := List.mem_map.mp hmem
  refine ⟨rfl, fun k hk => ?_⟩
  rcases List.mem_append.mp ht with ht | ht
  · have hkp := hparsed k (hinv.seen k (List.mem_append_left _ (List.mem_flatMap.mpr ⟨t, ht, hk⟩)))
    obtain ⟨b, hb, hbd, hlb⟩ := hinv.sent t ht
    have hbp := hparsed b hbd
    have := indexOf_lt_indexOf hsorted hkp hbp (hlb k hk)
    have := indexOf_lt_length_of_mem hbp
    refine ⟨hkp, ?_⟩
    simp only [Task.sentAt, hb]
    omega
  · obtain rfl := List.mem_singleton.mp ht
    have hkp := hparsed k (hinv.seen k (List.mem_append_right _ hk))
    exact ⟨hkp, by simpa [Task.sentAt, Accum.group] using indexOf_lt_length_of_mem hkp⟩

theorem compact_deletes_last_parsed {buffer : Store} {tasks : List Task} {L : Nat}
    (hL : ∀ e ∈ buffer.entries, e.1.length = L)
    (h : compact hashOf fromBuffer first last copyOk buffer = .ok tasks) :
    ∀ t ∈ tasks, ∀ n, t.sentAt ≤ n → ∀ k ∈ t.heldAt n, k ∈ lastTwo (t.parsed.take n) := by
  intro t ht n hn k hk
  obtain ⟨hP, hkeys⟩ := compact_keys_parsed first last copyOk h t ht
  obtain ⟨k₀, hk₀, rfl⟩ := List.mem_map.mp hk
  obtain ⟨hmem, hlt⟩ := hkeys k₀ hk₀
  have hlen : ∀ q ∈ t.parsed.take n, q.length = L := by
    intro q hq
    rw [hP] at hq
    obtain ⟨x, hx, rfl⟩ := List.mem_map.mp (List.mem_of_mem_take hq)
    exact hL x ((List.dropWhile_suffix _).subset (List.mem_of_mem_take hx))
  exact heldKey_mem_lastTwo le_growslice hlen
    (by rw [List.length_take]; have := indexOf_lt_length_of_mem hmem; omega)

end Tick

/-- Modelled from the spec: `key.HashOf`, missing from src: the key's leading four bytes,
big-endian, as the `uint32` compact.go keeps. -/
def hashOfKey (k : Key) : UInt32 := (k.take 4).foldl (fun h b => h * 256 + b.toUInt32) 0

def decodeOne (v : Bytes) : Option Block := if v = [1] then some Flush.oneRowBlock else none

def firstKey : Key := [0, 0, 0, 0, 0]

def lastKey : Key := [255, 255, 255, 255, 255]

def splitBuffer : Store :=
  ⟨[([0, 0, 0, 1, 1], [1]), ([0, 0, 0, 2, 1], [1]), ([0, 0, 0, 2, 2], [0]), ([0, 0, 0, 2, 3], [1])],
    by decide, false⟩

theorem splitBuffer_groups_sound :
    ∃ tasks, compact hashOfKey decodeOne firstKey lastKey (fun _ => true) splitBuffer = .ok tasks ∧
      (tasks.flatMap Task.keys).Sublist (decodedKeys decodeOne splitBuffer.entries) ∧
      ∀ t ∈ tasks, Sound hashOfKey decodeOne splitBuffer.entries t ∧ t.keys.Pairwise Lt := by
  refine ⟨_, rfl, ?_⟩
  exact compact_groups_sound firstKey lastKey (fun _ => true) (by decide) rfl

theorem splitBuffer_first_task_deletes_k3 :
    ∃ tasks, compact hashOfKey decodeOne firstKey lastKey (fun _ => true) splitBuffer = .ok tasks ∧
      tasks.map (fun t => (t.keys, t.heldAt t.parsed.length)) =
        [([[0, 0, 0, 1, 1]], [[0, 0, 0, 2, 2]]), ([], [])] ∧
      ∀ t ∈ tasks, ∀ n, t.sentAt ≤ n → ∀ k ∈ t.heldAt n, k ∈ lastTwo (t.parsed.take n) :=
  ⟨_, rfl, by decide, @compact_deletes_last_parsed hashOfKey decodeOne firstKey lastKey
    (fun _ => true) splitBuffer _ 5 (by decide) rfl⟩

theorem compact_skips_decodable_keys :
    (compact hashOfKey decodeOne firstKey lastKey (fun _ => true) splitBuffer).map
      (List.map Task.keys) = .ok [[[0, 0, 0, 1, 1]], []] :=
  rfl

def zeroHashBuffer : Store := ⟨[([0, 0, 0, 0, 1], [1]), ([0, 0, 0, 5, 1], [1])], by decide, false⟩

theorem compact_mixes_hash_zero :
    (compact hashOfKey decodeOne firstKey lastKey (fun _ => true) zeroHashBuffer).map
      (List.map Task.keys) = .ok [[[0, 0, 0, 0, 1], [0, 0, 0, 5, 1]]] ∧
    hashOfKey [0, 0, 0, 0, 1] = 0 ∧ hashOfKey [0, 0, 0, 5, 1] = 5 :=
  ⟨rfl, by decide, by decide⟩

theorem compact_empty_buffer_merges_empty_group :
    (compact hashOfKey decodeOne firstKey lastKey (fun _ => true) ⟨[], .nil, false⟩).map
      (List.map fun t => t.blocks.length) = .ok [0] ∧
    Flush.merge Flush.reliableOrc (fun _ => .ok "f") [] ∅ =
      .error "runtime error: index out of range [0] with length 0" :=
  ⟨rfl, rfl⟩

end Talaria.Compact
