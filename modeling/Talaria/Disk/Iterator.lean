import Talaria.Disk

/-! The items badger's iterator parses during `Range`, and what the key slices it hands out read
later. With `PrefetchValues` off, `Seek` parses two items and each `Next` recycles the item it
leaves for the one it parses, so the item at position `i` is the Go struct `i % 2`; `item.Key()`
is that struct's key buffer, which `SafeCopy` overwrites in place while the next key fits.
disk.go passes `item.Key()` to the callback without `KeyCopy`. -/

namespace Talaria.Disk

section Parsed

variable {σ : Type} (untilKey : Key) (copyOk : Key → Bool) (f : Key → Bytes → σ → σ × Bool)

def parsedKeys (s : Store) (seek : Key) (st : σ) : List Key :=
  ((s.entries.dropWhile fun e => decide (Lt e.1 seek)).take
    (rangeStop untilKey copyOk f (iterate s.entries seek (prefixOf seek untilKey)) st + 2)).map
    Prod.fst

lemma take_prefix_take {α : Type} {l₁ l₂ : List α} (h : l₁ <+: l₂) (n : Nat) :
    l₁.take n <+: l₂.take n := by
  obtain ⟨t, rfl⟩ := h
  rw [List.take_append_eq_append_take]
  exact List.prefix_append _ _

lemma mem_parsedKeys {s : Store} {seek : Key} {st : σ} {x : Key × Bytes}
    (hx : x ∈ (iterate s.entries seek (prefixOf seek untilKey)).take
      (rangeStop untilKey copyOk f (iterate s.entries seek (prefixOf seek untilKey)) st + 1)) :
    x.1 ∈ parsedKeys untilKey copyOk f s seek st := by
  refine List.mem_map_of_mem _ ((take_prefix_take
    (List.takeWhile_prefix fun e => hasPrefix e.1 (prefixOf seek untilKey)) _).subset ?_)
  exact (List.take_sublist_take_left _ (Nat.le_succ _)).subset hx

lemma parsedKeys_sorted (s : Store) (seek : Key) (st : σ) :
    (parsedKeys untilKey copyOk f s seek st).Pairwise Lt :=
  List.pairwise_map.mpr (s.sorted.sublist
    ((List.take_sublist _ _).trans (List.dropWhile_suffix _).sublist))

lemma indexOf_lt_length_of_mem {k : Key} : ∀ {l : List Key}, k ∈ l → l.indexOf k < l.length
  | [], h => absurd h (List.not_mem_nil _)
  | x :: l, h => by
    rw [List.indexOf_cons]
    by_cases hx : x = k
    · rw [hx, beq_self_eq_true]
      exact Nat.succ_pos _
    · rw [beq_false_of_ne hx]
      exact Nat.succ_lt_succ
        (indexOf_lt_length_of_mem ((List.mem_cons.mp h).resolve_left fun e => hx e.symm))

lemma indexOf_lt_indexOf : ∀ {l : List Key} {a b : Key}, l.Pairwise Lt → a ∈ l → b ∈ l →
    Lt a b → l.indexOf a < l.indexOf b
  | [], _, _, _, ha, _, _ => absurd ha (List.not_mem_nil _)
  | x :: l, a, b, hs, ha, hb, hab => by
    rw [List.pairwise_cons] at hs
    rw [List.indexOf_cons, List.indexOf_cons]
    by_cases hxa : x = a
    · subst hxa
      have hxb : x ≠ b := fun h => Lt.irrefl x (h ▸ hab)
      rw [beq_self_eq_true, beq_false_of_ne hxb]
      exact Nat.succ_pos _
    · have ha' : a ∈ l := (List.mem_cons.mp ha).resolve_left fun h => hxa h.symm
      have hxb : x ≠ b := by rintro rfl; exact Lt.asymm (hs.1 a ha') hab
      have hb' : b ∈ l := (List.mem_cons.mp hb).resolve_left fun h => hxb h.symm
      rw [beq_false_of_ne hxa, beq_false_of_ne hxb]
      exact Nat.succ_lt_succ (indexOf_lt_indexOf hs.2 ha' hb' hab)

end Parsed

def everyOther {α : Type} : List α → List α
  | [] => []
  | [a] => [a]
  | a :: _ :: l => a :: everyOther l

lemma mem_of_mem_everyOther {α : Type} : ∀ {l : List α} {x : α}, x ∈ everyOther l → x ∈ l
  | [], _, h => h
  | [_], _, h => h
  | a :: b :: l, x, h => by
    rcases List.mem_cons.mp h with rfl | h
    · exact .head _
    · exact .tail _ (.tail _ (mem_of_mem_everyOther h))

lemma everyOther_cons {α : Type} (a : α) (l : List α) :
    everyOther (a :: l) = a :: everyOther (l.drop 1) := by
  cases l <;> rfl

def lastTwo {α : Type} (l : List α) : List α := l.drop (l.length - 2)

lemma mem_lastTwo_of_drop {α : Type} {l : List α} {i : Nat} {x : α} (h : x ∈ lastTwo (l.drop i)) :
    x ∈ lastTwo l := by
  unfold lastTwo at h ⊢
  rw [List.drop_drop, List.length_drop] at h
  exact (List.drop_sublist_drop_left l (by omega)).subset h

lemma getLast_mem_lastTwo {α : Type} : ∀ (l : List α) {a : α} {rest : List α},
    everyOther l = a :: rest → (a :: rest).getLast (List.cons_ne_nil _ _) ∈ lastTwo l
  | [], _, _, h => nomatch h
  | [_], _, _, h => by cases h; simp [lastTwo]
  | [_, _], _, _, h => by cases h; simp [lastTwo, everyOther]
  | _ :: _ :: z :: l, _, _, h => by
    rw [everyOther, everyOther_cons] at h
    cases h
    rw [List.getLast_cons (List.cons_ne_nil _ _)]
    exact mem_lastTwo_of_drop (i := 2) (getLast_mem_lastTwo (z :: l) (everyOther_cons z l))

def sizeClasses : List Nat :=
  [8, 16, 32, 48, 64, 80, 96, 112, 128, 144, 160, 176, 192, 208, 224, 240, 256, 288, 320, 352,
    384, 416, 448, 480, 512, 576, 640, 704, 768, 896, 1024, 1152, 1280, 1408, 1536, 1792, 2048,
    2304, 2688, 3072, 3200, 3456, 4096, 4864, 5376, 6144, 6528, 6784, 6912, 8192, 9472, 9728,
    10240, 10880, 12288, 13568, 14336, 16384, 18432, 19072, 20480, 21760, 24576, 27264, 28672,
    32768]

def roundupsize (n : Nat) : Nat :=
  match sizeClasses.find? (n ≤ ·) with
  | some c => c
  | none => (n + 8191) / 8192 * 8192

lemma le_roundupsize (n : Nat) : n ≤ roundupsize n := by
  unfold roundupsize
  split
  · rename_i c hc
    simpa using List.find?_some hc
  · omega

def growslice (c n : Nat) : Nat := roundupsize (if 2 * c < n then n else 2 * c)

lemma le_growslice (c n : Nat) : n ≤ growslice c n :=
  le_trans (by split <;> omega) (le_roundupsize _)

section Slices

variable (grow : Nat → Nat → Nat)

def capAfter : Nat → List Key → Nat
  | c, [] => c
  | c, q :: qs => capAfter (if q.length ≤ c then c else grow c q.length) qs

def readBack (cap len : Nat) : Key → List Key → Key
  | arr, [] => arr.take len
  | arr, q :: later =>
    if q.length ≤ cap then readBack cap len (q ++ arr.drop q.length) later else arr.take len

def heldKey (parsed : List Key) (i : Nat) : Key :=
  readBack (capAfter grow 0 (everyOther ((parsed.take i).drop (i % 2)) ++ [parsed.getD i []]))
    (parsed.getD i []).length (parsed.getD i []) (everyOther (parsed.drop (i + 2)))

variable {grow} (hgrow : ∀ c n, n ≤ grow c n)
include hgrow

lemma le_capAfter : ∀ (c : Nat) (qs : List Key), c ≤ capAfter grow c qs
  | _, [] => le_refl _
  | c, q :: qs => by
    refine le_trans ?_ (le_capAfter _ qs)
    split
    · exact le_refl _
    · exact le_trans (by omega) (hgrow c q.length)

lemma length_le_capAfter_append : ∀ (c : Nat) (qs : List Key) (q : Key),
    q.length ≤ capAfter grow c (qs ++ [q])
  | c, [], q => by
    refine le_trans ?_ (le_capAfter hgrow _ [])
    split
    · assumption
    · exact hgrow c q.length
  | _, _ :: qs, q => length_le_capAfter_append _ qs q

omit hgrow in
lemma readBack_eq_getLast {cap L : Nat} (hL : L ≤ cap) : ∀ (arr : Key) (later : List Key),
    arr.length = L → (∀ q ∈ later, q.length = L) →
      readBack cap L arr later = (arr :: later).getLast (List.cons_ne_nil _ _)
  | arr, [], ha, _ => by simp [readBack, ← ha]
  | arr, q :: later, ha, hq => by
    have hqL : q.length = L := hq q (.head _)
    rw [readBack, if_pos (hqL ▸ hL), List.drop_eq_nil_of_le (by omega), List.append_nil,
      readBack_eq_getLast hL q later hqL fun q' h => hq q' (.tail _ h)]
    exact (List.getLast_cons (List.cons_ne_nil q later)).symm

theorem heldKey_mem_lastTwo {parsed : List Key} {L : Nat} (hL : ∀ q ∈ parsed, q.length = L)
    {i : Nat} (hi : i < parsed.length) : heldKey grow parsed i ∈ lastTwo parsed := by
  have hq : parsed.getD i [] = parsed[i] := by simp [List.getD_eq_getElem?_getD, hi]
  have hlen : (parsed.getD i []).length = L := hq ▸ hL _ (List.getElem_mem hi)
  have hE : everyOther (parsed.drop i) = parsed.getD i [] :: everyOther (parsed.drop (i + 2)) := by
    rw [List.drop_eq_getElem_cons hi, everyOther_cons, List.drop_drop, hq]
  rw [heldKey, readBack_eq_getLast (hlen ▸ length_le_capAfter_append hgrow 0 _ _) _ _ rfl
    fun q hq' => (hL q (List.mem_of_mem_drop (mem_of_mem_everyOther hq'))).trans hlen.symm]
  exact mem_lastTwo_of_drop (getLast_mem_lastTwo _ hE)

end Slices

end Talaria.Disk
