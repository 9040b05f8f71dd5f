import Mathlib.Data.List.Sort
import Mathlib.Data.List.Nodup
import Mathlib.Data.String.Basic

/-! Go maps keyed by column name, the type universe `typeof.Type`, the dynamic values stored
in columns, and schemas with their union. -/

namespace Talaria

structure NameMap (α : Type) where
  entries : List (String × α)
  nodup : (entries.map Prod.fst).Nodup

namespace NameMap

variable {α β : Type}

def empty : NameMap α := ⟨[], List.nodup_nil⟩

instance : EmptyCollection (NameMap α) := ⟨empty⟩

def keys (m : NameMap α) : List String := m.entries.map Prod.fst

def find? (m : NameMap α) (k : String) : Option α := m.entries.lookup k

def contains (m : NameMap α) (k : String) : Bool := (m.find? k).isSome

lemma map_fst_replace (l : List (String × α)) (k : String) (v : α) :
    (l.map fun p => if p.1 = k then (k, v) else p).map Prod.fst = l.map Prod.fst := by
  induction l with
  | nil => rfl
  | cons p l ih => by_cases h : p.1 = k <;> simp [h, ih]

def insert (m : NameMap α) (k : String) (v : α) : NameMap α :=
  if h : k ∈ m.keys then
    ⟨m.entries.map (fun p => if p.1 = k then (k, v) else p), by
      rw [map_fst_replace]; exact m.nodup⟩
  else
    ⟨m.entries ++ [(k, v)], by
      rw [List.map_append]; simpa using List.Nodup.concat h m.nodup⟩

def filter (m : NameMap α) (p : String → Bool) : NameMap α :=
  ⟨m.entries.filter (fun e => p e.1), ((List.filter_sublist _).map Prod.fst).nodup m.nodup⟩

def mapVals (m : NameMap α) (f : String → α → β) : NameMap β :=
  ⟨m.entries.map (fun p => (p.1, f p.1 p.2)), by
    simpa [Function.comp_def] using m.nodup⟩

@[simp] lemma find?_empty (k : String) : (∅ : NameMap α).find? k = none := rfl

@[simp] lemma keys_empty : (∅ : NameMap α).keys = [] := rfl

lemma lookup_cons_of_ne {l : List (String × α)} {a k : String} (b : α) (h : k ≠ a) :
    ((a, b) :: l).lookup k = l.lookup k := by
  simp [List.lookup_cons, beq_false_of_ne h]

lemma lookup_replace (l : List (String × α)) (k j : String) (v : α) :
    (l.map fun p => if p.1 = k then (k, v) else p).lookup j =
      if j = k ∧ k ∈ l.map Prod.fst then some v else l.lookup j := by
  induction l with
  | nil => simp
  | cons p l ih =>
    obtain ⟨a, b⟩ := p
    by_cases ha : a = k
    · subst ha
      by_cases hj : j = a
      · subst hj; simp
      · simp [lookup_cons_of_ne _ hj, hj, ih]
    · by_cases hj : j = a
      · subst hj; simp [ha, Ne.symm ha]
      · simp only [List.map_cons, ha, if_false, lookup_cons_of_ne _ hj, ih, List.mem_cons,
          Ne.symm ha, false_or]

lemma lookup_map_snd (l : List (String × α)) (f : String → α → β) (k : String) :
    (l.map fun p => (p.1, f p.1 p.2)).lookup k = (l.lookup k).map (f k) := by
  induction l with
  | nil => rfl
  | cons p l ih =>
    obtain ⟨a, b⟩ := p
    by_cases h : k = a
    · subst h; simp
    · simp [lookup_cons_of_ne _ h, ih]

lemma lookup_eq_none_of_not_mem (l : List (String × α)) (k : String) (h : k ∉ l.map Prod.fst) :
    l.lookup k = none := by
  simp only [List.lookup_eq_none_iff, bne_iff_ne, ne_eq]
  intro p hp heq
  exact h (List.mem_map.mpr ⟨p, hp, heq.symm⟩)

@[simp] lemma find?_insert (m : NameMap α) (k j : String) (v : α) :
    (m.insert k v).find? j = if j = k then some v else m.find? j := by
  unfold insert find?
  split
  · rename_i h
    simp only [lookup_replace]
    by_cases hj : j = k <;> simp_all [keys]
  · rename_i h
    rw [List.lookup_append]
    by_cases hj : j = k
    · subst hj
      simp [lookup_eq_none_of_not_mem _ _ h]
    · cases m.entries.lookup j <;> simp [lookup_cons_of_ne _ hj, hj]

lemma lookup_filter (l : List (String × α)) (p : String → Bool) (k : String) :
    (l.filter fun e => p e.1).lookup k = if p k then l.lookup k else none := by
  induction l with
  | nil => simp
  | cons e l ih =>
    obtain ⟨a, b⟩ := e
    by_cases hp : p a
    · by_cases h : k = a
      · subst h; simp [List.filter_cons, hp]
      · simp [List.filter_cons, hp, lookup_cons_of_ne _ h, ih]
    · rw [List.filter_cons_of_neg (by simpa using hp), ih]
      by_cases h : k = a
      · subst h; simp [hp]
      · simp [lookup_cons_of_ne _ h]

@[simp] lemma find?_filter (m : NameMap α) (p : String → Bool) (k : String) :
    (m.filter p).find? k = if p k then m.find? k else none :=
  lookup_filter _ p k

lemma mem_keys_iff (m : NameMap α) (k : String) : k ∈ m.keys ↔ (m.find? k).isSome := by
  simp only [keys, find?, List.lookup_isSome_iff, List.mem_map, beq_iff_eq]
  exact ⟨fun ⟨p, hp, h⟩ => ⟨p, hp, h.symm⟩, fun ⟨p, hp, h⟩ => ⟨p, hp, h.symm⟩⟩

@[simp] lemma find?_mapVals (m : NameMap α) (f : String → α → β) (k : String) :
    (m.mapVals f).find? k = (m.find? k).map (f k) :=
  lookup_map_snd _ f k

@[simp] lemma keys_mapVals (m : NameMap α) (f : String → α → β) : (m.mapVals f).keys = m.keys := by
  simp [mapVals, keys, Function.comp_def]

lemma lookup_eq_some_iff_mem (l : List (String × α)) (hn : (l.map Prod.fst).Nodup) (k : String)
    (v : α) : l.lookup k = some v ↔ (k, v) ∈ l := by
  induction l with
  | nil => simp
  | cons p l ih =>
    obtain ⟨a, b⟩ := p
    rw [List.map_cons, List.nodup_cons] at hn
    by_cases h : k = a
    · subst h
      simp only [List.lookup_cons_self, Option.some.injEq, List.mem_cons, Prod.mk.injEq, true_and]
      refine ⟨fun h => .inl h.symm, ?_⟩
      rintro (h | h)
      · exact h.symm
      · exact (hn.1 (List.mem_map.mpr ⟨_, h, rfl⟩)).elim
    · simp [lookup_cons_of_ne _ h, h, ih hn.2]

lemma find?_eq_some_iff (m : NameMap α) (k : String) (v : α) :
    m.find? k = some v ↔ (k, v) ∈ m.entries :=
  lookup_eq_some_iff_mem _ m.nodup k v

end NameMap

/-- Modelled from the spec: `typeof.Type`, missing from src, the type universe. -/
inductive Typeof
  | string
  | int32
  | int64
  | float64
  | bool
  | timestamp
  | json
  | unsupported
  deriving DecidableEq, Repr

/-- Modelled from the spec: a non-nil dynamic value as a tagged variant, with `other` for any
type outside the universe. -/
inductive Value
  | string (s : String)
  | int32 (v : BitVec 32)
  | int64 (v : BitVec 64)
  | float64 (bits : BitVec 64)
  | bool (b : Bool)
  | timestamp (sec : BitVec 64) (nsec : BitVec 64)
  | json (bytes : List UInt8)
  | other
  deriving DecidableEq, Repr

def Value.typeof : Value → Typeof
  | .string _ => .string
  | .int32 _ => .int32
  | .int64 _ => .int64
  | .float64 _ => .float64
  | .bool _ => .bool
  | .timestamp _ _ => .timestamp
  | .json _ => .json
  | .other => .unsupported

abbrev Schema := NameMap Typeof

namespace Schema

/-- Modelled from the spec: `typeof.Schema.Union`, missing from src. The union is the name-wise
merge of both schemas; the flag is false when a common name has two types, and the left
schema's type is then kept. -/
def union (s o : Schema) : Schema × Bool :=
  (o.entries.foldl (fun acc p => if acc.contains p.1 then acc else acc.insert p.1 p.2) s,
    o.entries.all fun p => (s.find? p.1).all (· = p.2))

/-- Modelled from the spec: `typeof.Schema.Columns`, missing from src: the names, sorted. -/
def columns (s : Schema) : List String := s.keys.insertionSort (· ≤ ·)

def Sub (b s : Schema) : Prop := ∀ k t, b.find? k = some t → s.find? k = some t

def unionFrom (s : Schema) : List Schema → Option Schema
  | [] => some s
  | o :: os => if (s.union o).2 then unionFrom (s.union o).1 os else none

lemma find?_foldl_insertAbsent (l : List (String × Typeof)) (acc : Schema) (k : String) :
    (l.foldl (fun acc p => if acc.contains p.1 then acc else acc.insert p.1 p.2) acc).find? k =
      (acc.find? k).or (l.lookup k) := by
  induction l generalizing acc with
  | nil => simp
  | cons p l ih =>
    obtain ⟨a, t⟩ := p
    rw [List.foldl_cons, ih]
    by_cases hc : acc.contains a
    · simp only [hc, if_true]
      by_cases hk : k = a
      · subst hk
        obtain ⟨x, hx⟩ := Option.isSome_iff_exists.mp hc
        simp [hx]
      · simp [NameMap.lookup_cons_of_ne _ hk]
    · simp only [hc, if_false, Bool.false_eq_true]
      by_cases hk : k = a
      · subst hk
        have : acc.find? k = none := by simpa [NameMap.contains] using hc
        simp [this]
      · simp [hk, NameMap.lookup_cons_of_ne _ hk]

@[simp] lemma find?_union (s o : Schema) (k : String) :
    (s.union o).1.find? k = (s.find? k).or (o.find? k) :=
  find?_foldl_insertAbsent _ _ _

@[simp] lemma union_empty_ok (o : Schema) : ((∅ : Schema).union o).2 = true := by
  simp [union]

lemma unionFrom_append (s : Schema) (l : List Schema) (o : Schema) :
    unionFrom s (l ++ [o]) =
      (unionFrom s l).bind fun t => if (t.union o).2 then some (t.union o).1 else none := by
  induction l generalizing s with
  | nil => simp [unionFrom]
  | cons a l ih => simp only [List.cons_append, unionFrom]; split <;> simp [ih]

end Schema

end Talaria
