import Talaria.Typeof

/-! The column set of `internal/column`: `Columns.Append` with its pre-padding, `Max` and
`FillNulls`, and the rows that appending entries one row at a time leaves in the set. -/

namespace Talaria

/-- Modelled from the spec: a typed presto column (`presto.Column`), missing from src: one
nullable value per row. -/
structure Column where
  kind : Typeof
  values : List (Option Value)
  deriving DecidableEq, Repr

namespace Column

def count (c : Column) : Nat := c.values.length

/-- Modelled from the spec: `Append(v)` records a null for `nil` and, the spec's test-visible
choice, for a value of another type. -/
def append (c : Column) (v : Option Value) : Column :=
  { c with values := c.values ++ [v.filter fun x => x.typeof = c.kind] }

def appendNulls (c : Column) : Nat → Column
  | 0 => c
  | n + 1 => (c.append none).appendNulls n

def last (c : Column) : Option Value := c.values.getLast?.join

@[simp] lemma kind_append (c : Column) (v : Option Value) : (c.append v).kind = c.kind := rfl

@[simp] lemma values_append (c : Column) (v : Option Value) :
    (c.append v).values = c.values ++ [v.filter fun x => x.typeof = c.kind] := rfl

@[simp] lemma count_append (c : Column) (v : Option Value) : (c.append v).count = c.count + 1 := by
  simp [count]

@[simp] lemma kind_appendNulls (c : Column) (n : Nat) : (c.appendNulls n).kind = c.kind := by
  induction n generalizing c with
  | zero => rfl
  | succ n ih => simp [appendNulls, ih]

@[simp] lemma values_appendNulls (c : Column) (n : Nat) :
    (c.appendNulls n).values = c.values ++ List.replicate n none := by
  induction n generalizing c with
  | zero => simp [appendNulls]
  | succ n ih => simp [appendNulls, ih, List.replicate_succ]

lemma appendNulls_eq (c : Column) (n : Nat) :
    c.appendNulls n = ⟨c.kind, c.values ++ List.replicate n none⟩ := by
  rw [← kind_appendNulls c n, ← values_appendNulls c n]

end Column

def newColumn (t : Typeof) : Column := ⟨t, []⟩

def isWordStart (ch : Char) : Bool := ('a' ≤ ch && ch ≤ 'z') || ('A' ≤ ch && ch ≤ 'Z') || ch = '_'

def isWordChar (ch : Char) : Bool := isWordStart ch || ('0' ≤ ch && ch ≤ '9')

def isValidName (name : String) : Bool :=
  match name.data with
  | [] => false
  | ch :: rest => isWordStart ch && rest.all isWordChar

abbrev Columns := NameMap Column

def makeColumns : Option Schema → Columns
  | none => ∅
  | some s => s.mapVals fun _ t => newColumn t

namespace Columns

def max (c : Columns) : Nat := c.entries.foldl (fun m p => Nat.max m p.2.count) 0

def append (c : Columns) (name : String) (value : Option Value) (typ : Typeof) : Columns :=
  if !isValidName name then c
  else match c.find? name with
    | some col => c.insert name (col.append value)
    | none =>
      if typ = .unsupported then c
      else c.insert name (((newColumn typ).appendNulls (c.max - 1)).append value)

def fillNulls (c : Columns) : Columns :=
  let m := c.max
  c.mapVals fun _ col => col.appendNulls (m - col.count)

def lastRow (c : Columns) : NameMap (Option Value) := c.mapVals fun _ col => col.last

section Bytes

variable (valueBytes : Typeof → Option Value → Nat)

/-- Modelled from the spec: the bytes `Append(name, value, typ)` reports, along the branches of
`append`, where `valueBytes t v` is what a column of type `t` reports for `Append(v)`, a size
the spec leaves to the implementation. -/
def appendBytes (c : Columns) (name : String) (value : Option Value) (typ : Typeof) : Nat :=
  if !isValidName name then 0
  else match c.find? name with
    | some col => valueBytes col.kind value
    | none => if typ = .unsupported then 0 else (c.max - 1) * valueBytes typ none + valueBytes typ value

def fillNullsBytes (c : Columns) : Nat :=
  c.entries.foldl (fun n p => n + (c.max - p.2.count) * valueBytes p.2.kind none) 0

end Bytes

lemma foldl_max_le (l : List (String × Column)) (m a : Nat) (ha : a ≤ m)
    (h : ∀ p ∈ l, p.2.count ≤ m) : l.foldl (fun m p => Nat.max m p.2.count) a ≤ m := by
  induction l generalizing a with
  | nil => exact ha
  | cons p l ih =>
    exact ih _ (Nat.max_le.mpr ⟨ha, h p (.head _)⟩) fun q hq => h q (.tail _ hq)

lemma le_foldl_max (l : List (String × Column)) (a : Nat) :
    a ≤ l.foldl (fun m p => Nat.max m p.2.count) a ∧
      ∀ p ∈ l, p.2.count ≤ l.foldl (fun m p => Nat.max m p.2.count) a := by
  induction l generalizing a with
  | nil => simp
  | cons p l ih =>
    obtain ⟨h1, h2⟩ := ih (Nat.max a p.2.count)
    refine ⟨(Nat.le_max_left _ _).trans h1, ?_⟩
    rintro q (_ | ⟨_, hq⟩)
    · exact (Nat.le_max_right _ _).trans h1
    · exact h2 q hq

lemma max_le {c : Columns} {m : Nat} (h : ∀ k col, c.find? k = some col → col.count ≤ m) :
    c.max ≤ m :=
  foldl_max_le _ m 0 (Nat.zero_le _) fun p hp =>
    h p.1 p.2 ((NameMap.find?_eq_some_iff _ _ _).mpr hp)

lemma le_max {c : Columns} {k : String} {col : Column} (h : c.find? k = some col) :
    col.count ≤ c.max :=
  (le_foldl_max c.entries 0).2 (k, col) ((NameMap.find?_eq_some_iff _ _ _).mp h)

lemma max_eq {c : Columns} {m : Nat} {k : String} {col : Column} (hk : c.find? k = some col)
    (hc : col.count = m) (h : ∀ k col, c.find? k = some col → col.count ≤ m) : c.max = m :=
  Nat.le_antisymm (max_le h) (hc ▸ le_max hk)

lemma find?_append (c : Columns) (name j : String) (value : Option Value) (typ : Typeof) :
    (c.append name value typ).find? j =
      if j = name ∧ isValidName name then
        match c.find? name with
        | some col => some (col.append value)
        | none => if typ = .unsupported then none
            else some (((newColumn typ).appendNulls (c.max - 1)).append value)
      else c.find? j := by
  unfold append
  by_cases hv : isValidName name
  · by_cases hj : j = name
    · subst hj
      cases h : c.find? j <;> simp [hv, h]
      split <;> simp_all
    · cases h : c.find? name <;> simp [hv, h, hj]
      split <;> simp [hj]
  · simp [hv]

@[simp] lemma find?_fillNulls (c : Columns) (k : String) :
    c.fillNulls.find? k = (c.find? k).map fun col => col.appendNulls (c.max - col.count) := by
  simp [fillNulls]

lemma count_fillNulls {c : Columns} {k : String} {col : Column} (h : c.fillNulls.find? k = some col) :
    col.count = c.max := by
  obtain ⟨col0, h0, rfl⟩ := Option.map_eq_some'.mp ((find?_fillNulls c k).symm.trans h)
  rw [Column.count, Column.values_appendNulls, List.length_append, List.length_replicate]
  exact Nat.add_sub_of_le (le_max h0)

theorem fillNulls_squares (c : Columns) :
    (∀ k col, c.fillNulls.find? k = some col → col.count = c.max) ∧
      c.fillNulls.max = c.max ∧ c.fillNulls.keys = c.keys ∧
      ∀ k, c.fillNulls.find? k = (c.find? k).map fun col =>
        ⟨col.kind, col.values ++ List.replicate (c.max - col.count) none⟩ := by
  refine ⟨fun _ _ => count_fillNulls, Nat.le_antisymm (max_le fun _ _ h => (count_fillNulls h).le)
    (max_le fun k col h => ?_), by simp [fillNulls], fun k => by simp [Column.appendNulls_eq]⟩
  have hf : c.fillNulls.find? k = some (col.appendNulls (c.max - col.count)) := by simp [h]
  calc col.count ≤ (col.appendNulls (c.max - col.count)).count := by simp [Column.count]
    _ ≤ c.fillNulls.max := le_max hf

abbrev RowEntries := List (String × Value)

def appendEntries (c : Columns) (es : RowEntries) : Columns :=
  es.foldl (fun c e => c.append e.1 (some e.2) e.2.typeof) c

def appendRow (c : Columns) (row : RowEntries) : Columns := (c.appendEntries row).fillNulls

def appendRows (rows : List RowEntries) : Columns := rows.foldl appendRow ∅

def Aligned (rows : List RowEntries) (c : Columns) : Prop :=
  ∀ k col, c.find? k = some col → col.values = rows.map fun r => r.lookup k

structure RowInv (rows : List RowEntries) (p : RowEntries) (c : Columns) : Prop where
  values : ∀ k col, c.find? k = some col →
    col.values = rows.map (fun r => r.lookup k) ++ ((p.lookup k).map some).toList
  kinds : ∀ k col, c.find? k = some col → ∀ r ∈ p :: rows, ∀ v, r.lookup k = some v →
    v.typeof = col.kind
  keys : ∀ k, (c.find? k).isSome ↔ ∃ r ∈ p :: rows, (r.lookup k).isSome

lemma RowInv.count_le {rows p c} (h : RowInv rows p c) {k col} (hk : c.find? k = some col) :
    col.count ≤ rows.length + 1 := by
  rw [Column.count, h.values k col hk]
  cases p.lookup k <;> simp

lemma lookup_append_single {p : RowEntries} {k j : String} (v : Value) (hk : k ∉ p.map Prod.fst) :
    (p ++ [(k, v)]).lookup j = if j = k then some v else p.lookup j := by
  rw [List.lookup_append]
  by_cases hj : j = k
  · subst hj; simp [NameMap.lookup_eq_none_of_not_mem _ _ hk]
  · cases p.lookup j <;> simp [NameMap.lookup_cons_of_ne _ hj, hj]

lemma find?_append_self {rows : List RowEntries} {p : RowEntries} {c : Columns} {k : String}
    {v : Value} (h : RowInv rows p c) (hmax : p ≠ [] → c.max = rows.length + 1)
    (hstart : p = [] → rows = [] ∨ (c.find? k).isSome) (hpk : p.lookup k = none)
    (hv : isValidName k) (hs : v.typeof ≠ .unsupported)
    (ht : ∀ r ∈ rows, ∀ v', r.lookup k = some v' → v'.typeof = v.typeof) :
    ∃ col', (c.append k (some v) v.typeof).find? k = some col' ∧
      col'.values = rows.map (fun r => r.lookup k) ++ [some v] ∧ col'.kind = v.typeof := by
  cases hc : c.find? k with
  | some col =>
    obtain ⟨r, hr, hrk⟩ := (h.keys k).mp (by simp [hc])
    have hr' : r ∈ rows := by
      rcases List.mem_cons.mp hr with rfl | hr
      · simp [hpk] at hrk
      · exact hr
    obtain ⟨v', hv'⟩ := Option.isSome_iff_exists.mp hrk
    have hkind : col.kind = v.typeof := (h.kinds k col hc r hr v' hv').symm.trans (ht r hr' v' hv')
    exact ⟨col.append (some v), by simp [find?_append, hv, hc],
      by simp [h.values k col hc, hpk, hkind], by simp [hkind]⟩
  | none =>
    have hnone : ∀ r ∈ rows, r.lookup k = none := fun r hr =>
      Option.not_isSome_iff_eq_none.mp fun hs => (h.keys k).not.mp (by simp [hc]) ⟨r, .tail _ hr, hs⟩
    have hm : c.max - 1 = rows.length := by
      by_cases hp : p = []
      · rcases hstart hp with rfl | hs
        · have := max_le fun j col hj => h.count_le hj
          simp at this ⊢; omega
        · simp [hc] at hs
      · rw [hmax hp]; rfl
    refine ⟨((newColumn v.typeof).appendNulls (c.max - 1)).append (some v),
      by simp [find?_append, hv, hc, hs], ?_, by simp [newColumn]⟩
    simp only [Column.values_append, Column.values_appendNulls, newColumn, List.nil_append, hm,
      Column.kind_append, Column.kind_appendNulls]
    congr 1
    · exact (List.eq_replicate_iff.mpr ⟨by simp, fun x hx => by
        obtain ⟨r, hr, rfl⟩ := List.mem_map.mp hx; exact hnone r hr⟩).symm
    · simp

lemma rowInv_append {rows : List RowEntries} {p : RowEntries} {c : Columns} {k : String}
    {v : Value} (h : RowInv rows p c) (hmax : p ≠ [] → c.max = rows.length + 1)
    (hstart : p = [] → rows = [] ∨ (c.find? k).isSome) (hk : k ∉ p.map Prod.fst)
    (hv : isValidName k) (hs : v.typeof ≠ .unsupported)
    (ht : ∀ r ∈ rows, ∀ v', r.lookup k = some v' → v'.typeof = v.typeof) :
    RowInv rows (p ++ [(k, v)]) (c.append k (some v) v.typeof) ∧
      (c.append k (some v) v.typeof).max = rows.length + 1 := by
  have hfind : ∀ j, j ≠ k → (c.append k (some v) v.typeof).find? j = c.find? j := by
    intro j hj; simp [find?_append, hj]
  have hlook : ∀ j, (p ++ [(k, v)]).lookup j = if j = k then some v else p.lookup j :=
    fun j => lookup_append_single v hk
  obtain ⟨col', hcol', hval, hkind⟩ := find?_append_self h hmax hstart
    (NameMap.lookup_eq_none_of_not_mem _ _ hk) hv hs ht
  have hinv : RowInv rows (p ++ [(k, v)]) (c.append k (some v) v.typeof) := by
    refine ⟨fun j col hj => ?_, fun j col hj r hr w hw => ?_, fun j => ?_⟩
    · by_cases hjk : j = k
      · subst hjk; rw [hcol'] at hj; cases hj; simp [hval, hlook]
      · rw [hfind j hjk] at hj; simp [h.values j col hj, hlook, hjk]
    · by_cases hjk : j = k
      · subst hjk; rw [hcol'] at hj; cases hj
        rcases List.mem_cons.mp hr with rfl | hr
        · rw [hlook] at hw; simp at hw; rw [hkind, hw]
        · exact (ht r hr w hw).trans hkind.symm
      · rw [hfind j hjk] at hj
        rcases List.mem_cons.mp hr with rfl | hr
        · rw [hlook, if_neg hjk] at hw; exact h.kinds j col hj p (.head _) w hw
        · exact h.kinds j col hj r (.tail _ hr) w hw
    · by_cases hjk : j = k
      · subst hjk; simp [hcol', hlook]
      · rw [hfind j hjk, h.keys j]; simp [hlook, hjk]
  exact ⟨hinv, max_eq hcol' (by simp [Column.count, hval]) fun j col hj => hinv.count_le hj⟩

lemma rowInv_appendEntries (rows : List RowEntries) (es : RowEntries) : ∀ (p : RowEntries) (c : Columns),
    RowInv rows p c → (p ≠ [] → c.max = rows.length + 1) →
    (p = [] → ∀ e ∈ es.head?, rows = [] ∨ (c.find? e.1).isSome) →
    ((p ++ es).map Prod.fst).Nodup → (∀ e ∈ es, isValidName e.1 ∧ e.2.typeof ≠ .unsupported) →
    (∀ e ∈ es, ∀ r ∈ rows, ∀ v', r.lookup e.1 = some v' → v'.typeof = e.2.typeof) →
    RowInv rows (p ++ es) (appendEntries c es) ∧
      (p ++ es ≠ [] → (appendEntries c es).max = rows.length + 1) := by
  induction es with
  | nil => intro p c h hmax _ _ _ _; simpa [appendEntries] using ⟨h, hmax⟩
  | cons e es ih =>
    intro p c h hmax hstart hnd hv ht
    have hk : e.1 ∉ p.map Prod.fst := by
      rw [List.map_append, List.map_cons, List.nodup_append] at hnd
      exact fun hm => hnd.2.2 hm (.head _)
    obtain ⟨h1, hm1⟩ := rowInv_append h hmax (fun hp => hstart hp e rfl) hk (hv e (.head _)).1
      (hv e (.head _)).2 (ht e (.head _))
    have := ih (p ++ [e]) _ h1 (fun _ => hm1) (fun hp => by simp at hp)
      (by simpa using hnd) (fun e he => hv e (.tail _ he)) (fun e he => ht e (.tail _ he))
    simpa [appendEntries] using this

lemma rowInv_appendRow {rows : List RowEntries} {c : Columns} {e : String × Value} {es : RowEntries}
    (h : RowInv rows [] c) (hstart : rows = [] ∨ (c.find? e.1).isSome)
    (hnd : ((e :: es).map Prod.fst).Nodup)
    (hv : ∀ e' ∈ e :: es, isValidName e'.1 ∧ e'.2.typeof ≠ .unsupported)
    (ht : ∀ e' ∈ e :: es, ∀ r ∈ rows, ∀ v', r.lookup e'.1 = some v' → v'.typeof = e'.2.typeof) :
    RowInv (rows ++ [e :: es]) [] (appendRow c (e :: es)) := by
  obtain ⟨h1, hm1⟩ := rowInv_appendEntries rows (e :: es) [] c h (by simp)
    (fun _ e' he' => by simp at he'; subst he'; exact hstart) hnd hv ht
  simp only [List.nil_append, ne_eq, reduceCtorEq, not_false_eq_true, forall_const] at h1 hm1
  have hfill : appendRow c (e :: es) = (appendEntries c (e :: es)).fillNulls := rfl
  refine ⟨fun k col hk => ?_, fun k col hk r hr v hv => ?_, fun k => ?_⟩
  · rw [hfill, find?_fillNulls] at hk
    obtain ⟨col0, h0, rfl⟩ := Option.map_eq_some'.mp hk
    have := h1.values k col0 h0
    simp only [Column.values_appendNulls, this, hm1, Column.count, List.map_append, List.map_cons,
      List.map_nil, List.lookup_nil, Option.map_none', Option.toList_none, List.append_nil]
    cases (e :: es).lookup k <;> simp
  · rw [hfill, find?_fillNulls] at hk
    obtain ⟨col0, h0, rfl⟩ := Option.map_eq_some'.mp hk
    rw [Column.kind_appendNulls]
    rcases List.mem_cons.mp hr with rfl | hr
    · simp at hv
    · rcases List.mem_append.mp hr with hr | hr
      · exact h1.kinds k col0 h0 r (.tail _ hr) v hv
      · simp at hr; subst hr; exact h1.kinds k col0 h0 _ (.head _) v hv
  · have := h1.keys k
    rw [hfill, find?_fillNulls]
    simp only [Option.isSome_map'] at this ⊢
    rw [this]
    simp [or_comm]

lemma rowInv_appendRows (rows : List RowEntries)
    (hv : ∀ r ∈ rows, ∀ e ∈ r, isValidName e.1 ∧ e.2.typeof ≠ .unsupported)
    (hnd : ∀ r ∈ rows, (r.map Prod.fst).Nodup)
    (ht : ∀ r ∈ rows, ∀ r' ∈ rows, ∀ k v v', r.lookup k = some v → r'.lookup k = some v' →
      v.typeof = v'.typeof)
    (hfirst : ∀ pre r post, rows = pre ++ r :: post →
      ∃ e es, r = e :: es ∧ (pre = [] ∨ ∃ r' ∈ pre, (r'.lookup e.1).isSome)) :
    RowInv rows [] (appendRows rows) := by
  induction rows using List.reverseRecOn with
  | nil => exact ⟨by simp [appendRows], by simp [appendRows], by simp [appendRows]⟩
  | append_singleton rows r ih =>
    have h := ih (fun r hr => hv r (by simp [hr])) (fun r hr => hnd r (by simp [hr]))
      (fun r hr r' hr' => ht r (by simp [hr]) r' (by simp [hr']))
      (fun pre r0 post he => hfirst pre r0 (post ++ [r]) (by simp [he]))
    obtain ⟨e, es, rfl, hstart⟩ := hfirst rows r [] rfl
    have hr : e :: es ∈ rows ++ [e :: es] := by simp
    rw [appendRows, List.foldl_append, List.foldl_cons, List.foldl_nil]
    refine rowInv_appendRow h ?_ (hnd _ hr) (hv _ hr) fun e' he' r' hr' v' hv' => ?_
    · rcases hstart with rfl | ⟨r', hr', hs⟩
      · exact .inl rfl
      · exact .inr ((h.keys e.1).mpr ⟨r', .tail _ hr', hs⟩)
    · have hself : (e :: es).lookup e'.1 = some e'.2 :=
        (NameMap.lookup_eq_some_iff_mem _ (hnd _ hr) _ _).mpr he'
      exact ht r' (by simp [hr']) _ hr _ _ _ hv' hself

theorem appendRows_aligned (rows : List RowEntries)
    (hv : ∀ r ∈ rows, ∀ e ∈ r, isValidName e.1 ∧ e.2.typeof ≠ .unsupported)
    (hnd : ∀ r ∈ rows, (r.map Prod.fst).Nodup)
    (ht : ∀ r ∈ rows, ∀ r' ∈ rows, ∀ k v v', r.lookup k = some v → r'.lookup k = some v' →
      v.typeof = v'.typeof)
    (hfirst : ∀ pre r post, rows = pre ++ r :: post →
      ∃ e es, r = e :: es ∧ (pre = [] ∨ ∃ r' ∈ pre, (r'.lookup e.1).isSome)) :
    Aligned rows (appendRows rows) ∧
      ∀ k, ((appendRows rows).find? k).isSome ↔ ∃ r ∈ rows, (r.lookup k).isSome := by
  have h := rowInv_appendRows rows hv hnd ht hfirst
  exact ⟨fun k col hk => by simpa using h.values k col hk, fun k => by simpa using h.keys k⟩

def twoRows : List RowEntries := [[("a", .int32 1), ("b", .int32 2)], [("a", .int32 3)]]

theorem twoRows_aligned : Aligned twoRows (appendRows twoRows) ∧
    ∀ k, ((appendRows twoRows).find? k).isSome ↔ ∃ r ∈ twoRows, (r.lookup k).isSome := by
  have hint : ∀ r ∈ twoRows, ∀ k v, r.lookup k = some v → v.typeof = .int32 := fun r hr k v h => by
    obtain ⟨l₁, l₂, rfl, -⟩ := List.lookup_eq_some_iff.mp h
    exact (by decide : ∀ r ∈ twoRows, ∀ e ∈ r, e.2.typeof = .int32) _ hr (k, v) (by simp)
  refine appendRows_aligned twoRows (by decide) (by decide)
    (fun r hr r' hr' k v v' h h' => (hint r hr k v h).trans (hint r' hr' k v' h').symm) ?_
  intro pre r post h
  rcases pre with _ | ⟨r1, _ | ⟨r2, pre⟩⟩
  · simp only [twoRows, List.nil_append, List.cons.injEq] at h
    obtain ⟨rfl, -⟩ := h
    exact ⟨_, _, rfl, .inl rfl⟩
  · simp only [twoRows, List.singleton_append, List.cons.injEq] at h
    obtain ⟨rfl, rfl, -⟩ := h
    exact ⟨_, _, rfl, .inr ⟨_, .head _, rfl⟩⟩
  · simp [twoRows] at h

-- The three rows of `TestColumns` (column_test.go), an invalid name and an unsupported value
-- included: nulls fill the gaps, and each column keeps one value per row.
example : (fun c : Columns =>
    c.find? "a" = some ⟨.int32, [some (.int32 1), some (.int32 1), none]⟩ ∧
    c.find? "b" = some ⟨.int32, [some (.int32 2), none, some (.int32 1)]⟩ ∧
    c.find? "c" = some ⟨.string, [none, some (.string "hi"), some (.string "hi")]⟩ ∧
    c.find? "d" = some ⟨.float64, [none, none, some (.float64 0x3FF8000000000000)]⟩ ∧
    c.max = 3 ∧ c.lastRow.keys.length = 4) (appendRows
      [[("a", .int32 1), ("b", .int32 2), ("123", .int32 2), ("x", .other)],
       [("a", .int32 1), ("c", .string "hi")],
       [("b", .int32 1), ("c", .string "hi"), ("d", .float64 0x3FF8000000000000)]]) := by
  decide

theorem appendRows_new_first_misaligned :
    (appendRows [[("a", .int32 1)], [("b", .int32 2)]]).find? "b" = some ⟨.int32, [some (.int32 2)]⟩ ∧
      ¬ Aligned [[("a", .int32 1)], [("b", .int32 2)]]
        (appendRows [[("a", .int32 1)], [("b", .int32 2)]]) := by
  have hb : (appendRows [[("a", .int32 1)], [("b", .int32 2)]]).find? "b" =
      some ⟨.int32, [some (.int32 2)]⟩ := by decide
  refine ⟨hb, fun h => ?_⟩
  have := h "b" _ hb
  simp at this

end Columns

end Talaria
