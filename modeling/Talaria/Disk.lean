import Talaria.Typeof

/-! `disk.Storage`, the row buffer: a badger store of byte-string keys in lexicographic order,
with `Append`, the prefix-bounded `Range` scan and the batched `Delete`. -/

namespace Talaria.Disk

abbrev Key := List UInt8

abbrev Bytes := List UInt8

def bytesCompare : Key → Key → Ordering
  | [], [] => .eq
  | [], _ :: _ => .lt
  | _ :: _, [] => .gt
  | a :: as, b :: bs => if a < b then .lt else if b < a then .gt else bytesCompare as bs

def Lt (a b : Key) : Prop := bytesCompare a b = .lt

instance (a b : Key) : Decidable (Lt a b) := inferInstanceAs (Decidable (_ = _))

lemma uint8_eq_of_not_lt {a b : UInt8} (h1 : ¬ a < b) (h2 : ¬ b < a) : a = b := by
  have h1' : ¬ a.toNat < b.toNat := h1
  have h2' : ¬ b.toNat < a.toNat := h2
  exact UInt8.toNat.inj (by omega)

lemma bytesCompare_swap (a b : Key) : bytesCompare b a = (bytesCompare a b).swap := by
  induction a generalizing b with
  | nil => cases b <;> rfl
  | cons x a ih =>
    cases b with
    | nil => rfl
    | cons y b =>
      simp only [bytesCompare]
      by_cases h1 : x < y
      · simp [h1, UInt8.lt_asymm h1, Ordering.swap]
      · by_cases h2 : y < x
        · simp [h1, h2, Ordering.swap]
        · simp [h1, h2, ih]

lemma bytesCompare_eq_iff {a b : Key} : bytesCompare a b = .eq ↔ a = b := by
  induction a generalizing b with
  | nil => cases b <;> simp [bytesCompare]
  | cons x a ih =>
    cases b with
    | nil => simp [bytesCompare]
    | cons y b =>
      simp only [bytesCompare, List.cons.injEq]
      by_cases h1 : x < y
      · simp [h1]; rintro rfl; exact absurd h1 (UInt8.lt_irrefl _)
      · by_cases h2 : y < x
        · simp [h1, h2]; rintro rfl; exact absurd h2 (UInt8.lt_irrefl _)
        · simp [h1, h2, ih, uint8_eq_of_not_lt h1 h2]

@[simp] lemma bytesCompare_self (a : Key) : bytesCompare a a = .eq := bytesCompare_eq_iff.mpr rfl

lemma Lt.irrefl (a : Key) : ¬ Lt a a := by simp [Lt]

lemma Lt.asymm {a b : Key} (h : Lt a b) : ¬ Lt b a := by
  unfold Lt at *; rw [bytesCompare_swap, h]; decide

lemma lt_cons_iff {x y : UInt8} {a b : Key} : Lt (x :: a) (y :: b) ↔ x < y ∨ x = y ∧ Lt a b := by
  unfold Lt
  simp only [bytesCompare]
  by_cases h1 : x < y
  · simp [h1]
  · by_cases h2 : y < x
    · simp only [h1, h2, if_false, if_true, false_or, reduceCtorEq, false_iff, not_and]
      rintro rfl
      exact absurd h2 (UInt8.lt_irrefl _)
    · simp [h1, h2, uint8_eq_of_not_lt h1 h2]

lemma Lt.trans {a b c : Key} (h1 : Lt a b) (h2 : Lt b c) : Lt a c := by
  induction a generalizing b c with
  | nil => cases c with
    | nil => cases b <;> simp_all [Lt, bytesCompare]
    | cons => rfl
  | cons x a ih =>
    cases b with
    | nil => simp [Lt, bytesCompare] at h1
    | cons y b =>
      cases c with
      | nil => simp [Lt, bytesCompare] at h2
      | cons z c =>
        rw [lt_cons_iff] at h1 h2 ⊢
        rcases h1 with hxy | ⟨rfl, h1⟩ <;> rcases h2 with hyz | ⟨rfl, h2⟩
        · exact .inl (UInt8.lt_trans hxy hyz)
        · exact .inl hxy
        · exact .inl hyz
        · exact .inr ⟨rfl, ih h1 h2⟩

/-- Modelled from the spec: `key.PrefixOf`, missing from src: the longest common prefix. -/
def prefixOf : Key → Key → Key
  | a :: as, b :: bs => if a = b then a :: prefixOf as bs else []
  | _, _ => []

def hasPrefix (k p : Key) : Bool := p.isPrefixOf k

lemma prefixOf_prefix_of_between : ∀ {seek untilKey k : Key}, ¬ Lt k seek → ¬ Lt untilKey k →
    prefixOf seek untilKey <+: k
  | [], _, _, _, _ => List.nil_prefix
  | _ :: _, [], _, _, _ => List.nil_prefix
  | a :: as, b :: bs, [], h1, _ => absurd rfl h1
  | a :: as, b :: bs, c :: ks, h1, h2 => by
    simp only [prefixOf]
    split
    · subst_vars
      rw [lt_cons_iff, not_or, not_and] at h1 h2
      obtain rfl := uint8_eq_of_not_lt h1.1 h2.1
      exact List.prefix_cons_inj _ |>.mpr
        (prefixOf_prefix_of_between (h1.2 rfl) (h2.2 rfl))
    · exact List.nil_prefix

structure Store where
  entries : List (Key × Bytes)
  sorted : entries.Pairwise fun a b => Lt a.1 b.1
  closed : Bool

def errClosed : String := "unable to run commands on a closed database"

def put (k : Key) (v : Bytes) : List (Key × Bytes) → List (Key × Bytes)
  | [] => [(k, v)]
  | (k', v') :: rest =>
    match bytesCompare k k' with
    | .lt => (k, v) :: (k', v') :: rest
    | .eq => (k, v) :: rest
    | .gt => (k', v') :: put k v rest

lemma mem_put {k : Key} {v : Bytes} {l : List (Key × Bytes)} {x : Key × Bytes}
    (h : x ∈ put k v l) : x = (k, v) ∨ x ∈ l := by
  induction l with
  | nil => simpa [put] using h
  | cons p l ih =>
    obtain ⟨k', v'⟩ := p
    simp only [put] at h
    split at h
    · simpa [or_assoc] using h
    · rcases List.mem_cons.mp h with h | h
      · exact .inl h
      · exact .inr (.tail _ h)
    · rcases List.mem_cons.mp h with h | h
      · exact .inr (h ▸ .head _)
      · exact (ih h).imp_right (.tail _)

lemma sorted_put (k : Key) (v : Bytes) {l : List (Key × Bytes)}
    (hl : l.Pairwise fun a b => Lt a.1 b.1) : (put k v l).Pairwise fun a b => Lt a.1 b.1 := by
  induction l with
  | nil => simp [put]
  | cons p l ih =>
    obtain ⟨k', v'⟩ := p
    rw [List.pairwise_cons] at hl
    simp only [put]
    split
    · rename_i hc
      exact List.Pairwise.cons (fun x hx => by
        rcases List.mem_cons.mp hx with rfl | hx
        · exact hc
        · exact Lt.trans hc (hl.1 x hx)) (List.Pairwise.cons hl.1 hl.2)
    · rename_i hc
      obtain rfl := bytesCompare_eq_iff.mp hc
      exact List.Pairwise.cons hl.1 hl.2
    · rename_i hc
      refine List.Pairwise.cons (fun x hx => ?_) (ih hl.2)
      rcases mem_put hx with rfl | hx
      · show bytesCompare k' k = .lt
        rw [bytesCompare_swap, hc]; rfl
      · exact hl.1 x hx

lemma mem_put_self (k : Key) (v : Bytes) (l : List (Key × Bytes)) : (k, v) ∈ put k v l := by
  induction l with
  | nil => simp [put]
  | cons p l ih =>
    simp only [put]
    split <;> simp [ih]

lemma mem_put_of_ne {k : Key} (v : Bytes) {l : List (Key × Bytes)} {x : Key × Bytes}
    (hx : x ∈ l) (hk : x.1 ≠ k) : x ∈ put k v l := by
  induction l with
  | nil => cases hx
  | cons p l ih =>
    simp only [put]
    split
    · exact .tail _ hx
    · rename_i hc
      rcases List.mem_cons.mp hx with rfl | hx
      · exact absurd (bytesCompare_eq_iff.mp hc).symm hk
      · exact .tail _ hx
    · rcases List.mem_cons.mp hx with rfl | hx
      · exact .head _
      · exact .tail _ (ih hx)

def find (s : Store) (k : Key) : Option Bytes := s.entries.lookup k

def append (s : Store) (k : Key) (v : Bytes) (updateOk : Bool) : Store × Except String Unit :=
  if s.closed then (s, .error errClosed)
  else if updateOk then (⟨put k v s.entries, sorted_put k v s.sorted, false⟩, .ok ())
  else (s, .error "unable to append")

def iterate (entries : List (Key × Bytes)) (seek p : Key) : List (Key × Bytes) :=
  (entries.dropWhile fun e => decide (Lt e.1 seek)).takeWhile fun e => hasPrefix e.1 p

section Range

variable {σ : Type} (untilKey : Key) (copyOk : Key → Bool) (f : Key → Bytes → σ → σ × Bool)

def rangeLoop : List (Key × Bytes) → σ → σ
  | [], st => st
  | (k, v) :: rest, st =>
    if bytesCompare k untilKey = .gt then st
    else if copyOk k then
      if (f k v st).2 then (f k v st).1 else rangeLoop rest (f k v st).1
    else rangeLoop rest st

def range (s : Store) (seek : Key) (st : σ) : Except String σ :=
  if s.closed then .error errClosed
  else .ok (rangeLoop untilKey copyOk f (iterate s.entries seek (prefixOf seek untilKey)) st)

def rangeStop : List (Key × Bytes) → σ → Nat
  | [], _ => 0
  | (k, v) :: rest, st =>
    if bytesCompare k untilKey = .gt then 0
    else if copyOk k then
      if (f k v st).2 then 0 else rangeStop rest (f k v st).1 + 1
    else rangeStop rest st + 1

theorem rangeLoop_induct {P : List (Key × Bytes) → σ → Prop} (items₀ : List (Key × Bytes))
    (hstep : ∀ done k v st, (done ++ [(k, v)]).Sublist items₀ → P done st →
      P (done ++ [(k, v)]) (f k v st).1) :
    ∀ (items done : List (Key × Bytes)) (st : σ), (done ++ items).Sublist items₀ → P done st →
      ∃ vis, vis.Sublist (items.take (rangeStop untilKey copyOk f items st + 1)) ∧
        P (done ++ vis) (rangeLoop untilKey copyOk f items st)
  | [], done, st, _, h => ⟨[], .slnil, by simpa [rangeLoop] using h⟩
  | (k, v) :: rest, done, st, hs, h => by
    have hk : (done ++ [(k, v)] ++ rest).Sublist items₀ := by simpa using hs
    have hr : (done ++ rest).Sublist items₀ := ((List.sublist_cons_self _ _).append_left _).trans hs
    simp only [rangeLoop, rangeStop]
    split
    · exact ⟨[], List.nil_sublist _, by simpa using h⟩
    · split
      · have h' := hstep done k v st ((List.sublist_append_left _ _).trans hk) h
        split
        · exact ⟨[(k, v)], by simp, h'⟩
        · obtain ⟨vis, hv, hp⟩ := rangeLoop_induct items₀ hstep rest _ _ hk h'
          exact ⟨(k, v) :: vis, by simpa using hv, by simpa using hp⟩
      · obtain ⟨vis, hv, hp⟩ := rangeLoop_induct items₀ hstep rest _ _ hr h
        exact ⟨vis, by simpa using hv.cons (k, v), hp⟩

end Range

lemma iterate_sublist (entries : List (Key × Bytes)) (seek p : Key) :
    (iterate entries seek p).Sublist entries :=
  (List.takeWhile_sublist _).trans (List.dropWhile_suffix _).sublist

def inRange (seek untilKey k : Key) : Bool := decide (¬ Lt k seek ∧ ¬ Lt untilKey k)

section Scan

variable {σ : Type} (copyOk : Key → Bool) (f : Key → Bytes → σ → σ × Bool)

def scan : List (Key × Bytes) → σ → σ
  | [], st => st
  | (k, v) :: rest, st =>
    if copyOk k then
      if (f k v st).2 then (f k v st).1 else scan rest (f k v st).1
    else scan rest st

lemma compare_eq_gt_iff {a b : Key} : bytesCompare a b = .gt ↔ Lt b a := by
  unfold Lt
  rw [bytesCompare_swap b a]
  cases bytesCompare b a <;> decide

lemma not_lt_of_mem_dropWhile {seek : Key} : ∀ {l : List (Key × Bytes)},
    l.Pairwise (fun a b => Lt a.1 b.1) →
      ∀ e ∈ l.dropWhile (fun e => decide (Lt e.1 seek)), ¬ Lt e.1 seek
  | [], _, e, he => by simp at he
  | a :: l, hs, e, he => by
    rw [List.dropWhile_cons] at he
    rw [List.pairwise_cons] at hs
    split at he
    · exact not_lt_of_mem_dropWhile hs.2 e he
    · rename_i ha
      rcases List.mem_cons.mp he with rfl | he
      · simpa using ha
      · exact fun hlt => ha (by simpa using (hs.1 e he).trans hlt)

lemma rangeLoop_takeWhile (seek untilKey : Key) : ∀ (l : List (Key × Bytes)) (st : σ),
    l.Pairwise (fun a b => Lt a.1 b.1) → (∀ e ∈ l, ¬ Lt e.1 seek) →
    rangeLoop untilKey copyOk f (l.takeWhile fun e => hasPrefix e.1 (prefixOf seek untilKey)) st =
      scan copyOk f (l.filter fun e => inRange seek untilKey e.1) st
  | [], _, _, _ => rfl
  | (k, v) :: rest, st, hs, hge => by
    rw [List.pairwise_cons] at hs
    have hk : ¬ Lt k seek := hge _ (.head _)
    by_cases hu : Lt untilKey k
    · have hnil : (((k, v) :: rest).filter fun e => inRange seek untilKey e.1) = [] :=
        List.filter_eq_nil_iff.mpr fun e he => by
          have hue : Lt untilKey e.1 := by
            rcases List.mem_cons.mp he with rfl | he
            · exact hu
            · exact hu.trans (hs.1 e he)
          simp [inRange, hue]
      rw [hnil, List.takeWhile_cons]
      split <;> simp [rangeLoop, scan, compare_eq_gt_iff.mpr hu]
    · have hp : hasPrefix k (prefixOf seek untilKey) = true :=
        List.isPrefixOf_iff_prefix.mpr (prefixOf_prefix_of_between hk hu)
      have hin : inRange seek untilKey k = true := by simp [inRange, hk, hu]
      have hgt : bytesCompare k untilKey ≠ .gt := fun h => hu (compare_eq_gt_iff.mp h)
      have ih := fun st => rangeLoop_takeWhile seek untilKey rest st hs.2 fun e he => hge e (.tail _ he)
      rw [List.takeWhile_cons_of_pos (p := fun e : Key × Bytes => hasPrefix e.1 (prefixOf seek untilKey)) hp,
        List.filter_cons_of_pos (p := fun e : Key × Bytes => inRange seek untilKey e.1) hin]
      simp only [rangeLoop, scan, if_neg hgt, ih]

theorem range_eq_scan (untilKey : Key) (s : Store) (seek : Key) (st : σ) :
    range untilKey copyOk f s seek st =
      if s.closed then .error errClosed
      else .ok (scan copyOk f (s.entries.filter fun e => inRange seek untilKey e.1) st) := by
  unfold range iterate
  split
  · rfl
  · have hnil : (s.entries.takeWhile fun e => decide (Lt e.1 seek)).filter
        (fun e => inRange seek untilKey e.1) = [] :=
      List.filter_eq_nil_iff.mpr fun e he => by
        have hlt := List.mem_takeWhile_imp he
        simp only [decide_eq_true_eq] at hlt
        simp [inRange, hlt]
    have hfilter : (s.entries.dropWhile fun e => decide (Lt e.1 seek)).filter
        (fun e => inRange seek untilKey e.1) = s.entries.filter fun e => inRange seek untilKey e.1 := by
      conv_rhs => rw [← List.takeWhile_append_dropWhile (fun e => decide (Lt e.1 seek)) s.entries,
        List.filter_append, hnil, List.nil_append]
    rw [rangeLoop_takeWhile copyOk f seek untilKey _ st
      (s.sorted.sublist (List.dropWhile_suffix _).sublist) (not_lt_of_mem_dropWhile s.sorted),
      hfilter]

-- `seek` a prefix of `until`: the scan from `[1]` to `[1, 2]` sees the keys that extend `[1]`
-- up to `[1, 2]`, and stops before `[1, 3]`.
example : range [1, 2] (fun _ => true) (fun k _ (st : List Key) => (st ++ [k], false))
    ⟨[([0], []), ([1], []), ([1, 0], []), ([1, 2], []), ([1, 3], []), ([2], [])], by decide, false⟩
    [1] [] = .ok [[1], [1, 0], [1, 2]] := rfl

end Scan

inductive TxnDelete
  | ok
  | tooBig
  | failed
  deriving DecidableEq, Repr

structure TxnEnv where
  delete : Nat → TxnDelete
  commit : Nat → Bool

def erase (db : List (Key × Bytes)) (keys : List Key) : List (Key × Bytes) :=
  db.filter fun e => e.1 ∉ keys

def deleteLoop (env : TxnEnv) :
    List (Key × Bytes) → List Key → Nat → Nat → List Key → List (Key × Bytes) × Except String Unit
  | db, txn, _, c, [] => if env.commit c then (erase db txn, .ok ()) else (db, .error "unable to delete")
  | db, txn, d, c, k :: ks =>
    match env.delete d with
    | .ok => deleteLoop env db (txn ++ [k]) (d + 1) c ks
    | .tooBig =>
      if env.commit c then
        match env.delete (d + 1) with
        | .ok => deleteLoop env (erase db txn) [k] (d + 2) (c + 1) ks
        | _ => (erase db txn, .error "unable to delete")
      else (db, .error "unable to delete")
    | .failed => (db, .error "unable to delete")

lemma erase_erase (db : List (Key × Bytes)) (a b : List Key) :
    erase (erase db a) b = erase db (a ++ b) := by
  simp [erase, List.filter_filter, Bool.and_comm]

@[simp] lemma erase_nil (db : List (Key × Bytes)) : erase db [] = db := by
  simp [erase]

def txnsOf (env : TxnEnv) : List Key → Nat → Nat → List Key → List (List Key × Bool)
  | txn, _, c, [] => [(txn, env.commit c)]
  | txn, d, c, k :: ks =>
    match env.delete d with
    | .ok => txnsOf env (txn ++ [k]) (d + 1) c ks
    | .tooBig =>
      if env.commit c then
        (txn, true) :: match env.delete (d + 1) with
          | .ok => txnsOf env [k] (d + 2) (c + 1) ks
          | _ => [([], false)]
      else [(txn, false)]
    | .failed => [(txn, false)]

def committedKeys (ts : List (List Key × Bool)) : List Key := (ts.filter (·.2)).flatMap (·.1)

@[simp] lemma committedKeys_cons_true (txn : List Key) (ts : List (List Key × Bool)) :
    committedKeys ((txn, true) :: ts) = txn ++ committedKeys ts := by
  simp [committedKeys]

@[simp] lemma committedKeys_single (txn : List Key) (b : Bool) :
    committedKeys [(txn, b)] = if b then txn else [] := by
  cases b <;> simp [committedKeys]

lemma deleteLoop_txnsOf (env : TxnEnv) : ∀ (keys : List Key) (db : List (Key × Bytes))
    (txn : List Key) (d c : Nat),
    (deleteLoop env db txn d c keys).1 = erase db (committedKeys (txnsOf env txn d c keys)) ∧
      ((deleteLoop env db txn d c keys).2 = .ok () →
        committedKeys (txnsOf env txn d c keys) = txn ++ keys) ∧
      (committedKeys (txnsOf env txn d c keys) = [] ∨
        ∃ n ≤ keys.length, committedKeys (txnsOf env txn d c keys) = txn ++ keys.take n)
  | [], db, txn, d, c => by
    simp only [deleteLoop, txnsOf, committedKeys_single]
    cases env.commit c
    · exact ⟨by simp, by simp, .inl rfl⟩
    · exact ⟨by simp, fun _ => by simp, .inr ⟨0, by simp, by simp⟩⟩
  | k :: ks, db, txn, d, c => by
    simp only [deleteLoop, txnsOf]
    split
    · obtain ⟨he, hok, hp⟩ := deleteLoop_txnsOf env ks db (txn ++ [k]) (d + 1) c
      refine ⟨he, fun h => by simpa using hok h, hp.imp_right ?_⟩
      rintro ⟨n, hn, hc⟩
      exact ⟨n + 1, by simpa using hn, by simpa using hc⟩
    · split
      · split
        · obtain ⟨he, hok, hp⟩ := deleteLoop_txnsOf env ks (erase db txn) [k] (d + 2) (c + 1)
          refine ⟨by rw [he, erase_erase, committedKeys_cons_true], fun h => by simp [hok h],
            .inr ?_⟩
          rcases hp with hc | ⟨n, hn, hc⟩
          · exact ⟨0, by simp, by simp [hc]⟩
          · exact ⟨n + 1, by simpa using hn, by simp [hc]⟩
        · exact ⟨by simp, by simp, .inr ⟨0, by simp, by simp⟩⟩
      · exact ⟨by simp, by simp, .inl rfl⟩
    · exact ⟨by simp, by simp, .inl rfl⟩

lemma deleteLoop_take (env : TxnEnv) (keys : List Key) (db : List (Key × Bytes)) (d c : Nat) :
    ∃ n ≤ keys.length, (deleteLoop env db [] d c keys).1 = erase db (keys.take n) ∧
      ((deleteLoop env db [] d c keys).2 = .ok () → n = keys.length) ∧
      keys.take n = committedKeys (txnsOf env [] d c keys) := by
  obtain ⟨he, hok, hp⟩ := deleteLoop_txnsOf env keys db [] d c
  have hn : ∃ n ≤ keys.length, committedKeys (txnsOf env [] d c keys) = keys.take n := by
    rcases hp with hc | ⟨n, hn, hc⟩
    · exact ⟨0, by simp, by simp [hc]⟩
    · exact ⟨n, hn, by simpa using hc⟩
  obtain ⟨n, hn, hc⟩ := hn
  refine ⟨n, hn, by rw [he, hc], fun h => ?_, hc.symm⟩
  have := congrArg List.length ((hok h).symm.trans hc)
  simp only [List.nil_append, List.length_take] at this
  omega

lemma sorted_deleteLoop (env : TxnEnv) (s : Store) (keys : List Key) :
    (deleteLoop env s.entries [] 0 0 keys).1.Pairwise fun a b => Lt a.1 b.1 := by
  obtain ⟨n, -, he, -⟩ := deleteLoop_take env keys s.entries 0 0
  rw [he]
  exact s.sorted.filter _

lemma mem_erase {db : List (Key × Bytes)} {keys : List Key} {x : Key × Bytes} :
    x ∈ erase db keys ↔ x ∈ db ∧ x.1 ∉ keys := by
  simp [erase]

lemma key_mem_of_not_mem_erase {db : List (Key × Bytes)} {keys : List Key} {x : Key × Bytes}
    (hx : x ∈ db) (hx' : x ∉ erase db keys) : x.1 ∈ keys :=
  Classical.byContradiction fun hk => hx' (mem_erase.mpr ⟨hx, hk⟩)

def delete (s : Store) (env : TxnEnv) (keys : List Key) : Store × Except String Unit :=
  if s.closed then (s, .error errClosed)
  else (⟨(deleteLoop env s.entries [] 0 0 keys).1, sorted_deleteLoop env s keys, s.closed⟩,
    (deleteLoop env s.entries [] 0 0 keys).2)

lemma append_of_closed {s : Store} (h : s.closed = true) (k : Key) (v : Bytes) (updateOk : Bool) :
    append s k v updateOk = (s, .error errClosed) := by
  simp [append, h]

lemma delete_of_closed {s : Store} (h : s.closed = true) (env : TxnEnv) (keys : List Key) :
    delete s env keys = (s, .error errClosed) := by
  simp [delete, h]

lemma append_cases (s : Store) (k : Key) (v : Bytes) (updateOk : Bool) :
    ((append s k v updateOk).2 = .ok () ∧ (append s k v updateOk).1.entries = put k v s.entries) ∨
      ((∃ e, (append s k v updateOk).2 = .error e) ∧ (append s k v updateOk).1 = s) := by
  unfold append
  split
  · exact .inr ⟨⟨_, rfl⟩, rfl⟩
  · split
    · exact .inl ⟨rfl, rfl⟩
    · exact .inr ⟨⟨_, rfl⟩, rfl⟩

lemma delete_entries (s : Store) (env : TxnEnv) (keys : List Key) :
    ∃ gone : List Key, (∀ k ∈ gone, k ∈ keys) ∧ (delete s env keys).1.entries = erase s.entries gone := by
  unfold delete
  split
  · exact ⟨[], by simp, by simp⟩
  · obtain ⟨n, -, he, -⟩ := deleteLoop_take env keys s.entries 0 0
    exact ⟨keys.take n, fun k hk => List.mem_of_mem_take hk, he⟩

-- The key whose `txn.Delete` reports the transaction too big is deleted in the fresh one.
example : (delete ⟨[([1], []), ([2], []), ([3], [])], by decide, false⟩
    ⟨fun i => if i = 1 then .tooBig else .ok, fun _ => true⟩ [[1], [2], [3]]).1.entries = [] := by
  decide

-- The first transaction commits on `ErrTxnTooBig`, the second's commit fails: `[1]` is gone,
-- `[2]` and `[3]` stay, and the call reports the error.
example : (delete ⟨[([1], []), ([2], []), ([3], [])], by decide, false⟩
    ⟨fun i => if i = 1 then .tooBig else .ok, fun c => c = 0⟩ [[1], [2], [3]]).map Store.entries id =
      ([([2], []), ([3], [])], .error "unable to delete") :=
  rfl

end Talaria.Disk
