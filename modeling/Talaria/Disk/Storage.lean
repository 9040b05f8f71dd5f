import Talaria.Disk

/-! `disk.Storage` with the `ExpiresAt` badger keeps beside each entry: `Append` with its TTL,
`Delete`, `Close`, and the GC task, whose `purge` walks the snapshot of a `View` one item at a
time while the other callers go on. badger hides an entry whose `ExpiresAt` is set and reached
from every read, `Range` and `purge`'s iterator included. -/

namespace Talaria.Disk

def unix64 (t : Int) : Nat := (t / 1000000000 % 18446744073709551616).toNat

lemma unix64_lt {t t' : Int} (h0 : 0 ≤ t) (h : t + 1000000000 ≤ t')
    (h' : t' < 9223372036854775808) : unix64 t < unix64 t' := by
  unfold unix64
  omega

def expired (e : Nat) (now : Int) : Bool := e != 0 && decide (e ≤ unix64 now)

def TxnEnv.deletesOne (env : TxnEnv) : Bool :=
  match env.delete 0 with
  | .ok => env.commit 0
  | .tooBig => env.commit 0 && env.delete 1 == .ok && env.commit 1
  | .failed => false

lemma delete_one (s : Store) (env : TxnEnv) (k : Key) :
    (delete s env [k]).1.entries =
        (if (!s.closed && env.deletesOne) = true then erase s.entries [k] else s.entries) ∧
      (delete s env [k]).1.closed = s.closed ∧
      ((delete s env [k]).2 = .ok () ↔ (!s.closed && env.deletesOne) = true) := by
  unfold delete
  cases hc : s.closed
  · simp only [TxnEnv.deletesOne, deleteLoop, Bool.false_eq_true, if_false, Bool.not_false,
      Bool.true_and]
    cases env.delete 0 <;> cases env.commit 0 <;> simp [deleteLoop]
    cases env.delete 1 <;> cases env.commit 1 <;> simp
  · simp [hc]

lemma erase_sorted {kept post : List (Key × Bytes)} {k : Key} {v : Bytes}
    (h : (kept ++ (k, v) :: post).Pairwise fun a b => Lt a.1 b.1) :
    erase (kept ++ (k, v) :: post) [k] = kept ++ post := by
  rw [List.pairwise_append, List.pairwise_cons] at h
  obtain ⟨-, ⟨hpost, -⟩, hkept⟩ := h
  have hk : ∀ x ∈ kept, x.1 ≠ k := fun x hx hxk =>
    Lt.irrefl k (hxk ▸ hkept x hx (k, v) (.head _))
  have hp : ∀ x ∈ post, x.1 ≠ k := fun x hx hxk => Lt.irrefl k (hxk ▸ hpost x hx)
  simp only [erase, List.filter_append, List.filter_cons, List.mem_singleton, not_true_eq_false,
    decide_False, Bool.false_eq_true, if_false]
  rw [List.filter_eq_self.mpr fun x hx => by simpa using hk x hx,
    List.filter_eq_self.mpr fun x hx => by simpa using hp x hx]

inductive Gc
  | idle
  | purging (rest : List (Key × Nat)) (deleted total : Nat) (written : List Key)

namespace Gc

def rest : Gc → List (Key × Nat)
  | .idle => []
  | .purging rest _ _ _ => rest

def written : Gc → List Key
  | .idle => []
  | .purging _ _ _ written => written

def write (k : Key) : Gc → Gc
  | .idle => .idle
  | .purging rest deleted total written => .purging rest deleted total (written ++ [k])

def inFlight : Gc → Nat
  | .idle => 0
  | .purging .. => 1

@[simp] lemma rest_write (k : Key) (g : Gc) : (g.write k).rest = g.rest := by cases g <;> rfl

@[simp] lemma inFlight_write (k : Key) (g : Gc) : (g.write k).inFlight = g.inFlight := by
  cases g <;> rfl

lemma mem_written_write (k : Key) (g : Gc) {k' : Key} (h : k' ∈ g.written) :
    k' ∈ (g.write k).written := by
  cases g with
  | idle => cases h
  | purging => exact List.mem_append_left _ h

lemma mem_written_write_self (k : Key) {g : Gc} (h : g.rest ≠ []) : k ∈ (g.write k).written := by
  cases g with
  | idle => exact absurd rfl h
  | purging => simp [write, written]

end Gc

structure Storage where
  db : Store
  expiresAt : Key → Nat
  gcTask : Gc
  cancelled : Bool
  gauges : List (Nat × Nat)

def purgeItem (db : Store) (k : Key) (e : Nat) (seen now : Int) (txn : TxnEnv)
    (deleted total : Nat) : Store × Nat × Nat :=
  if expired e seen then (db, deleted, total)
  else if e ≤ unix64 now then
    match delete db txn [k] with
    | (db', .ok _) => (db', deleted + 1, total + 1)
    | (db', .error _) => (db', deleted, total + 1)
  else (db, deleted, total + 1)

def purgeLoop (seen now : Nat → Int) (txns : Nat → TxnEnv) :
    List (Key × Nat) → Store → Nat → Nat → Nat → Store × Nat × Nat
  | [], db, _, deleted, total => (db, deleted, total)
  | (k, e) :: rest, db, i, deleted, total =>
    let r := purgeItem db k e (seen i) (now i) (txns i) deleted total
    purgeLoop seen now txns rest r.1 (i + 1) r.2.1 r.2.2

def yielded (expiresAt : Key → Nat) (seen : Nat → Int) (p : Nat × (Key × Bytes)) : Bool :=
  !expired (expiresAt p.2.1) (seen p.1)

def purged (expiresAt : Key → Nat) (closed : Bool) (seen now : Nat → Int) (txns : Nat → TxnEnv)
    (p : Nat × (Key × Bytes)) : Bool :=
  yielded expiresAt seen p && decide (expiresAt p.2.1 ≤ unix64 (now p.1)) && !closed &&
    (txns p.1).deletesOne

lemma purgeItem_eq (db : Store) (k : Key) (e : Nat) (seen now : Int) (txn : TxnEnv)
    (deleted total : Nat) :
    (purgeItem db k e seen now txn deleted total).1.entries =
        (if (!expired e seen && decide (e ≤ unix64 now) && !db.closed && txn.deletesOne) = true
          then erase db.entries [k] else db.entries) ∧
      (purgeItem db k e seen now txn deleted total).1.closed = db.closed ∧
      (purgeItem db k e seen now txn deleted total).2 =
        (if (!expired e seen && decide (e ≤ unix64 now) && !db.closed && txn.deletesOne) = true
          then deleted + 1 else deleted, if expired e seen then total else total + 1) := by
  obtain ⟨hent, hcl, hok⟩ := delete_one db txn k
  unfold purgeItem
  cases hx : expired e seen
  · by_cases he : e ≤ unix64 now
    · simp only [he, decide_True, Bool.not_false, Bool.true_and, if_true, Bool.false_eq_true,
        if_false]
      rcases hd : delete db txn [k] with ⟨db', _ | _⟩
      · rw [hd] at hent hcl hok
        have hf : (!db.closed && txn.deletesOne) = false :=
          Bool.eq_false_iff.mpr fun h => nomatch hok.mpr h
        simp only [hf] at hent ⊢
        exact ⟨hent, hcl, rfl⟩
      · rw [hd] at hent hcl hok
        simp only [hok.mp rfl] at hent ⊢
        exact ⟨hent, hcl, rfl⟩
    · simp [he]
  · simp

namespace Storage

def append (s : Storage) (k : Key) (v : Bytes) (ttl now : Int) (updateOk : Bool) :
    Storage × Except String Unit :=
  match Disk.append s.db k v updateOk with
  | (db, .ok _) =>
    ({ s with db := db, expiresAt := Function.update s.expiresAt k (unix64 (now + ttl)) }, .ok ())
  | (db, .error e) => ({ s with db := db }, .error e)

def delete (s : Storage) (txn : TxnEnv) (keys : List Key) : Storage × Except String Unit :=
  ({ s with db := (Disk.delete s.db txn keys).1 }, (Disk.delete s.db txn keys).2)

def close (s : Storage) : Storage :=
  { s with db := { s.db with closed := true }, cancelled := true }

def snapshot (s : Storage) : List (Key × Nat) := s.db.entries.map fun e => (e.1, s.expiresAt e.1)

def visible (s : Storage) (now : Int) : Store :=
  ⟨s.db.entries.filter fun x => !expired (s.expiresAt x.1) now, s.db.sorted.filter _, s.db.closed⟩

def range {σ : Type} (untilKey : Key) (copyOk : Key → Bool) (f : Key → Bytes → σ → σ × Bool)
    (s : Storage) (seek : Key) (st : σ) (now : Int) : Except String σ :=
  Disk.range untilKey copyOk f (s.visible now) seek st

lemma mem_visible {s : Storage} {now : Int} {x : Key × Bytes} :
    x ∈ (s.visible now).entries ↔ x ∈ s.db.entries ∧ expired (s.expiresAt x.1) now = false := by
  simp [visible]

def purge (s : Storage) (seen now : Nat → Int) (txns : Nat → TxnEnv) : Store × Nat × Nat :=
  purgeLoop seen now txns s.snapshot s.db 0 0 0

def gc (s : Storage) (seen now : Nat → Int) (txns : Nat → TxnEnv) : Storage :=
  if s.cancelled then s
  else { s with db := (s.purge seen now txns).1, gauges := s.gauges ++ [(s.purge seen now txns).2] }

inductive Label
  | append (k : Key) (v : Bytes) (ttl now : Int) (updateOk : Bool)
  | delete (keys : List Key) (txn : TxnEnv)
  | gcStart
  | purgeNext (seen now : Int) (txn : TxnEnv)
  | gcEnd
  | close

def step (s : Storage) : Label → Option Storage
  | .append k v ttl now ok =>
    match s.append k v ttl now ok with
    | (s', .ok _) => some { s' with gcTask := s.gcTask.write k }
    | (s', .error _) => some s'
  | .delete keys txn => some (s.delete txn keys).1
  | .gcStart =>
    match s.gcTask with
    | .idle => some (if s.cancelled then s else { s with gcTask := .purging s.snapshot 0 0 [] })
    | .purging .. => none
  | .purgeNext seen now txn =>
    match s.gcTask with
    | .purging ((k, e) :: rest) deleted total written =>
      let r := purgeItem s.db k e seen now txn deleted total
      some { s with db := r.1, gcTask := .purging rest r.2.1 r.2.2 written }
    | _ => none
  | .gcEnd =>
    match s.gcTask with
    | .purging [] deleted total _ =>
      some { s with gcTask := .idle, gauges := s.gauges ++ [(deleted, total)] }
    | _ => none
  | .close => some s.close

def run (s : Storage) : List Label → Option Storage
  | [] => some s
  | l :: ls => (s.step l).bind fun s' => s'.run ls

inductive Reach : Storage → Prop
  | opened (db : Store) (expiresAt : Key → Nat) :
    Reach ⟨{ db with closed := false }, expiresAt, .idle, false, []⟩
  | step {s s' : Storage} {l : Label} : Reach s → s.step l = some s' → Reach s'

section Steps

variable {s s' : Storage}

/-! What each step can do, guards included. -/

lemma step_append {k : Key} {v : Bytes} {ttl now : Int} {ok : Bool}
    (h : s.step (.append k v ttl now ok) = some s') :
    (∃ db : Store, db.entries = put k v s.db.entries ∧ s' = { s with
        db := db
        expiresAt := Function.update s.expiresAt k (unix64 (now + ttl))
        gcTask := s.gcTask.write k }) ∨ s' = s := by
  rcases append_cases s.db k v ok with ⟨hr, he⟩ | ⟨⟨e, hr⟩, hb⟩
  · refine .inl ⟨_, he, ?_⟩
    simp only [step, Storage.append] at h
    revert h
    rcases hA : Disk.append s.db k v ok with ⟨db, _ | _⟩ <;> rw [hA] at hr <;> cases hr
    exact fun h => (Option.some.inj h).symm
  · refine .inr ?_
    simp only [step, Storage.append] at h
    revert h
    rcases hA : Disk.append s.db k v ok with ⟨db, _ | _⟩ <;> rw [hA] at hr hb <;> cases hr
    subst hb
    exact fun h => (Option.some.inj h).symm

lemma step_delete {keys : List Key} {txn : TxnEnv} (h : s.step (.delete keys txn) = some s') :
    s' = { s with db := (Disk.delete s.db txn keys).1 } :=
  (Option.some.inj h).symm

lemma step_gcStart (h : s.step .gcStart = some s') :
    s.gcTask = .idle ∧ (s.cancelled = true ∧ s' = s ∨
      s.cancelled = false ∧ s' = { s with gcTask := .purging s.snapshot 0 0 [] }) := by
  simp only [step] at h
  split at h
  · rename_i hg
    refine ⟨hg, ?_⟩
    cases hc : s.cancelled
    · simp only [hc] at h
      exact .inr ⟨rfl, (Option.some.inj h).symm⟩
    · simp only [hc] at h
      exact .inl ⟨rfl, (Option.some.inj h).symm⟩
  · cases h

lemma step_purgeNext {seen now : Int} {txn : TxnEnv}
    (h : s.step (.purgeNext seen now txn) = some s') :
    ∃ k e rest deleted total written,
      s.gcTask = .purging ((k, e) :: rest) deleted total written ∧
      s' = { s with
        db := (purgeItem s.db k e seen now txn deleted total).1
        gcTask := .purging rest (purgeItem s.db k e seen now txn deleted total).2.1
          (purgeItem s.db k e seen now txn deleted total).2.2 written } := by
  simp only [step] at h
  split at h
  · exact ⟨_, _, _, _, _, _, ‹_›, (Option.some.inj h).symm⟩
  · cases h

lemma step_gcEnd (h : s.step .gcEnd = some s') :
    ∃ deleted total written, s.gcTask = .purging [] deleted total written ∧
      s' = { s with gcTask := .idle, gauges := s.gauges ++ [(deleted, total)] } := by
  simp only [step] at h
  split at h
  · exact ⟨_, _, _, ‹_›, (Option.some.inj h).symm⟩
  · cases h

lemma step_close (h : s.step .close = some s') : s' = s.close :=
  (Option.some.inj h).symm

end Steps

section Safety

variable {s s' : Storage}

def SnapshotCurrent (s : Storage) : Prop :=
  ∀ k e, (k, e) ∈ s.gcTask.rest → k ∉ s.gcTask.written → s.expiresAt k = e

lemma SnapshotCurrent.step (h : SnapshotCurrent s) {l : Label} (hs : s.step l = some s') :
    SnapshotCurrent s' := by
  cases l with
  | append k v ttl now ok =>
    rcases step_append hs with ⟨db, -, rfl⟩ | rfl
    · intro k' e he hw
      simp only [Gc.rest_write] at he
      have hk : k' ≠ k := by
        rintro rfl
        exact hw (Gc.mem_written_write_self k' (List.ne_nil_of_mem he))
      show Function.update s.expiresAt k _ k' = e
      rw [Function.update_noteq hk]
      exact h k' e he fun hw' => hw (Gc.mem_written_write k _ hw')
    · exact h
  | delete keys txn => rw [step_delete hs]; exact h
  | gcStart =>
    obtain ⟨-, ⟨-, rfl⟩ | ⟨-, rfl⟩⟩ := step_gcStart hs
    · exact h
    · intro k e he _
      obtain ⟨x, -, hx⟩ := List.mem_map.mp he
      cases hx
      rfl
  | purgeNext seen now txn =>
    obtain ⟨k, e, rest, deleted, total, written, hg, rfl⟩ := step_purgeNext hs
    intro k' e' he hw
    exact h k' e' (by rw [hg]; exact .tail _ he) (by rwa [hg])
  | gcEnd =>
    obtain ⟨-, -, -, -, rfl⟩ := step_gcEnd hs
    intro k e he
    cases he
  | close => rw [step_close hs]; exact h

lemma Reach.snapshotCurrent (h : Reach s) : SnapshotCurrent s := by
  induction h with
  | opened => intro k e he; cases he
  | step _ hs ih => exact ih.step hs

lemma mem_visible_of {s s' : Storage} {t : Int} {x : Key × Bytes} (hx : x ∈ (s.visible t).entries)
    (hdb : x ∈ s'.db.entries) (he : s'.expiresAt x.1 = s.expiresAt x.1) :
    x ∈ (s'.visible t).entries :=
  mem_visible.mpr ⟨hdb, he ▸ (mem_visible.mp hx).2⟩

lemma SnapshotCurrent.entry_leaves_step (h : SnapshotCurrent s) {l : Label} (hs : s.step l = some s')
    (t : Int) {x : Key × Bytes} (hx : x ∈ (s.visible t).entries) (hx' : x ∉ (s'.visible t).entries) :
    (∃ keys txn, l = .delete keys txn ∧ x.1 ∈ keys) ∨
      (∃ v ttl now ok, l = .append x.1 v ttl now ok) ∨
      ∃ seen now txn, l = .purgeNext seen now txn ∧
        (expired (s.expiresAt x.1) seen = false ∧ s.expiresAt x.1 ≤ unix64 now ∨
          x.1 ∈ s.gcTask.written) := by
  have hdb := (mem_visible.mp hx).1
  cases l with
  | append k v ttl now ok =>
    by_cases hk : k = x.1
    · exact .inr (.inl ⟨v, ttl, now, ok, by rw [hk]⟩)
    rcases step_append hs with ⟨db, hdb', rfl⟩ | rfl
    · exact (hx' (mem_visible_of hx (hdb' ▸ mem_put_of_ne v hdb (Ne.symm hk))
        (Function.update_noteq (Ne.symm hk) _ _))).elim
    · exact (hx' hx).elim
  | delete keys txn =>
    obtain ⟨gone, hgone, he⟩ := delete_entries s.db txn keys
    rw [step_delete hs] at hx'
    refine .inl ⟨keys, txn, rfl, hgone _ (key_mem_of_not_mem_erase hdb ?_)⟩
    exact fun hm => hx' (mem_visible_of hx (by rw [← he] at hm; exact hm) rfl)
  | gcStart =>
    obtain ⟨-, ⟨-, rfl⟩ | ⟨-, rfl⟩⟩ := step_gcStart hs <;> exact absurd hx hx'
  | purgeNext seen now txn =>
    obtain ⟨k, e, rest, deleted, total, written, hg, rfl⟩ := step_purgeNext hs
    obtain ⟨hent, -, -⟩ := purgeItem_eq s.db k e seen now txn deleted total
    refine .inr (.inr ⟨seen, now, txn, rfl, ?_⟩)
    have hgone : x ∉ (purgeItem s.db k e seen now txn deleted total).1.entries :=
      fun hm => hx' (mem_visible_of hx hm rfl)
    rw [hent] at hgone
    split at hgone
    · rename_i hdel
      have hk : x.1 = k := by simpa using key_mem_of_not_mem_erase hdb hgone
      simp only [Bool.and_eq_true, Bool.not_eq_true', decide_eq_true_eq] at hdel
      rw [hg, hk]
      by_cases hw : k ∈ written
      · exact .inr hw
      · have hE := h k e (by rw [hg]; exact .head _) (by rwa [hg])
        exact .inl ⟨hE ▸ hdel.1.1.1, hE ▸ hdel.1.1.2⟩
    · exact absurd hdb hgone
  | gcEnd =>
    obtain ⟨_, _, _, -, rfl⟩ := step_gcEnd hs
    exact absurd hx hx'
  | close =>
    rw [step_close hs] at hx'
    exact (hx' hx).elim

theorem Reach.entry_leaves (h : Reach s) {l : Label} (hs : s.step l = some s') (t : Int)
    {x : Key × Bytes} (hx : x ∈ (s.visible t).entries) (hx' : x ∉ (s'.visible t).entries) :
    (∃ keys txn, l = .delete keys txn ∧ x.1 ∈ keys) ∨
      (∃ v ttl now ok, l = .append x.1 v ttl now ok) ∨
      ∃ seen now txn, l = .purgeNext seen now txn ∧
        (expired (s.expiresAt x.1) seen = false ∧ s.expiresAt x.1 ≤ unix64 now ∨
          x.1 ∈ s.gcTask.written) :=
  h.snapshotCurrent.entry_leaves_step hs t hx hx'

def commitAll : TxnEnv := ⟨fun _ => .ok, fun _ => true⟩

def expiringStore : Storage :=
  ⟨⟨[([1], [7]), ([2], [8])], by decide, false⟩, fun k => if k = [1] then 5 else 10, .idle, false, []⟩

theorem expired_entry_leaves_at_gc :
    ∃ s s', Reach s ∧ s.step (.purgeNext 9000000000 10000000000 commitAll) = some s' ∧
      ([2], [8]) ∈ (s.visible 9000000000).entries ∧
      ([2], [8]) ∉ (s'.visible 9000000000).entries ∧
      ((∃ keys txn, Label.purgeNext 9000000000 10000000000 commitAll = .delete keys txn ∧
          [2] ∈ keys) ∨
        (∃ v ttl now ok, Label.purgeNext 9000000000 10000000000 commitAll = .append [2] v ttl now ok) ∨
        ∃ seen now txn, Label.purgeNext 9000000000 10000000000 commitAll = .purgeNext seen now txn ∧
          (expired (s.expiresAt [2]) seen = false ∧ s.expiresAt [2] ≤ unix64 now ∨
            [2] ∈ s.gcTask.written)) := by
  have hr : Reach _ := Reach.step (Reach.step (.opened expiringStore.db expiringStore.expiresAt)
    (l := .gcStart) rfl) (l := .purgeNext 6000000000 6000000000 commitAll) rfl
  refine ⟨_, _, hr, rfl, by decide, by decide, ?_⟩
  exact Reach.entry_leaves hr (l := .purgeNext 9000000000 10000000000 commitAll) rfl 9000000000
    (x := ([2], [8])) (by decide) (by decide)

end Safety

section Alone

variable (seen now : Nat → Int) (txns : Nat → TxnEnv)

lemma purgeLoop_eq (exp : Key → Nat) : ∀ (post kept : List (Key × Bytes)) (db : Store)
    (i deleted total : Nat), db.entries = kept ++ post →
    (purgeLoop seen now txns (post.map fun x => (x.1, exp x.1)) db i deleted total).1.entries =
        kept ++ ((post.enumFrom i).filter fun p => !purged exp db.closed seen now txns p).map
          Prod.snd ∧
      (purgeLoop seen now txns (post.map fun x => (x.1, exp x.1)) db i deleted total).1.closed =
        db.closed ∧
      (purgeLoop seen now txns (post.map fun x => (x.1, exp x.1)) db i deleted total).2 =
        (deleted + (post.enumFrom i).countP (purged exp db.closed seen now txns),
          total + (post.enumFrom i).countP (yielded exp seen))
  | [], kept, db, i, deleted, total, h => by simp [purgeLoop, h]
  | (k, v) :: post, kept, db, i, deleted, total, h => by
    obtain ⟨hent, hcl, hcnt⟩ := purgeItem_eq db k (exp k) (seen i) (now i) (txns i) deleted total
    have hy : yielded exp seen (i, (k, v)) = !expired (exp k) (seen i) := rfl
    simp only [List.map_cons, purgeLoop, List.enumFrom_cons, List.filter_cons, List.countP_cons]
    generalize purgeItem db k (exp k) (seen i) (now i) (txns i) deleted total = r at hent hcl hcnt
    obtain ⟨db', deleted', total'⟩ := r
    dsimp only at hent hcl
    simp only [Prod.mk.injEq] at hcnt
    obtain ⟨rfl, rfl⟩ := hcnt
    have htot : ∀ n, (if expired (exp k) (seen i) = true then total else total + 1) + n =
        total + (n + if yielded exp seen (i, (k, v)) = true then 1 else 0) := by
      intro n; rw [hy]; cases expired (exp k) (seen i) <;> simp; omega
    by_cases hp : purged exp db.closed seen now txns (i, (k, v)) = true
    · have hp' : (!expired (exp k) (seen i) && decide (exp k ≤ unix64 (now i)) && !db.closed &&
          (txns i).deletesOne) = true := hp
      rw [hp', if_pos rfl, h, erase_sorted (h ▸ db.sorted)] at hent
      obtain ⟨h1, h2, h3⟩ := purgeLoop_eq exp post kept db' (i + 1) (deleted + 1)
        (if expired (exp k) (seen i) = true then total else total + 1) hent
      simp only [hcl] at h1 h2 h3
      simp only [h1, h2, h3, hp, hp', if_true, Bool.not_true, Bool.false_eq_true, if_false,
        Prod.mk.injEq, htot, true_and, and_true]
      omega
    · have hp' : (!expired (exp k) (seen i) && decide (exp k ≤ unix64 (now i)) && !db.closed &&
          (txns i).deletesOne) = false := Bool.eq_false_iff.mpr hp
      rw [hp', if_neg Bool.false_ne_true, h, ← List.singleton_append, ← List.append_assoc] at hent
      obtain ⟨h1, h2, h3⟩ := purgeLoop_eq exp post (kept ++ [(k, v)]) db' (i + 1) deleted
        (if expired (exp k) (seen i) = true then total else total + 1) hent
      simp only [hcl] at h1 h2 h3
      simp only [h1, h2, h3, hp, hp', Bool.not_false, if_true, Bool.false_eq_true, if_false,
        List.map_cons, List.append_assoc, List.singleton_append, Prod.mk.injEq, htot, true_and, and_true]
      omega

lemma run_purgeNexts (ls : List Label) : ∀ (items : List (Key × Nat)) (s : Storage)
    (i deleted total : Nat) (written : List Key),
    s.gcTask = .purging items deleted total written →
    s.run (((List.range' i items.length).map fun j => .purgeNext (seen j) (now j) (txns j)) ++ ls) =
      { s with
        db := (purgeLoop seen now txns items s.db i deleted total).1
        gcTask := .purging [] (purgeLoop seen now txns items s.db i deleted total).2.1
          (purgeLoop seen now txns items s.db i deleted total).2.2 written }.run ls
  | [], s, i, deleted, total, written, h => by
    simp only [List.length_nil, List.range'_zero, List.map_nil, List.nil_append, purgeLoop]
    rw [← h]
  | (k, e) :: items, s, i, deleted, total, written, h => by
    rw [List.length_cons, List.range'_succ, List.map_cons, List.cons_append, run]
    simp only [step, h, Option.some_bind]
    rw [run_purgeNexts ls items _ (i + 1) _ _ written rfl]
    rfl

def gcRun (n : Nat) : List Label :=
  .gcStart :: ((List.range n).map fun i => .purgeNext (seen i) (now i) (txns i)) ++ [.gcEnd]

theorem gc_run_alone (s : Storage) (hidle : s.gcTask = .idle) (hc : s.cancelled = false) :
    s.run (gcRun seen now txns s.db.entries.length) = some (s.gc seen now txns) ∧
      (s.gc seen now txns).db.entries =
        (s.db.entries.enum.filter fun p => !purged s.expiresAt s.db.closed seen now txns p).map
          Prod.snd ∧
      (s.gc seen now txns).gauges = s.gauges ++
        [(s.db.entries.enum.countP (purged s.expiresAt s.db.closed seen now txns),
          s.db.entries.enum.countP (yielded s.expiresAt seen))] := by
  obtain ⟨h1, -, h3⟩ := purgeLoop_eq seen now txns s.expiresAt s.db.entries [] s.db 0 0 0 rfl
  refine ⟨?_, by simpa [gc, hc, purge, snapshot, List.enum] using h1,
    by simp [gc, hc, purge, snapshot, h3, List.enum]⟩
  have hlen : s.db.entries.length = s.snapshot.length := by simp [snapshot]
  rw [gcRun, List.cons_append, run]
  simp only [step, hidle, hc, Bool.false_eq_true, if_false, Option.some_bind]
  rw [List.range_eq_range', hlen, run_purgeNexts seen now txns _ _ _ _ _ _ [] rfl]
  simp only [run, step, Option.some_bind, gc, hc, Bool.false_eq_true, if_false, purge, hidle]

theorem expiringStore_gc_run :
    expiringStore.gcTask = .idle ∧ expiringStore.cancelled = false ∧
      (expiringStore.run (gcRun (fun _ => 6000000000) (fun _ => 6000000000) (fun _ => commitAll)
          expiringStore.db.entries.length) =
          some (expiringStore.gc (fun _ => 6000000000) (fun _ => 6000000000) (fun _ => commitAll)) ∧
        (expiringStore.gc (fun _ => 6000000000) (fun _ => 6000000000) (fun _ => commitAll)).db.entries =
          (expiringStore.db.entries.enum.filter fun p =>
            !purged expiringStore.expiresAt expiringStore.db.closed (fun _ => 6000000000)
              (fun _ => 6000000000) (fun _ => commitAll) p).map Prod.snd ∧
        (expiringStore.gc (fun _ => 6000000000) (fun _ => 6000000000) (fun _ => commitAll)).gauges =
          expiringStore.gauges ++
            [(expiringStore.db.entries.enum.countP (purged expiringStore.expiresAt
              expiringStore.db.closed (fun _ => 6000000000) (fun _ => 6000000000) (fun _ => commitAll)),
              expiringStore.db.entries.enum.countP
                (yielded expiringStore.expiresAt (fun _ => 6000000000)))]) :=
  ⟨rfl, rfl, gc_run_alone _ _ _ expiringStore rfl rfl⟩

example : ((expiringStore.gc (fun _ => 6000000000) (fun _ => 6000000000) (fun _ => commitAll)).db.entries,
    (expiringStore.gc (fun _ => 6000000000) (fun _ => 6000000000) (fun _ => commitAll)).gauges) =
    ([([1], [7]), ([2], [8])], [(0, 1)]) := by
  decide

end Alone

section Ttl

variable {s s' : Storage} {k : Key} {v : Bytes} {E : Nat}

def Label.spares (k : Key) : Label → Prop
  | .append k' .. => k' ≠ k
  | .delete keys _ => k ∉ keys
  | _ => True

structure Holds (k : Key) (v : Bytes) (E : Nat) (s : Storage) : Prop where
  mem : (k, v) ∈ s.db.entries
  expires : s.expiresAt k = E
  pending : ∀ e, (k, e) ∈ s.gcTask.rest → e = E

lemma Holds.step (h : Holds k v E s) {l : Label} (hl : l.spares k)
    (hc : ∀ seen now txn, l = .purgeNext seen now txn → unix64 now < E) (hs : s.step l = some s') :
    Holds k v E s' := by
  cases l with
  | append k' v' ttl now ok =>
    rcases step_append hs with ⟨db, hdb, rfl⟩ | rfl
    · refine ⟨show (k, v) ∈ db.entries from hdb ▸ mem_put_of_ne v' h.mem (Ne.symm hl), ?_,
        fun e he => h.pending e (by simpa using he)⟩
      show Function.update s.expiresAt k' _ k = E
      rw [Function.update_noteq (Ne.symm hl), h.expires]
    · exact h
  | delete keys txn =>
    rw [step_delete hs]
    obtain ⟨gone, hgone, he⟩ := delete_entries s.db txn keys
    refine ⟨?_, h.expires, h.pending⟩
    show (k, v) ∈ (Disk.delete s.db txn keys).1.entries
    rw [he]
    exact mem_erase.mpr ⟨h.mem, fun hg => hl (hgone _ hg)⟩
  | gcStart =>
    obtain ⟨-, ⟨-, rfl⟩ | ⟨-, rfl⟩⟩ := step_gcStart hs
    · exact h
    · refine ⟨h.mem, h.expires, fun e he => ?_⟩
      obtain ⟨x, -, hx⟩ := List.mem_map.mp he
      simp only [Prod.mk.injEq] at hx
      rw [← hx.2, hx.1, h.expires]
  | purgeNext seen now txn =>
    obtain ⟨k', e, rest, deleted, total, written, hg, rfl⟩ := step_purgeNext hs
    obtain ⟨hent, -, -⟩ := purgeItem_eq s.db k' e seen now txn deleted total
    refine ⟨?_, h.expires, fun e' he' => h.pending e' (by rw [hg]; exact .tail _ he')⟩
    show (k, v) ∈ (purgeItem s.db k' e seen now txn deleted total).1.entries
    rw [hent]
    split
    · rename_i hgone
      refine mem_erase.mpr ⟨h.mem, fun hk => ?_⟩
      obtain rfl : k = k' := List.mem_singleton.mp hk
      have he : e = E := h.pending e (by rw [hg]; exact .head _)
      simp only [Bool.and_eq_true, decide_eq_true_eq] at hgone
      exact absurd (he ▸ hgone.1.1.2) (Nat.not_le.mpr (hc seen now txn rfl))
    · exact h.mem
  | gcEnd =>
    obtain ⟨_, _, _, -, rfl⟩ := step_gcEnd hs
    exact ⟨h.mem, h.expires, fun e he => by cases he⟩
  | close =>
    rw [step_close hs]
    exact ⟨h.mem, h.expires, h.pending⟩

lemma Holds.run : ∀ {s s' : Storage} (ls : List Label), Holds k v E s → (∀ l ∈ ls, l.spares k) →
    (∀ seen now txn, Label.purgeNext seen now txn ∈ ls → unix64 now < E) → s.run ls = some s' →
    Holds k v E s'
  | _, _, [], h, _, _, hr => Option.some.inj hr ▸ h
  | s, _, l :: ls, h, hl, hc, hr => by
    simp only [Storage.run] at hr
    cases hs : s.step l with
    | none => simp [hs] at hr
    | some s₁ =>
      exact Holds.run ls (h.step (hl l (.head _))
          (fun seen now txn he => hc seen now txn (he ▸ .head _)) hs)
        (fun l' hl' => hl l' (.tail _ hl')) (fun seen now txn h' => hc seen now txn (.tail _ h'))
        (by simpa [hs] using hr)

theorem append_outlives_ttl (ttl a : Int) (ls : List Label) (hopen : s.db.closed = false)
    (hpending : ∀ e, (k, e) ∉ s.gcTask.rest) (hls : ∀ l ∈ ls, l.spares k)
    (hclock : ∀ seen now txn, Label.purgeNext seen now txn ∈ ls →
      0 ≤ now ∧ now + 1000000000 ≤ a + ttl)
    (hlow : 1000000000 ≤ a + ttl) (hrange : a + ttl < 9223372036854775808)
    (hrun : s.run (.append k v ttl a true :: ls) = some s') (t : Int) :
    (k, v) ∈ (s'.visible t).entries ↔ unix64 t < unix64 (a + ttl) := by
  simp only [run] at hrun
  have hs : s.step (.append k v ttl a true) = some { s with
      db := ⟨put k v s.db.entries, sorted_put k v s.db.sorted, false⟩
      expiresAt := Function.update s.expiresAt k (unix64 (a + ttl))
      gcTask := s.gcTask.write k } := by
    simp [step, Storage.append, Disk.append, hopen]
  rw [hs, Option.some_bind] at hrun
  have h := Holds.run ls ⟨mem_put_self k v _, Function.update_same _ _ _,
    fun e he => absurd (by simpa using he) (hpending e)⟩ hls
    (fun seen now txn hm => unix64_lt (hclock seen now txn hm).1 (hclock seen now txn hm).2 hrange)
    hrun
  have hE : unix64 (a + ttl) ≠ 0 := by unfold unix64; omega
  simp [mem_visible, h.mem, h.expires, expired, hE]

theorem appended_entry_survives_gc :
    ∃ s', expiringStore.run (.append [3] [9] 10000000000 0 true ::
        gcRun (fun _ => 5000000000) (fun _ => 5000000000) (fun _ => commitAll) 3) = some s' ∧
      (([3], [9]) ∈ (s'.visible 9000000000).entries ↔ unix64 9000000000 < unix64 (0 + 10000000000)) :=
  ⟨_, rfl, append_outlives_ttl (s := expiringStore) (k := [3]) (v := [9]) 10000000000 0
    (gcRun (fun _ => 5000000000) (fun _ => 5000000000) (fun _ => commitAll) 3) rfl
    (fun _ h => by cases h) (by simp [gcRun, Label.spares])
    (by simp only [gcRun]; intro _ now _ h; simp at h; omega) (by decide) (by decide) rfl
    9000000000⟩

-- Without `hpending` the entry can go early: re-appended while the GC run holds the old item of
-- `[1]`, which it parsed at second 4, the new entry, which expires at second 106, is deleted by
-- the check at second 6.
example : (expiringStore.run [.gcStart, .append [1] [0] 100000000000 6000000000 true,
    .purgeNext 4000000000 6000000000 commitAll]).map (fun s => (s.db.entries, s.expiresAt [1])) =
    some ([([2], [8])], 106) := by
  decide

end Ttl

section Close

variable {s s' : Storage}

lemma purgeItem_of_closed {db : Store} (hc : db.closed = true) (k : Key) (e : Nat) (seen now : Int)
    (txn : TxnEnv) (deleted total : Nat) : (purgeItem db k e seen now txn deleted total).1 = db := by
  unfold purgeItem
  split
  · rfl
  · split
    · rw [delete_of_closed hc]
    · rfl

lemma step_of_closed (hc : s.db.closed = true) (hcan : s.cancelled = true) {l : Label}
    (hs : s.step l = some s') :
    s'.db = s.db ∧ s'.cancelled = true ∧
      ∃ extra, s'.gauges = s.gauges ++ extra ∧ extra.length + s'.gcTask.inFlight ≤ s.gcTask.inFlight := by
  cases l with
  | append k v ttl now ok =>
    have : s' = s := by simpa [step, Storage.append, Disk.append, hc] using hs.symm
    subst this
    exact ⟨rfl, hcan, [], by simp⟩
  | delete keys txn =>
    rw [step_delete hs, delete_of_closed hc]
    exact ⟨rfl, hcan, [], by simp⟩
  | gcStart =>
    obtain ⟨-, ⟨-, rfl⟩ | ⟨hf, -⟩⟩ := step_gcStart hs
    · exact ⟨rfl, hcan, [], by simp⟩
    · rw [hcan] at hf; cases hf
  | purgeNext seen now txn =>
    obtain ⟨k, e, rest, deleted, total, written, hg, rfl⟩ := step_purgeNext hs
    exact ⟨purgeItem_of_closed hc .., hcan, [], by simp [hg, Gc.inFlight]⟩
  | gcEnd =>
    obtain ⟨deleted, total, _, hg, rfl⟩ := step_gcEnd hs
    exact ⟨rfl, hcan, [(deleted, total)], rfl, by simp [hg, Gc.inFlight]⟩
  | close =>
    rw [step_close hs]
    obtain ⟨⟨_, _, _⟩, _, _, _, _⟩ := s
    exact ⟨by simp_all [Storage.close], rfl, [], by simp [Storage.close]⟩

example : (expiringStore.run [.gcStart, .close, .purgeNext 0 10000000000 commitAll,
    .purgeNext 0 10000000000 commitAll, .gcEnd]).map (fun s => (s.db.entries, s.gauges)) =
    some ([([1], [7]), ([2], [8])], [(0, 2)]) := by
  decide

end Close

end Storage

end Talaria.Disk
