import Talaria.Compact.Tick
import Talaria.Disk.Storage
import Mathlib.Algebra.Order.Ring.Nat

/-! The compactor of compact.go as a whole: `Append` callers, the ticker goroutine of
`async.Repeat` running `Compact`, the `NumCPU` merge workers of `async.Consume`, the buffer's own
GC task and `Close`, interleaved one atomic step at a time over the buffer, the sink and the task
channel. -/

namespace Talaria.Compact

open Disk

structure Config where
  hashOf : Key → UInt32
  fromBuffer : Bytes → Option Block
  first : Key
  last : Key
  numCPU : Nat
  orc : Flush.Orc
  fileNameFunc : NameMap (Option Value) → Except String String

inductive Stage
  | queued
  | running
  | merged (key : List UInt8) (value : Option Flush.OrcFile)
  | appended
  | done (err : Option String)
  deriving DecidableEq, Repr

def Stage.busy : Stage → Bool
  | .running | .merged _ _ | .appended => true
  | _ => false

inductive Ticker
  | idle
  | sending (rest : List Task) (parsed base : Nat)
  | waiting (id : Nat)

inductive Closer
  | live
  | cancelled
  | bufferClosed
  | sinkClosed
  deriving DecidableEq, Repr

structure Sink where
  accepted : List (List UInt8 × Option Flush.OrcFile)
  closed : Bool

structure Sys where
  store : Storage
  sink : Sink
  tasks : List (Task × Stage)
  ticker : Ticker
  closer : Closer
  log : List (Key × Bytes)

def Sys.buffer (s : Sys) : Store := s.store.db

def Sys.init : Sys := ⟨⟨⟨[], .nil, false⟩, fun _ => 0, .idle, false, []⟩, ⟨[], false⟩, [], .idle, .live, []⟩

inductive Label
  | append (k : Key) (v : Bytes) (ttl now : Int) (updateOk : Bool)
  | tick (now : Int) (copyOk : Key → Bool)
  | parse
  | send
  | tickReturn
  | take
  | merge (id : Nat)
  | appendSink (id : Nat) (err : Option String)
  | delete (id : Nat) (txn : TxnEnv)
  | gcStart
  | purgeNext (seen now : Int) (txn : TxnEnv)
  | gcEnd
  | cancel
  | closeBuffer
  | closeSink

def queued (s : Sys) : Nat := s.tasks.countP fun p => p.2 = .queued

def busy (s : Sys) : Nat := s.tasks.countP fun p => p.2.busy

def mergeStage (C : Config) (t : Task) : Stage :=
  match Flush.merge C.orc C.fileNameFunc t.blocks t.schema with
  | .error e => .done (some e)
  | .ok (key, value) => .merged key value

def deleteStage (r : Except String Unit) : Stage :=
  match r with
  | .ok _ => .done none
  | .error e => .done (some e)

def Sys.parsedFor (s : Sys) (i : Nat) (t : Task) : Nat :=
  match s.ticker with
  | .sending _ n base => if base ≤ i then n else t.parsed.length
  | _ => t.parsed.length

variable (C : Config)

/-- Modelled from the spec: `Close`, whose `Cancel` stops the timer and drains the in-flight
tick, so the buffer is closed only once the ticker is idle. -/
def step (s : Sys) : Label → Option Sys
  | .append k v ttl now updateOk =>
    (s.store.step (.append k v ttl now updateOk)).map fun store => { s with
      store
      log := match (Disk.append s.buffer k v updateOk).2 with
        | .ok _ => s.log ++ [(k, v)]
        | .error _ => s.log }
  | .tick now copyOk =>
    match s.ticker, s.closer with
    | .idle, .live =>
      match compact C.hashOf C.fromBuffer C.first C.last copyOk (s.store.visible now) with
      | .error _ => some s
      | .ok tasks => some { s with ticker := .sending tasks 0 s.tasks.length }
    | _, _ => none
  | .parse =>
    match s.ticker with
    | .sending (t :: rest) n base =>
      if n < t.sentAt then some { s with ticker := .sending (t :: rest) (n + 1) base } else none
    | _ => none
  | .send =>
    match s.ticker with
    | .sending (t :: rest) _ base =>
      if queued s < C.numCPU then
        some { s with
          tasks := s.tasks ++ [(t, .queued)]
          ticker := match rest with
            | [] => .waiting s.tasks.length
            | _ => .sending rest t.sentAt base }
      else none
    | _ => none
  | .tickReturn =>
    match s.ticker with
    | .waiting id =>
      match s.tasks[id]? with
      | some (_, .done _) => some { s with ticker := .idle }
      | _ => none
    | _ => none
  | .take =>
    if busy s < C.numCPU then
      match s.tasks.findIdx? fun p => p.2 = .queued with
      | some i =>
        match s.tasks[i]? with
        | some (t, _) => some { s with tasks := s.tasks.set i (t, .running) }
        | none => none
      | none => none
    else none
  | .merge i =>
    match s.tasks[i]? with
    | some (t, .running) => some { s with tasks := s.tasks.set i (t, mergeStage C t) }
    | _ => none
  | .appendSink i err =>
    match s.tasks[i]?, err with
    | some (t, .merged key value), none =>
      some { s with
        sink := { s.sink with accepted := s.sink.accepted ++ [(key, value)] }
        tasks := s.tasks.set i (t, .appended) }
    | some (t, .merged _ _), some e => some { s with tasks := s.tasks.set i (t, .done (some e)) }
    | _, _ => none
  | .delete i txn =>
    match s.tasks[i]? with
    | some (t, .appended) =>
      some { s with
        store := (s.store.delete txn (t.heldAt (s.parsedFor i t))).1
        tasks := s.tasks.set i (t, deleteStage (s.store.delete txn (t.heldAt (s.parsedFor i t))).2) }
    | _ => none
  | .gcStart => (s.store.step .gcStart).map fun store => { s with store }
  | .purgeNext seen now txn => (s.store.step (.purgeNext seen now txn)).map fun store => { s with store }
  | .gcEnd => (s.store.step .gcEnd).map fun store => { s with store }
  | .cancel =>
    match s.closer with
    | .live => some { s with closer := .cancelled }
    | _ => none
  | .closeBuffer =>
    match s.closer, s.ticker with
    | .cancelled, .idle => some { s with store := s.store.close, closer := .bufferClosed }
    | _, _ => none
  | .closeSink =>
    match s.closer with
    | .bufferClosed => some { s with sink := { s.sink with closed := true }, closer := .sinkClosed }
    | _ => none

def run (s : Sys) : List Label → Option Sys
  | [] => some s
  | l :: ls => (step C s l).bind fun s' => run s' ls

inductive Reach (allowed : Sys → Label → Prop) : Sys → Prop
  | init : Reach allowed Sys.init
  | step {s s' : Sys} {l : Label} :
    Reach allowed s → allowed s l → step C s l = some s' → Reach allowed s'

section Steps

variable {C} {s s' : Sys}

/-! What each step can do, guards included; the invariants below are derived from these
alone. -/

lemma step_append {k : Key} {v : Bytes} {ttl now : Int} {ok : Bool}
    (h : step C s (.append k v ttl now ok) = some s') :
    ∃ store, s.store.step (.append k v ttl now ok) = some store ∧ s' = { s with
      store
      log := match (Disk.append s.buffer k v ok).2 with
        | .ok _ => s.log ++ [(k, v)]
        | .error _ => s.log } := by
  simp only [step] at h
  obtain ⟨store, hs, rfl⟩ := Option.map_eq_some'.mp h
  exact ⟨store, hs, rfl⟩

lemma step_tick {now : Int} {copyOk : Key → Bool} (h : step C s (.tick now copyOk) = some s') :
    s.ticker = .idle ∧ s.closer = .live ∧ (s' = s ∨ ∃ tasks,
      compact C.hashOf C.fromBuffer C.first C.last copyOk (s.store.visible now) = .ok tasks ∧
        s' = { s with ticker := .sending tasks 0 s.tasks.length }) := by
  simp only [step] at h
  split at h
  · rename_i hi hl
    refine ⟨hi, hl, ?_⟩
    split at h
    · exact .inl (Option.some.inj h).symm
    · exact .inr ⟨_, ‹_›, (Option.some.inj h).symm⟩
  · cases h

lemma step_parse (h : step C s .parse = some s') :
    ∃ t rest n base, s.ticker = .sending (t :: rest) n base ∧ n < t.sentAt ∧
      s' = { s with ticker := .sending (t :: rest) (n + 1) base } := by
  simp only [step] at h
  split at h
  · split at h
    · exact ⟨_, _, _, _, ‹_›, ‹_›, (Option.some.inj h).symm⟩
    · cases h
  · cases h

lemma step_send (h : step C s .send = some s') :
    ∃ t rest n base, s.ticker = .sending (t :: rest) n base ∧ queued s < C.numCPU ∧
      s' = { s with
        tasks := s.tasks ++ [(t, .queued)]
        ticker := match rest with
          | [] => .waiting s.tasks.length
          | _ => .sending rest t.sentAt base } := by
  simp only [step] at h
  split at h
  · split at h
    · exact ⟨_, _, _, _, ‹_›, ‹_›, (Option.some.inj h).symm⟩
    · cases h
  · cases h

lemma step_tickReturn (h : step C s .tickReturn = some s') :
    ∃ id t e, s.ticker = .waiting id ∧ s.tasks[id]? = some (t, .done e) ∧
      s' = { s with ticker := .idle } := by
  simp only [step] at h
  split at h
  · split at h
    · exact ⟨_, _, _, ‹_›, ‹_›, (Option.some.inj h).symm⟩
    · cases h
  · cases h

lemma step_take (h : step C s .take = some s') :
    busy s < C.numCPU ∧ ∃ i t, s.tasks.findIdx? (fun p => p.2 = .queued) = some i ∧
      s.tasks[i]? = some (t, .queued) ∧ s' = { s with tasks := s.tasks.set i (t, .running) } := by
  simp only [step] at h
  split at h
  · refine ⟨‹_›, ?_⟩
    split at h
    · rename_i i hi
      split at h
      · rename_i t st hts
        obtain ⟨hlt, hq, -⟩ := List.findIdx?_eq_some_iff_getElem.mp hi
        have hst : st = .queued := by
          rw [List.getElem?_eq_getElem hlt, Option.some.injEq] at hts
          simpa [hts] using hq
        exact ⟨i, t, hi, hst ▸ hts, (Option.some.inj h).symm⟩
      · cases h
    · cases h
  · cases h

lemma step_merge {i : Nat} (h : step C s (.merge i) = some s') :
    ∃ t, s.tasks[i]? = some (t, .running) ∧
      s' = { s with tasks := s.tasks.set i (t, mergeStage C t) } := by
  simp only [step] at h
  split at h
  · exact ⟨_, ‹_›, (Option.some.inj h).symm⟩
  · cases h

lemma step_appendSink {i : Nat} {err : Option String} (h : step C s (.appendSink i err) = some s') :
    ∃ t key value, s.tasks[i]? = some (t, .merged key value) ∧
      ((err = none ∧ s' = { s with
          sink := { s.sink with accepted := s.sink.accepted ++ [(key, value)] }
          tasks := s.tasks.set i (t, .appended) }) ∨
        ∃ e, err = some e ∧ s' = { s with tasks := s.tasks.set i (t, .done (some e)) }) := by
  simp only [step] at h
  split at h
  · exact ⟨_, _, _, ‹_›, .inl ⟨rfl, (Option.some.inj h).symm⟩⟩
  · exact ⟨_, _, _, ‹_›, .inr ⟨_, rfl, (Option.some.inj h).symm⟩⟩
  · cases h

lemma step_delete {i : Nat} {txn : TxnEnv} (h : step C s (.delete i txn) = some s') :
    ∃ t, s.tasks[i]? = some (t, .appended) ∧ s' = { s with
      store := (s.store.delete txn (t.heldAt (s.parsedFor i t))).1
      tasks := s.tasks.set i (t, deleteStage (s.store.delete txn (t.heldAt (s.parsedFor i t))).2) } := by
  simp only [step] at h
  split at h
  · exact ⟨_, ‹_›, (Option.some.inj h).symm⟩
  · cases h

lemma step_gc {l : Label} {l' : Storage.Label} (hl : l = .gcStart ∧ l' = .gcStart ∨
      (∃ seen now txn, l = .purgeNext seen now txn ∧ l' = .purgeNext seen now txn) ∨
      l = .gcEnd ∧ l' = .gcEnd) (h : step C s l = some s') :
    s.store.step l' = some s'.store ∧ s' = { s with store := s'.store } := by
  rcases hl with ⟨rfl, rfl⟩ | ⟨seen, now, txn, rfl, rfl⟩ | ⟨rfl, rfl⟩ <;>
  · simp only [step] at h
    obtain ⟨store, hs, rfl⟩ := Option.map_eq_some'.mp h
    exact ⟨hs, rfl⟩

lemma step_cancel (h : step C s .cancel = some s') :
    s.closer = .live ∧ s' = { s with closer := .cancelled } := by
  simp only [step] at h
  split at h
  · exact ⟨‹_›, (Option.some.inj h).symm⟩
  · cases h

lemma step_closeBuffer (h : step C s .closeBuffer = some s') :
    s.closer = .cancelled ∧ s.ticker = .idle ∧
      s' = { s with store := s.store.close, closer := .bufferClosed } := by
  simp only [step] at h
  split at h
  · exact ⟨‹_›, ‹_›, (Option.some.inj h).symm⟩
  · cases h

lemma step_closeSink (h : step C s .closeSink = some s') :
    s.closer = .bufferClosed ∧
      s' = { s with sink := { s.sink with closed := true }, closer := .sinkClosed } := by
  simp only [step] at h
  split at h
  · exact ⟨‹_›, (Option.some.inj h).symm⟩
  · cases h

def Label.keepsStore : Label → Prop
  | .append .. | .delete .. | .gcStart | .purgeNext .. | .gcEnd | .closeBuffer => False
  | _ => True

lemma store_step {l : Label} (h : step C s l = some s') :
    (l.keepsStore ∧ s'.store = s.store) ∨ ∃ l', s.store.step l' = some s'.store := by
  cases l with
  | append k v ttl now ok =>
    obtain ⟨store, hs, rfl⟩ := step_append h
    exact .inr ⟨_, hs⟩
  | delete i txn =>
    obtain ⟨t, -, rfl⟩ := step_delete h
    exact .inr ⟨.delete _ txn, rfl⟩
  | gcStart => exact .inr ⟨_, (step_gc (.inl ⟨rfl, rfl⟩) h).1⟩
  | purgeNext seen now txn =>
    exact .inr ⟨_, (step_gc (.inr (.inl ⟨seen, now, txn, rfl, rfl⟩)) h).1⟩
  | gcEnd => exact .inr ⟨_, (step_gc (.inr (.inr ⟨rfl, rfl⟩)) h).1⟩
  | closeBuffer =>
    obtain ⟨-, -, rfl⟩ := step_closeBuffer h
    exact .inr ⟨.close, rfl⟩
  | tick now copyOk => obtain ⟨-, -, rfl | ⟨_, -, rfl⟩⟩ := step_tick h <;> exact .inl ⟨trivial, rfl⟩
  | parse => obtain ⟨_, _, _, _, -, -, rfl⟩ := step_parse h; exact .inl ⟨trivial, rfl⟩
  | send => obtain ⟨_, _, _, _, -, -, rfl⟩ := step_send h; exact .inl ⟨trivial, rfl⟩
  | tickReturn => obtain ⟨_, _, _, -, -, rfl⟩ := step_tickReturn h; exact .inl ⟨trivial, rfl⟩
  | take => obtain ⟨-, _, _, -, -, rfl⟩ := step_take h; exact .inl ⟨trivial, rfl⟩
  | merge i => obtain ⟨_, -, rfl⟩ := step_merge h; exact .inl ⟨trivial, rfl⟩
  | appendSink i err =>
    obtain ⟨_, _, _, -, ⟨-, rfl⟩ | ⟨_, -, rfl⟩⟩ := step_appendSink h <;> exact .inl ⟨trivial, rfl⟩
  | cancel => obtain ⟨-, rfl⟩ := step_cancel h; exact .inl ⟨trivial, rfl⟩
  | closeSink => obtain ⟨-, rfl⟩ := step_closeSink h; exact .inl ⟨trivial, rfl⟩

lemma store_of_keepsStore {l : Label} (h : step C s l = some s') (hl : l.keepsStore) :
    s'.store = s.store := by
  cases l with
  | tick now copyOk => obtain ⟨-, -, rfl | ⟨_, -, rfl⟩⟩ := step_tick h <;> rfl
  | parse => obtain ⟨_, _, _, _, -, -, rfl⟩ := step_parse h; rfl
  | send => obtain ⟨_, _, _, _, -, -, rfl⟩ := step_send h; rfl
  | tickReturn => obtain ⟨_, _, _, -, -, rfl⟩ := step_tickReturn h; rfl
  | take => obtain ⟨-, _, _, -, -, rfl⟩ := step_take h; rfl
  | merge i => obtain ⟨_, -, rfl⟩ := step_merge h; rfl
  | appendSink i err => obtain ⟨_, _, _, -, ⟨-, rfl⟩ | ⟨_, -, rfl⟩⟩ := step_appendSink h <;> rfl
  | cancel => obtain ⟨-, rfl⟩ := step_cancel h; rfl
  | closeSink => obtain ⟨-, rfl⟩ := step_closeSink h; rfl
  | _ => exact hl.elim

def Label.keepsPool : Label → Prop
  | .append .. | .gcStart | .purgeNext .. | .gcEnd | .cancel | .closeBuffer | .closeSink => True
  | _ => False

lemma pool_step {l : Label} (h : step C s l = some s') (hl : l.keepsPool) :
    s'.tasks = s.tasks ∧ s'.ticker = s.ticker ∧ s'.sink.accepted = s.sink.accepted := by
  cases l with
  | append k v ttl now ok => obtain ⟨_, -, rfl⟩ := step_append h; exact ⟨rfl, rfl, rfl⟩
  | gcStart => rw [(step_gc (.inl ⟨rfl, rfl⟩) h).2]; exact ⟨rfl, rfl, rfl⟩
  | purgeNext seen now txn =>
    rw [(step_gc (.inr (.inl ⟨seen, now, txn, rfl, rfl⟩)) h).2]; exact ⟨rfl, rfl, rfl⟩
  | gcEnd => rw [(step_gc (.inr (.inr ⟨rfl, rfl⟩)) h).2]; exact ⟨rfl, rfl, rfl⟩
  | cancel => obtain ⟨-, rfl⟩ := step_cancel h; exact ⟨rfl, rfl, rfl⟩
  | closeBuffer => obtain ⟨-, -, rfl⟩ := step_closeBuffer h; exact ⟨rfl, rfl, rfl⟩
  | closeSink => obtain ⟨-, rfl⟩ := step_closeSink h; exact ⟨rfl, rfl, rfl⟩
  | _ => exact hl.elim

lemma ticker_step {l : Label} (h : step C s l = some s') :
    s'.ticker = s.ticker ∨ (∃ now copyOk, l = .tick now copyOk) ∨ l = .parse ∨ l = .send ∨
      l = .tickReturn := by
  cases l with
  | tick now copyOk => exact .inr (.inl ⟨now, copyOk, rfl⟩)
  | parse => exact .inr (.inr (.inl rfl))
  | send => exact .inr (.inr (.inr (.inl rfl)))
  | tickReturn => exact .inr (.inr (.inr (.inr rfl)))
  | take => obtain ⟨-, _, _, -, -, rfl⟩ := step_take h; exact .inl rfl
  | merge i => obtain ⟨_, -, rfl⟩ := step_merge h; exact .inl rfl
  | appendSink i err =>
    obtain ⟨_, _, _, -, ⟨-, rfl⟩ | ⟨_, -, rfl⟩⟩ := step_appendSink h <;> exact .inl rfl
  | delete i txn => obtain ⟨_, -, rfl⟩ := step_delete h; exact .inl rfl
  | _ => exact .inl (pool_step h trivial).2.1

lemma closer_step {l : Label} (h : step C s l = some s') :
    s'.closer = s.closer ∨ l = .cancel ∨ l = .closeBuffer ∨ l = .closeSink := by
  cases l with
  | cancel => exact .inr (.inl rfl)
  | closeBuffer => exact .inr (.inr (.inl rfl))
  | closeSink => exact .inr (.inr (.inr rfl))
  | append k v ttl now ok => obtain ⟨_, -, rfl⟩ := step_append h; exact .inl rfl
  | tick now copyOk => obtain ⟨-, -, rfl | ⟨_, -, rfl⟩⟩ := step_tick h <;> exact .inl rfl
  | parse => obtain ⟨_, _, _, _, -, -, rfl⟩ := step_parse h; exact .inl rfl
  | send => obtain ⟨_, _, _, _, -, -, rfl⟩ := step_send h; exact .inl rfl
  | tickReturn => obtain ⟨_, _, _, -, -, rfl⟩ := step_tickReturn h; exact .inl rfl
  | take => obtain ⟨-, _, _, -, -, rfl⟩ := step_take h; exact .inl rfl
  | merge i => obtain ⟨_, -, rfl⟩ := step_merge h; exact .inl rfl
  | appendSink i err =>
    obtain ⟨_, _, _, -, ⟨-, rfl⟩ | ⟨_, -, rfl⟩⟩ := step_appendSink h <;> exact .inl rfl
  | delete i txn => obtain ⟨_, -, rfl⟩ := step_delete h; exact .inl rfl
  | gcStart => rw [(step_gc (.inl ⟨rfl, rfl⟩) h).2]; exact .inl rfl
  | purgeNext seen now txn =>
    rw [(step_gc (.inr (.inl ⟨seen, now, txn, rfl, rfl⟩)) h).2]; exact .inl rfl
  | gcEnd => rw [(step_gc (.inr (.inr ⟨rfl, rfl⟩)) h).2]; exact .inl rfl

end Steps

variable {C} in
lemma Reach.store {allowed : Sys → Label → Prop} {s : Sys} (h : Reach C allowed s) :
    Storage.Reach s.store := by
  induction h with
  | init => exact .opened ⟨[], .nil, false⟩ (fun _ => 0)
  | step _ _ hs ih =>
    rcases store_step hs with ⟨-, he⟩ | ⟨l', hl'⟩
    · exact he ▸ ih
    · exact ih.step hl'

structure PoolInv (s : Sys) : Prop where
  queued_le : queued s ≤ C.numCPU
  busy_le : busy s ≤ C.numCPU
  fifo : ∀ i j : Nat, i < j → ∀ p q : Task × Stage, s.tasks[i]? = some p → s.tasks[j]? = some q →
    p.2 = .queued → q.2 = .queued
  waiting : ∀ id, s.ticker = .waiting id → id < s.tasks.length

lemma countP_set_le {α : Type} (p : α → Bool) {l : List α} {i : Nat} (a : α) (h : i < l.length)
    (hp : p l[i] = true) : (l.set i a).countP p ≤ l.countP p := by
  have := List.boole_getElem_le_countP p l i h
  rw [List.countP_set p l i a h]
  simp only [hp, if_true] at this ⊢
  split <;> omega

lemma countP_set_of_false {α : Type} (p : α → Bool) {l : List α} {i : Nat} (a : α)
    (h : i < l.length) (hp : p l[i] = false) :
    (l.set i a).countP p = l.countP p + if p a then 1 else 0 := by
  simp [List.countP_set p l i a h, hp]

section Pool

variable {C} {s s' : Sys}

lemma PoolInv.of_tasks_eq (h : PoolInv C s) (ht : s'.tasks = s.tasks)
    (hw : ∀ id, s'.ticker = .waiting id → s.ticker = .waiting id) : PoolInv C s' where
  queued_le := by rw [queued, ht]; exact h.queued_le
  busy_le := by rw [busy, ht]; exact h.busy_le
  fifo := ht ▸ h.fifo
  waiting id hid := ht ▸ h.waiting id (hw id hid)

lemma PoolInv.of_set {i : Nat} {t : Task} {a b : Stage} (h : PoolInv C s)
    (hi : s.tasks[i]? = some (t, a)) (ha : a.busy = true) (hb : b ≠ .queued)
    (ht : s'.tasks = s.tasks.set i (t, b)) (hw : s'.ticker = s.ticker) : PoolInv C s' := by
  have hlt : i < s.tasks.length := (List.getElem?_eq_some_iff.mp hi).1
  have hget : s.tasks[i] = (t, a) := (List.getElem?_eq_some_iff.mp hi).2
  have ha' : a ≠ .queued := by rintro rfl; cases ha
  refine ⟨?_, ?_, ?_, ?_⟩
  · rw [queued, ht, countP_set_of_false _ _ hlt (by simp [hget, ha'])]
    simpa [hb] using h.queued_le
  · rw [busy, ht]
    exact (countP_set_le _ _ hlt (by simp [hget, ha])).trans h.busy_le
  · intro i' j hij p q hp hq hpq
    rw [ht] at hp hq
    have hi' : i ≠ i' := by
      rintro rfl
      rw [List.getElem?_set_self hlt] at hp
      cases hp
      exact hb hpq
    rw [List.getElem?_set_ne hi'] at hp
    by_cases hj : i = j
    · subst hj
      exact absurd (h.fifo _ _ hij _ _ hp hi hpq) ha'
    · rw [List.getElem?_set_ne hj] at hq
      exact h.fifo _ _ hij _ _ hp hq hpq
  · intro id hid
    rw [ht, List.length_set]
    exact h.waiting id (hw ▸ hid)

lemma PoolInv.send (h : PoolInv C s) (hs : step C s .send = some s') : PoolInv C s' := by
  obtain ⟨t, rest, _, _, -, hq, rfl⟩ := step_send hs
  refine ⟨by simpa [queued, List.countP_append] using hq,
    by simpa [busy, List.countP_append, Stage.busy] using h.busy_le,
    fun i j hij p q hp hq' hpq => ?_, fun id hid => ?_⟩
  · by_cases hj : j < s.tasks.length
    · rw [List.getElem?_append_left (by omega)] at hp
      rw [List.getElem?_append_left hj] at hq'
      exact h.fifo i j hij p q hp hq' hpq
    · rw [List.getElem?_append_right (by omega)] at hq'
      obtain ⟨-, rfl⟩ := List.getElem?_eq_some_iff.mp hq'
      simp only [List.getElem_singleton]
  · split at hid
    · cases hid
      simp
    · cases hid

lemma PoolInv.take (h : PoolInv C s) (hs : step C s .take = some s') : PoolInv C s' := by
  obtain ⟨hb, i, t, hfi, hi, rfl⟩ := step_take hs
  have hlt : i < s.tasks.length := (List.getElem?_eq_some_iff.mp hi).1
  have hget : s.tasks[i] = (t, .queued) := (List.getElem?_eq_some_iff.mp hi).2
  have hfirst : ∀ i', i' < i → ∀ p, s.tasks[i']? = some p → p.2 ≠ .queued := by
    intro i' hi' p hp hpq
    obtain ⟨_, _, hmin⟩ := List.findIdx?_eq_some_iff_getElem.mp hfi
    exact hmin i' hi' (by simp [(List.getElem?_eq_some_iff.mp hp).2, hpq])
  refine ⟨(countP_set_le _ _ hlt (by simp [hget])).trans h.queued_le, ?_,
    fun i' j hij p q hp hq hpq => ?_, fun id hid => by simpa using h.waiting id hid⟩
  · rw [busy, countP_set_of_false _ _ hlt (by simp [hget, Stage.busy])]
    simpa [Stage.busy] using hb
  · have hi' : i ≠ i' := by
      rintro rfl
      rw [List.getElem?_set_self hlt] at hp
      cases hp
      cases hpq
    rw [List.getElem?_set_ne hi'] at hp
    have hlt' : i < i' := by
      rcases Nat.lt_or_ge i' i with h' | h'
      · exact absurd hpq (hfirst i' h' p hp)
      · omega
    rw [List.getElem?_set_ne (by omega)] at hq
    exact h.fifo _ _ hij _ _ hp hq hpq

lemma PoolInv.step (h : PoolInv C s) {l : Label} (hs : step C s l = some s') : PoolInv C s' := by
  cases l with
  | tick now copyOk =>
    obtain ⟨-, -, rfl | ⟨tasks, -, rfl⟩⟩ := step_tick hs
    · exact h
    · exact h.of_tasks_eq rfl fun id hid => by cases hid
  | parse =>
    obtain ⟨_, _, _, _, -, -, rfl⟩ := step_parse hs
    exact h.of_tasks_eq rfl fun id hid => by cases hid
  | send => exact h.send hs
  | tickReturn =>
    obtain ⟨-, -, -, -, -, rfl⟩ := step_tickReturn hs
    exact h.of_tasks_eq rfl fun id hid => by cases hid
  | take => exact h.take hs
  | merge i =>
    obtain ⟨t, hi, rfl⟩ := step_merge hs
    refine h.of_set hi rfl ?_ rfl rfl
    unfold mergeStage
    split <;> simp
  | appendSink i err =>
    obtain ⟨t, key, value, hi, ⟨-, rfl⟩ | ⟨e, -, rfl⟩⟩ := step_appendSink hs <;>
      exact h.of_set hi rfl (by simp) rfl rfl
  | delete i txn =>
    obtain ⟨t, hi, rfl⟩ := step_delete hs
    refine h.of_set hi rfl ?_ rfl rfl
    unfold deleteStage
    split <;> simp
  | _ =>
    obtain ⟨ht, hw, -⟩ := pool_step hs trivial
    exact h.of_tasks_eq ht fun id hid => hw ▸ hid

theorem Reach.poolInv {allowed : Sys → Label → Prop} (h : Reach C allowed s) : PoolInv C s := by
  induction h with
  | init => exact ⟨Nat.zero_le _, Nat.zero_le _, by simp [Sys.init], by simp [Sys.init]⟩
  | step _ _ hs ih => exact ih.step hs

end Pool

def Label.byWorker : Label → Prop
  | .take | .merge _ | .appendSink _ _ | .delete _ _ => True
  | _ => False

def Stage.weight : Stage → Nat
  | .queued => 4
  | .running => 3
  | .merged _ _ => 2
  | .appended => 1
  | .done _ => 0

lemma Stage.weight_eq_zero {st : Stage} : st.weight = 0 ↔ ∃ e, st = .done e := by
  cases st <;> simp [Stage.weight]

def remaining (s : Sys) : Nat := (s.tasks.map fun p => p.2.weight).sum

lemma sum_map_set_lt {α : Type} (f : α → Nat) {l : List α} {i : Nat} {a b : α}
    (hi : l[i]? = some a) (h : f b < f a) : ((l.set i b).map f).sum < (l.map f).sum := by
  induction l generalizing i with
  | nil => simp at hi
  | cons x l ih =>
    cases i with
    | zero =>
      simp only [List.getElem?_cons_zero, Option.some.injEq] at hi
      subst hi
      simp only [List.set_cons_zero, List.map_cons, List.sum_cons]
      omega
    | succ i =>
      simp only [List.getElem?_cons_succ] at hi
      simpa using ih hi

section Drain

variable {C} {s s' : Sys}

lemma remaining_set_lt {i : Nat} {t : Task} {a b : Stage} (hi : s.tasks[i]? = some (t, a))
    (h : b.weight < a.weight) : remaining { s with tasks := s.tasks.set i (t, b) } < remaining s :=
  sum_map_set_lt (fun p : Task × Stage => p.2.weight) hi h

lemma remaining_send {t : Task} (s' : Sys) (h : s'.tasks = s.tasks ++ [(t, .queued)]) :
    remaining s' = remaining s + 4 := by
  unfold remaining
  rw [h]
  generalize s.tasks = l
  induction l with
  | nil => rfl
  | cons p l ih => simp only [List.cons_append, List.map_cons, List.sum_cons, ih]; omega

lemma remaining_step_lt {l : Label} (hl : l.byWorker) (hs : step C s l = some s') :
    remaining s' < remaining s := by
  cases l with
  | take =>
    obtain ⟨-, i, t, -, hi, rfl⟩ := step_take hs
    exact remaining_set_lt hi (by simp [Stage.weight])
  | merge i =>
    obtain ⟨t, hi, rfl⟩ := step_merge hs
    refine remaining_set_lt hi ?_
    unfold mergeStage
    split <;> simp [Stage.weight]
  | appendSink i err =>
    obtain ⟨t, key, value, hi, ⟨-, rfl⟩ | ⟨e, -, rfl⟩⟩ := step_appendSink hs
    · exact remaining_set_lt hi (b := .appended) (by simp [Stage.weight])
    · exact remaining_set_lt hi (by simp [Stage.weight])
  | delete i txn =>
    obtain ⟨t, hi, rfl⟩ := step_delete hs
    refine remaining_set_lt hi ?_
    unfold deleteStage
    split <;> simp [Stage.weight]
  | _ => exact hl.elim

lemma exists_worker_step (hcpu : 0 < C.numCPU) (err : Option String) (txn : TxnEnv)
    (hne : ∃ p ∈ s.tasks, p.2.weight ≠ 0) : ∃ l, l.byWorker ∧ (step C s l).isSome := by
  by_cases hb : ∃ (i : Nat) (t : Task) (st : Stage), s.tasks[i]? = some (t, st) ∧ st.busy = true
  · obtain ⟨i, t, st, hi, hst⟩ := hb
    cases st with
    | running => exact ⟨.merge i, trivial, by simp [step, hi]⟩
    | merged key value => exact ⟨.appendSink i err, trivial, by cases err <;> simp [step, hi]⟩
    | appended => exact ⟨.delete i txn, trivial, by simp [step, hi]⟩
    | _ => cases hst
  · have hbusy : busy s = 0 := by
      refine List.countP_eq_zero.mpr fun p hp hpb => hb ?_
      obtain ⟨i, hi⟩ := List.getElem?_of_mem hp
      exact ⟨i, p.1, p.2, hi, hpb⟩
    obtain ⟨p, hp, hw⟩ := hne
    have hq : p.2 = .queued := by
      obtain ⟨i, hi⟩ := List.getElem?_of_mem hp
      cases hp2 : p.2 with
      | queued => rfl
      | done e => simp [hp2, Stage.weight] at hw
      | _ => exact (hb ⟨i, p.1, p.2, hi, by simp [hp2, Stage.busy]⟩).elim
    have hsome : (s.tasks.findIdx? fun q => decide (q.2 = .queued)).isSome := by
      rw [List.findIdx?_isSome, List.any_eq_true]
      exact ⟨p, hp, by simp [hq]⟩
    obtain ⟨j, hj⟩ := Option.isSome_iff_exists.mp hsome
    obtain ⟨hlt, -, -⟩ := List.findIdx?_eq_some_iff_getElem.mp hj
    have hget : s.tasks[j]? = some (s.tasks[j].1, s.tasks[j].2) := List.getElem?_eq_getElem hlt
    exact ⟨.take, trivial, by simp [step, hbusy, hcpu, hj, hget]⟩

def SendingOk (s : Sys) : Prop := ∀ rest n base, s.ticker = .sending rest n base → rest ≠ []

lemma SendingOk.step (h : SendingOk s) {l : Label} (hs : step C s l = some s') : SendingOk s' := by
  intro rest n base hr
  rcases ticker_step hs with ht | ⟨now, copyOk, rfl⟩ | rfl | rfl | rfl
  · exact h rest n base (ht.symm.trans hr)
  · obtain ⟨-, -, rfl | ⟨tasks, htasks, rfl⟩⟩ := step_tick hs
    · exact h rest n base hr
    · obtain ⟨acc, -, rfl⟩ := compact_ok C.first C.last copyOk htasks
      cases hr
      simp
  · obtain ⟨t, rest', n', base', -, -, rfl⟩ := step_parse hs
    cases hr
    simp
  · obtain ⟨t, rest', _, _, -, -, rfl⟩ := step_send hs
    cases rest' with
    | nil => cases hr
    | cons => cases hr; simp
  · obtain ⟨_, _, _, -, -, rfl⟩ := step_tickReturn hs
    cases hr

lemma Reach.sendingOk {allowed : Sys → Label → Prop} (h : Reach C allowed s) : SendingOk s := by
  induction h with
  | init => intro rest n base h; cases h
  | step _ _ hs ih => exact ih.step hs

def Ticker.pending : Ticker → Nat
  | .sending rest _ _ => 5 * rest.length + 1
  | .waiting _ => 1
  | .idle => 0

def Label.draining (l : Label) : Prop := l.byWorker ∨ l = .send ∨ l = .tickReturn

lemma exists_draining_step (hcpu : 0 < C.numCPU) (err : Option String) (txn : TxnEnv)
    (hp : PoolInv C s) (hok : SendingOk s)
    (hwork : (∃ p ∈ s.tasks, p.2.weight ≠ 0) ∨ s.ticker ≠ .idle) :
    ∃ l s', l.draining ∧ step C s l = some s' ∧
      remaining s' + s'.ticker.pending < remaining s + s.ticker.pending := by
  by_cases hne : ∃ p ∈ s.tasks, p.2.weight ≠ 0
  · obtain ⟨l, hl, hs⟩ := exists_worker_step hcpu err txn hne
    obtain ⟨s', hs⟩ := Option.isSome_iff_exists.mp hs
    have ht : s'.ticker = s.ticker := by
      rcases ticker_step hs with ht | ⟨_, _, rfl⟩ | rfl | rfl | rfl
      · exact ht
      all_goals exact hl.elim
    have := remaining_step_lt hl hs
    exact ⟨l, s', .inl hl, hs, by rw [ht]; omega⟩
  · have hdone : ∀ p ∈ s.tasks, ∃ e, p.2 = .done e := fun p hp =>
      Stage.weight_eq_zero.mp (not_not.mp fun hw => hne ⟨p, hp, hw⟩)
    cases hticker : s.ticker with
    | idle => exact absurd hticker (hwork.resolve_left hne)
    | sending rest n base =>
      obtain ⟨t, rest, rfl⟩ := List.exists_cons_of_ne_nil (hok rest n base hticker)
      have hq : queued s = 0 := List.countP_eq_zero.mpr fun p hp hq => by
        obtain ⟨e, he⟩ := hdone p hp
        simp [he] at hq
      obtain ⟨s', hs⟩ := Option.isSome_iff_exists.mp
        (by simp [step, hticker, hq, hcpu] : (step C s .send).isSome)
      refine ⟨.send, s', .inr (.inl rfl), hs, ?_⟩
      obtain ⟨t', rest', _, _, ht', -, rfl⟩ := step_send hs
      rw [hticker] at ht'
      cases ht'
      rw [remaining_send _ rfl]
      cases rest <;> simp only [Ticker.pending, List.length_cons] <;> omega
    | waiting id =>
      have hlt := hp.waiting id hticker
      obtain ⟨e, he⟩ := hdone _ (List.getElem_mem hlt)
      have hget : s.tasks[id]? = some (s.tasks[id].1, .done e) := by
        rw [List.getElem?_eq_getElem hlt, ← he]
      exact ⟨.tickReturn, { s with ticker := .idle }, .inr (.inr rfl),
        by simp [step, hticker, hget], by simp [Ticker.pending, remaining]⟩

lemma quiesce_of_inv (hcpu : 0 < C.numCPU) (err : Option String) (txn : TxnEnv)
    (hp : PoolInv C s) (hok : SendingOk s) :
    ∃ ls s', (∀ l ∈ ls, l.draining) ∧ run C s ls = some s' ∧ s'.ticker = .idle ∧
      ∀ p ∈ s'.tasks, ∃ e, p.2 = .done e := by
  obtain ⟨n, hn⟩ : ∃ n, remaining s + s.ticker.pending = n := ⟨_, rfl⟩
  induction n using Nat.strong_induction_on generalizing s with
  | _ n ih =>
    by_cases hwork : (∃ p ∈ s.tasks, p.2.weight ≠ 0) ∨ s.ticker ≠ .idle
    · obtain ⟨l, s', hl, hs, hlt⟩ := exists_draining_step hcpu err txn hp hok hwork
      obtain ⟨ls, s'', hls, hrun, hidle, hdone⟩ := ih _ (hn ▸ hlt) (hp.step hs) (hok.step hs) rfl
      exact ⟨l :: ls, s'', List.forall_mem_cons.mpr ⟨hl, hls⟩, by simp [run, hs, hrun], hidle, hdone⟩
    · push_neg at hwork
      exact ⟨[], s, by simp, rfl, hwork.2, fun p hp => Stage.weight_eq_zero.mp (hwork.1 p hp)⟩

theorem Reach.quiesce {allowed : Sys → Label → Prop} (h : Reach C allowed s)
    (hcpu : 0 < C.numCPU) (err : Option String) (txn : TxnEnv) :
    ∃ ls s', (∀ l ∈ ls, l.draining) ∧ run C s ls = some s' ∧ s'.ticker = .idle ∧
      ∀ p ∈ s'.tasks, ∃ e, p.2 = .done e :=
  quiesce_of_inv hcpu err txn h.poolInv h.sendingOk

end Drain

def Sys.shut (s : Sys) : Prop := s.closer = .bufferClosed ∨ s.closer = .sinkClosed

structure Shut (s : Sys) : Prop where
  shut : s.shut
  ticker : s.ticker = .idle
  buffer : s.buffer.closed = true
  cancelled : s.store.cancelled = true

section Shut

variable {C} {s s' : Sys}

lemma Shut.step (h : Shut s) {l : Label} (hs : step C s l = some s') :
    Shut s' ∧ s'.buffer = s.buffer ∧ s'.log = s.log ∧ s'.tasks.length = s.tasks.length := by
  have hlive : s.closer ≠ .live := by rcases h.shut with hc | hc <;> rw [hc] <;> simp
  have hstore : s'.store.db = s.store.db ∧ s'.store.cancelled = true := by
    rcases store_step hs with ⟨-, he⟩ | ⟨l', hl'⟩
    · rw [he]; exact ⟨rfl, h.cancelled⟩
    · obtain ⟨hdb, hcan, -⟩ := Storage.step_of_closed h.buffer h.cancelled hl'
      exact ⟨hdb, hcan⟩
  have hbuf : s'.buffer.closed = true := by rw [Sys.buffer, hstore.1]; exact h.buffer
  cases l with
  | append k v ttl now ok =>
    obtain ⟨store, -, rfl⟩ := step_append hs
    refine ⟨⟨h.1, h.2, hbuf, hstore.2⟩, hstore.1, ?_, rfl⟩
    simp only [append_of_closed h.buffer]
  | tick now copyOk => exact absurd (step_tick hs).2.1 hlive
  | parse => obtain ⟨_, _, _, _, ht, -⟩ := step_parse hs; simp [h.ticker] at ht
  | send => obtain ⟨_, _, _, _, ht, -⟩ := step_send hs; simp [h.ticker] at ht
  | tickReturn => obtain ⟨_, _, _, ht, -⟩ := step_tickReturn hs; simp [h.ticker] at ht
  | take =>
    obtain ⟨-, _, _, -, -, rfl⟩ := step_take hs
    exact ⟨⟨h.1, h.2, hbuf, hstore.2⟩, rfl, rfl, List.length_set ..⟩
  | merge i =>
    obtain ⟨_, -, rfl⟩ := step_merge hs
    exact ⟨⟨h.1, h.2, hbuf, hstore.2⟩, rfl, rfl, List.length_set ..⟩
  | appendSink i err =>
    obtain ⟨_, _, _, -, ⟨-, rfl⟩ | ⟨_, -, rfl⟩⟩ := step_appendSink hs <;>
      exact ⟨⟨h.1, h.2, hbuf, hstore.2⟩, rfl, rfl, List.length_set ..⟩
  | delete i txn =>
    obtain ⟨t, -, rfl⟩ := step_delete hs
    exact ⟨⟨h.1, h.2, hbuf, hstore.2⟩, hstore.1, rfl, List.length_set ..⟩
  | gcStart =>
    rw [(step_gc (.inl ⟨rfl, rfl⟩) hs).2] at hbuf hstore ⊢
    exact ⟨⟨h.1, h.2, hbuf, hstore.2⟩, hstore.1, rfl, rfl⟩
  | purgeNext seen now txn =>
    rw [(step_gc (.inr (.inl ⟨seen, now, txn, rfl, rfl⟩)) hs).2] at hbuf hstore ⊢
    exact ⟨⟨h.1, h.2, hbuf, hstore.2⟩, hstore.1, rfl, rfl⟩
  | gcEnd =>
    rw [(step_gc (.inr (.inr ⟨rfl, rfl⟩)) hs).2] at hbuf hstore ⊢
    exact ⟨⟨h.1, h.2, hbuf, hstore.2⟩, hstore.1, rfl, rfl⟩
  | cancel => exact absurd (step_cancel hs).1 hlive
  | closeBuffer =>
    have hc := (step_closeBuffer hs).1
    rcases h.shut with h' | h' <;> rw [h'] at hc <;> cases hc
  | closeSink =>
    obtain ⟨-, rfl⟩ := step_closeSink hs
    exact ⟨⟨.inr rfl, h.ticker, h.buffer, h.cancelled⟩, rfl, rfl, rfl⟩

lemma Shut.run (h : Shut s) (ls : List Label) (hr : run C s ls = some s') :
    Shut s' ∧ s'.buffer = s.buffer ∧ s'.log = s.log ∧ s'.tasks.length = s.tasks.length := by
  induction ls generalizing s with
  | nil =>
    cases Option.some.inj hr
    exact ⟨h, rfl, rfl, rfl⟩
  | cons l ls ih =>
    simp only [Compact.run] at hr
    cases hs : Compact.step C s l with
    | none => simp [hs] at hr
    | some s₁ =>
      obtain ⟨h₁, hb, hl, ht⟩ := h.step hs
      obtain ⟨h', hb', hl', ht'⟩ := ih h₁ (by simpa [hs] using hr)
      exact ⟨h', hb'.trans hb, hl'.trans hl, ht'.trans ht⟩

lemma Reach.shut {allowed : Sys → Label → Prop} (h : Reach C allowed s) (hc : s.shut) : Shut s := by
  induction h with
  | init => simp [Sys.shut, Sys.init] at hc
  | @step s₀ s₁ l _ _ hs ih =>
    by_cases h0 : s₀.shut
    · exact ((ih h0).step hs).1
    rcases closer_step hs with he | rfl | rfl | rfl
    · rw [Sys.shut, he] at hc
      exact absurd hc h0
    · rw [(step_cancel hs).2] at hc; simp [Sys.shut] at hc
    · obtain ⟨-, ht, rfl⟩ := step_closeBuffer hs
      exact ⟨.inl rfl, ht, rfl, rfl⟩
    · exact absurd (.inl (step_closeSink hs).1) h0

end Shut

lemma Reach.of_run {allowed : Sys → Label → Prop} (hall : ∀ s l, allowed s l) :
    ∀ {s s' : Sys} (ls : List Label), Reach C allowed s → run C s ls = some s' → Reach C allowed s'
  | _, _, [], h, hr => Option.some.inj hr ▸ h
  | s, _, l :: ls, h, hr => by
    simp only [run] at hr
    cases hs : Compact.step C s l with
    | none => simp [hs] at hr
    | some t => exact Reach.of_run hall ls (h.step (hall s l) hs) (by simpa [hs] using hr)

def twoWorkers : Config :=
  ⟨hashOfKey, decodeOne, firstKey, lastKey, 2, Flush.reliableOrc, fun _ => .ok "f"⟩

def okTxn : TxnEnv := ⟨fun _ => .ok, fun _ => true⟩

def threeRecords : List Label :=
  [.append [0, 0, 0, 1, 1] [1] 3600000000000 0 true, .append [0, 0, 0, 2, 1] [1] 3600000000000 0 true,
    .append [0, 0, 0, 2, 2] [1] 3600000000000 0 true, .tick 0 fun _ => true, .send, .send, .take, .take]

theorem threeRecords_drain :
    ∃ s, run twoWorkers Sys.init threeRecords = some s ∧ ∃ ls s', (∀ l ∈ ls, l.draining) ∧
      run twoWorkers s ls = some s' ∧ s'.ticker = .idle ∧ ∀ p ∈ s'.tasks, ∃ e, p.2 = .done e := by
  obtain ⟨s, hs⟩ := Option.isSome_iff_exists.mp
    (by decide : (run twoWorkers Sys.init threeRecords).isSome)
  exact ⟨s, hs, Reach.quiesce (Reach.of_run twoWorkers (fun _ _ => trivial) threeRecords .init hs)
    (by decide) none okTxn⟩

def firstTick : List Label :=
  threeRecords ++ [.merge 0, .appendSink 0 none, .merge 1, .appendSink 1 none, .delete 1 okTxn,
    .tickReturn]

def secondTick : List Label :=
  [.tick 0 fun _ => true, .send, .send, .take, .merge 2, .appendSink 2 none]

theorem tick_returns_before_its_merges :
    (run twoWorkers Sys.init firstTick).map (fun s => s.ticker matches .idle) = some true ∧
    (run twoWorkers Sys.init firstTick).map (fun s => s.tasks.map fun p => (p.1.keys, p.2)) =
      some [([[0, 0, 0, 1, 1]], .appended), ([[0, 0, 0, 2, 2]], .done none)] ∧
    (run twoWorkers Sys.init firstTick).map (fun s => s.buffer.entries.map Prod.fst) =
      some [[0, 0, 0, 1, 1], [0, 0, 0, 2, 1]] ∧
    (run twoWorkers Sys.init (firstTick ++ secondTick)).map
      (fun s => s.tasks.map fun p => (p.1.keys, p.2)) =
      some [([[0, 0, 0, 1, 1]], .appended), ([[0, 0, 0, 2, 2]], .done none),
        ([[0, 0, 0, 1, 1]], .appended), ([], .queued)] ∧
    (run twoWorkers Sys.init (firstTick ++ secondTick)).map
      (fun s => s.sink.accepted.map fun p => p.2.map Flush.OrcFile.stripes) =
      some [some [[⟨.int32, [some (.int32 1)]⟩]], some [[⟨.int32, [some (.int32 1)]⟩]],
        some [[⟨.int32, [some (.int32 1)]⟩]]] := by
  decide

def closeAfterTick : List Label :=
  threeRecords ++ [.merge 1, .appendSink 1 none, .delete 1 okTxn, .tickReturn, .cancel,
    .closeBuffer, .closeSink]

theorem close_leaves_merge_running :
    (run twoWorkers Sys.init closeAfterTick).map
      (fun s => (s.closer, s.buffer.closed, s.sink.closed)) = some (.sinkClosed, true, true) ∧
    (run twoWorkers Sys.init closeAfterTick).map (fun s => s.tasks.map Prod.snd) =
      some [.running, .done none] ∧
    (run twoWorkers Sys.init (closeAfterTick ++ [.merge 0, .appendSink 0 none, .delete 0 okTxn])).map
      (fun s => s.tasks.map Prod.snd) = some [.done (some errClosed), .done none] ∧
    (run twoWorkers Sys.init (closeAfterTick ++ [.merge 0, .appendSink 0 none, .delete 0 okTxn])).map
      (fun s => (s.sink.accepted.length, s.buffer.entries.map Prod.fst)) =
      some (2, [[0, 0, 0, 1, 1], [0, 0, 0, 2, 1]]) := by
  decide

end Talaria.Compact
