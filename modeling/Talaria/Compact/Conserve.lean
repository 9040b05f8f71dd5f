import Talaria.Compact.System

/-! What the compactor keeps of the rows it is given. Whatever the merger does, `merge` keeps its
order: an entry leaves the buffer only after the sink accepted what `Merge` returned for its
task; which entries go is what the task's key slices read when its `Delete` runs. -/

namespace Talaria.Compact

open Disk

def Carries (p : List UInt8 × Option Flush.OrcFile) (b : Block) : Prop :=
  ∃ w schema, p.2 = some w ∧ w.columns = schema.columns ∧ b.schema.Sub schema ∧
    ∃ c ∈ w.stripes, c.map Column.values = Flush.expected schema b

def Conserved (C : Config) (s : Sys) : Prop :=
  ∀ k v b, (k, v) ∈ s.log → C.fromBuffer v = some b →
    (k, v) ∈ s.buffer.entries ∨ ∃ p ∈ s.sink.accepted, Carries p b

def Sent (C : Config) (accepted : List (List UInt8 × Option Flush.OrcFile)) (t : Task) :
    Stage → Prop
  | .merged key value => Flush.merge C.orc C.fileNameFunc t.blocks t.schema = .ok (key, value)
  | .appended => ∃ key value, Flush.merge C.orc C.fileNameFunc t.blocks t.schema = .ok (key, value) ∧
      (key, value) ∈ accepted
  | _ => True

def Delivered (C : Config) (s : Sys) : Prop := ∀ p ∈ s.tasks, Sent C s.sink.accepted p.1 p.2

lemma Sent.mono {C : Config} {acc acc' : List (List UInt8 × Option Flush.OrcFile)} {t : Task}
    {st : Stage} (h : Sent C acc t st) (hsub : ∀ p ∈ acc, p ∈ acc') : Sent C acc' t st := by
  cases st with
  | appended =>
    obtain ⟨key, value, hm, hp⟩ := h
    exact ⟨key, value, hm, hsub _ hp⟩
  | _ => exact h

section Ordering

variable {C : Config} {s s' : Sys}

lemma Delivered.set (h : Delivered C s) {i : Nat} {t : Task} {b : Stage}
    (hb : Sent C s.sink.accepted t b) : Delivered C { s with tasks := s.tasks.set i (t, b) } :=
  fun p hp => (List.mem_or_eq_of_mem_set hp).elim (h p) fun hp => by subst hp; exact hb

lemma Delivered.step (h : Delivered C s) {l : Label} (hs : step C s l = some s') :
    Delivered C s' := by
  cases l with
  | tick now copyOk => obtain ⟨-, -, rfl | ⟨_, -, rfl⟩⟩ := step_tick hs <;> exact h
  | parse => obtain ⟨_, _, _, _, -, -, rfl⟩ := step_parse hs; exact h
  | send =>
    obtain ⟨t, rest, _, _, -, -, rfl⟩ := step_send hs
    exact fun p hp => (List.mem_append.mp hp).elim (h p) fun hp => by
      rw [List.mem_singleton.mp hp]
      trivial
  | tickReturn => obtain ⟨_, _, _, -, -, rfl⟩ := step_tickReturn hs; exact h
  | take => obtain ⟨-, _, _, -, -, rfl⟩ := step_take hs; exact h.set trivial
  | merge i =>
    obtain ⟨t, -, rfl⟩ := step_merge hs
    refine h.set ?_
    unfold mergeStage
    split
    · trivial
    · assumption
  | appendSink i err =>
    obtain ⟨t, key, value, hi, ⟨-, rfl⟩ | ⟨e, -, rfl⟩⟩ := step_appendSink hs
    · intro p hp
      rcases List.mem_or_eq_of_mem_set hp with hp | rfl
      · exact (h p hp).mono fun q hq => List.mem_append_left _ hq
      · exact ⟨key, value, h _ (List.getElem?_mem hi),
          List.mem_append_right _ (List.mem_singleton_self _)⟩
    · exact h.set trivial
  | delete i txn =>
    obtain ⟨t, -, rfl⟩ := step_delete hs
    exact h.set (by unfold deleteStage; split <;> trivial)
  | _ =>
    obtain ⟨ht, -, ha⟩ := pool_step hs trivial
    intro p hp
    rw [ht] at hp
    exact ha ▸ h p hp

lemma Reach.delivered {allowed : Sys → Label → Prop} (h : Reach C allowed s) : Delivered C s := by
  induction h with
  | init => intro _ h; cases h
  | step _ _ hs ih => exact ih.step hs

theorem Reach.entry_leaves_after_accept {allowed : Sys → Label → Prop} (h : Reach C allowed s)
    {l : Label} (hs : Compact.step C s l = some s') (t : Int) {x : Key × Bytes}
    (hx : x ∈ (s.store.visible t).entries) (hx' : x ∉ (s'.store.visible t).entries) :
    (∃ v ttl now ok, l = .append x.1 v ttl now ok) ∨
      (∃ i txn task key value, l = .delete i txn ∧ s.tasks[i]? = some (task, .appended) ∧
        x.1 ∈ task.heldAt (s.parsedFor i task) ∧
        Flush.merge C.orc C.fileNameFunc task.blocks task.schema = .ok (key, value) ∧
        (key, value) ∈ s.sink.accepted) ∨
      ∃ seen now txn, l = .purgeNext seen now txn ∧
        (expired (s.store.expiresAt x.1) seen = false ∧ s.store.expiresAt x.1 ≤ unix64 now ∨
          x.1 ∈ s.store.gcTask.written) := by
  have hleave : ∀ {l' : Storage.Label}, s.store.step l' = some s'.store → _ :=
    fun hl' => h.store.snapshotCurrent.entry_leaves_step hl' t hx hx'
  cases l with
  | append k v ttl now ok =>
    obtain ⟨store, hst, rfl⟩ := step_append hs
    rcases hleave hst with ⟨_, _, h', -⟩ | ⟨v', ttl', now', ok', h'⟩ | ⟨_, _, _, h', -⟩ <;> cases h'
    exact .inl ⟨v, ttl, now, ok, rfl⟩
  | delete i txn =>
    obtain ⟨task, hi, rfl⟩ := step_delete hs
    have hst : s.store.step (.delete (task.heldAt (s.parsedFor i task)) txn) =
        some (s.store.delete txn (task.heldAt (s.parsedFor i task))).1 := rfl
    rcases hleave hst with
      ⟨_, _, h', hk⟩ | ⟨_, _, _, _, h'⟩ | ⟨_, _, _, h', -⟩ <;> cases h'
    obtain ⟨key, value, hm, hacc⟩ := h.delivered _ (List.getElem?_mem hi)
    exact .inr (.inl ⟨i, txn, task, key, value, rfl, hi, hk, hm, hacc⟩)
  | purgeNext seen now txn =>
    rcases hleave (step_gc (.inr (.inl ⟨seen, now, txn, rfl, rfl⟩)) hs).1 with
      ⟨_, _, h', -⟩ | ⟨_, _, _, _, h'⟩ | ⟨_, _, _, h', hc⟩ <;> cases h'
    exact .inr (.inr ⟨seen, now, txn, rfl, hc⟩)
  | gcStart =>
    rcases hleave (step_gc (.inl ⟨rfl, rfl⟩) hs).1 with
      ⟨_, _, h', -⟩ | ⟨_, _, _, _, h'⟩ | ⟨_, _, _, h', -⟩ <;> cases h'
  | gcEnd =>
    rcases hleave (step_gc (.inr (.inr ⟨rfl, rfl⟩)) hs).1 with
      ⟨_, _, h', -⟩ | ⟨_, _, _, _, h'⟩ | ⟨_, _, _, h', -⟩ <;> cases h'
  | closeBuffer =>
    obtain ⟨-, -, rfl⟩ := step_closeBuffer hs
    rcases hleave (show s.store.step .close = some s.store.close from rfl) with
      ⟨_, _, h', -⟩ | ⟨_, _, _, _, h'⟩ | ⟨_, _, _, h', -⟩ <;> cases h'
  | _ => exact absurd (store_of_keepsStore hs trivial ▸ hx) hx'

end Ordering

def schemaFailing : Config :=
  { twoWorkers with orc := { Flush.reliableOrc with schemaErr := fun _ => some "unsupported" } }

def lostRow : List Label :=
  [.append [0, 0, 0, 1, 1] [1] 3600000000000 0 true, .tick 0 fun _ => true, .send, .take, .merge 0,
    .appendSink 0 none, .delete 0 okTxn]

theorem merge_failure_loses_rows :
    ∃ s, Reach schemaFailing (fun _ _ => True) s ∧ s.log = [([0, 0, 0, 1, 1], [1])] ∧
      s.buffer.entries = [] ∧ s.sink.accepted = [([], none)] ∧ ¬ Conserved schemaFailing s := by
  have hsome : (run schemaFailing Sys.init lostRow).isSome := by decide
  obtain ⟨s, hs⟩ := Option.isSome_iff_exists.mp hsome
  have hl : (run schemaFailing Sys.init lostRow).map Sys.log = some [([0, 0, 0, 1, 1], [1])] := by
    decide
  have hb : (run schemaFailing Sys.init lostRow).map (fun s => s.buffer.entries) = some [] := by
    decide
  have ha : (run schemaFailing Sys.init lostRow).map (fun s => s.sink.accepted) =
      some [([], none)] := by
    decide
  simp only [hs, Option.map_some', Option.some.injEq] at hl hb ha
  refine ⟨s, Reach.of_run schemaFailing (fun _ _ => trivial) lostRow .init hs, hl, hb, ha, fun h => ?_⟩
  rcases h [0, 0, 0, 1, 1] [1] Flush.oneRowBlock (by simp [hl]) rfl with hin | ⟨p, hp, w, -, hw, -⟩
  · simp [hb] at hin
  · rw [ha, List.mem_singleton] at hp
    subst hp
    cases hw

theorem failed_merge_deleted_after_accept :
    ∃ s s', Reach schemaFailing (fun _ _ => True) s ∧
      step schemaFailing s (.delete 0 okTxn) = some s' ∧
      ([0, 0, 0, 1, 1], [1]) ∈ (s.store.visible 0).entries ∧
      ([0, 0, 0, 1, 1], [1]) ∉ (s'.store.visible 0).entries ∧
      ((∃ v ttl now ok, Label.delete 0 okTxn = .append [0, 0, 0, 1, 1] v ttl now ok) ∨
        (∃ i txn task key value, Label.delete 0 okTxn = .delete i txn ∧
          s.tasks[i]? = some (task, .appended) ∧ [0, 0, 0, 1, 1] ∈ task.heldAt (s.parsedFor i task) ∧
          Flush.merge schemaFailing.orc schemaFailing.fileNameFunc task.blocks task.schema =
            .ok (key, value) ∧ (key, value) ∈ s.sink.accepted) ∨
        ∃ seen now txn, Label.delete 0 okTxn = .purgeNext seen now txn ∧
          (expired (s.store.expiresAt [0, 0, 0, 1, 1]) seen = false ∧
              s.store.expiresAt [0, 0, 0, 1, 1] ≤ unix64 now ∨
            [0, 0, 0, 1, 1] ∈ s.store.gcTask.written)) := by
  have h0 : Reach schemaFailing (fun _ _ => True) _ :=
    Reach.step .init (l := .append [0, 0, 0, 1, 1] [1] 3600000000000 0 true) trivial rfl
  have h1 := Reach.step h0 (l := .tick 0 fun _ => true) trivial rfl
  have h2 := Reach.step h1 (l := .send) trivial rfl
  have h3 := Reach.step h2 (l := .take) trivial rfl
  have h4 := Reach.step h3 (l := .merge 0) trivial rfl
  have h5 := Reach.step h4 (l := .appendSink 0 none) trivial rfl
  refine ⟨_, _, h5, rfl, ?_, ?_,
    Reach.entry_leaves_after_accept h5 (l := .delete 0 okTxn) rfl 0 (x := ([0, 0, 0, 1, 1], [1])) ?_ ?_⟩
    <;> decide

end Talaria.Compact
