import Talaria.Compact.Conserve

/-! The Talaria sink of storage/writer/talaria/talaria.go: `New` dials a client, and each `Write`
first takes the lock and dials again if the writer holds no client, then calls `IngestORC` on
the client it holds. `Write` only forwards its value, so the payload type is a parameter. Then
the compactor whose sink writes to Talaria, from `Append` to the payloads the one connection
carries. -/

namespace Talaria.Writer.Talaria

open Disk

def second : BitVec 64 := 1000000000

def nilDereference : String := "runtime error: invalid memory address or nil pointer dereference"

structure DialOptions where
  endpoint : String
  dialTimeout : BitVec 64
  circuitTimeout : BitVec 64
  maxConcurrent : Int
  errorThresholdPercent : Int
  deriving DecidableEq, Repr

structure Client (β : Type) where
  conn : Nat
  options : DialOptions
  closed : Bool
  ingested : List β
  deriving DecidableEq, Repr

structure Writer (β : Type) where
  endpoint : String
  dialTimeout : BitVec 64
  circuitTimeout : BitVec 64
  maxConcurrent : Int
  errorPercentThreshold : Int
  client : Option (Client β)
  deriving DecidableEq, Repr

variable {β : Type}

def getClient (endpoint : String) (dialTimeout circuitTimeout : BitVec 64)
    (maxConcurrent errorThresholdPercent : Int) (dial : Except String Nat) :
    Except String (Client β) :=
  match dial with
  | .error err => .error err
  | .ok conn =>
    .ok ⟨conn, ⟨endpoint, dialTimeout, circuitTimeout, maxConcurrent, errorThresholdPercent⟩,
      false, []⟩

def new (endpoint : String) (dialTimeout circuitTimeout : BitVec 64)
    (maxConcurrent errorPercentThreshold : Int) (dial : Except String Nat) :
    Except String (Writer β) :=
  let dialTimeout := dialTimeout * second
  let circuitTimeout := circuitTimeout * second
  match getClient endpoint dialTimeout circuitTimeout maxConcurrent errorPercentThreshold dial with
  | .error _ => .error "talaria: unable to create a client"
  | .ok client =>
    .ok ⟨endpoint, dialTimeout, circuitTimeout, maxConcurrent, errorPercentThreshold, some client⟩

def tryConnect (w : Writer β) (dial : Except String Nat) : Writer β × Option String :=
  match w.client with
  | none =>
    match getClient w.endpoint w.dialTimeout w.circuitTimeout w.maxConcurrent
        w.errorPercentThreshold dial with
    | .error err => (w, some err)
    | .ok client => ({ w with client := some client }, none)
  | some _ => (w, none)

def Client.ingestORC (c : Client β) (val : β) (answer : Option String) :
    Client β × Option String :=
  match answer with
  | none => ({ c with ingested := c.ingested ++ [val] }, none)
  | some err => (c, some err)

def write (w : Writer β) (_ : Key) (val : β) (dial : Except String Nat)
    (ingest : Option String) : Writer β × Except String Unit :=
  match tryConnect w dial with
  | (_, some _) => (w, .error "talaria: unable to connect")
  | (w, none) =>
    match w.client with
    | none => (w, .error nilDereference)
    | some c =>
      match c.ingestORC val ingest with
      | (c, none) => ({ w with client := some c }, .ok ())
      | (c, some _) => ({ w with client := some c }, .error "talaria: unable to write")

def close (w : Writer β) (answer : Option String) : Writer β × Option String :=
  (match w.client with
    | some c => { w with client := some { c with closed := true } }
    | none => w, answer)

inductive Label (β : Type)
  | write (key : Key) (val : β) (dial : Except String Nat) (ingest : Option String)
  | close (answer : Option String)

def step (w : Writer β) : Label β → Writer β
  | .write key val dial ingest => (write w key val dial ingest).1
  | .close answer => (close w answer).1

def run (w : Writer β) (ls : List (Label β)) : Writer β := ls.foldl step w

def delivered : List (Label β) → List β
  | [] => []
  | .write _ val _ none :: ls => val :: delivered ls
  | _ :: ls => delivered ls

def Label.isClose : Label β → Bool
  | .close _ => true
  | .write .. => false

def Client.after (c : Client β) : Label β → Client β
  | .write _ val _ ingest => (c.ingestORC val ingest).1
  | .close _ => { c with closed := true }

section Run

variable {w : Writer β} {c : Client β}

lemma tryConnect_of_client (h : w.client = some c) (dial : Except String Nat) :
    tryConnect w dial = (w, none) := by
  simp [tryConnect, h]

lemma write_of_client (h : w.client = some c) (key : Key) (val : β) (dial : Except String Nat)
    (ingest : Option String) :
    write w key val dial ingest = ({ w with client := some (c.ingestORC val ingest).1 },
      if ingest = none then .ok () else .error "talaria: unable to write") := by
  cases ingest <;> simp [write, tryConnect_of_client h, h, Client.ingestORC]

lemma step_of_client (h : w.client = some c) (l : Label β) :
    step w l = { w with client := some (c.after l) } := by
  cases l with
  | write key val dial ingest => simp [step, Client.after, write_of_client h]
  | close answer => simp [step, Client.after, close, h]

lemma run_of_client (h : w.client = some c) (ls : List (Label β)) :
    run w ls = { w with client := some (ls.foldl Client.after c) } := by
  induction ls generalizing w c with
  | nil => cases w; cases h; rfl
  | cons l ls ih =>
    have hs : (step w l).client = some (c.after l) := by rw [step_of_client h]
    simp only [run, List.foldl_cons] at ih ⊢
    rw [ih hs, step_of_client h]

lemma foldl_after (c : Client β) (ls : List (Label β)) :
    ls.foldl Client.after c =
      { c with closed := c.closed || ls.any Label.isClose, ingested := c.ingested ++ delivered ls } := by
  induction ls generalizing c with
  | nil => simp [delivered]
  | cons l ls ih =>
    rw [List.foldl_cons, ih]
    cases l with
    | write key val dial ingest =>
      cases ingest <;> simp [Client.after, Client.ingestORC, delivered, Label.isClose]
    | close answer => simp [Client.after, delivered, Label.isClose]

end Run

section New

variable {endpoint : String} {dialTimeout circuitTimeout : BitVec 64}
  {maxConcurrent errorPercentThreshold : Int} {dial : Except String Nat} {w : Writer β}

lemma new_ok (h : new endpoint dialTimeout circuitTimeout maxConcurrent errorPercentThreshold dial = .ok w) :
    ∃ conn, dial = .ok conn ∧ w = ⟨endpoint, dialTimeout * second, circuitTimeout * second,
      maxConcurrent, errorPercentThreshold, some ⟨conn, ⟨endpoint, dialTimeout * second,
        circuitTimeout * second, maxConcurrent, errorPercentThreshold⟩, false, []⟩⟩ := by
  cases dial with
  | error e => simp [new, getClient] at h
  | ok conn => exact ⟨conn, rfl, by simpa [new, getClient] using h.symm⟩

theorem new_keeps_connection
    (h : new endpoint dialTimeout circuitTimeout maxConcurrent errorPercentThreshold dial = .ok w)
    (ls : List (Label β)) :
    ∃ conn, dial = .ok conn ∧ (run w ls).client = some ⟨conn, ⟨endpoint, dialTimeout * second,
      circuitTimeout * second, maxConcurrent, errorPercentThreshold⟩, ls.any Label.isClose,
      delivered ls⟩ := by
  obtain ⟨conn, rfl, rfl⟩ := new_ok h
  refine ⟨conn, rfl, ?_⟩
  rw [run_of_client (c := ⟨conn, _, false, []⟩) rfl, foldl_after]
  rfl

def redialRun : List (Label Nat) :=
  [.write [] 1 (.error "connection refused") none, .close none,
    .write [] 2 (.error "connection refused") none]

theorem new_writer_keeps_connection :
    ∃ w : Writer Nat, new "localhost:8043" 5 5 10 50 (.ok 7) = .ok w ∧
      ∃ conn, (.ok 7 : Except String Nat) = .ok conn ∧ (run w redialRun).client =
        some ⟨conn, ⟨"localhost:8043", 5 * second, 5 * second, 10, 50⟩,
          redialRun.any Label.isClose, delivered redialRun⟩ := by
  refine ⟨_, rfl, ?_⟩
  exact new_keeps_connection (by rfl) redialRun

example : (run ((new "localhost:8043" 5 5 10 50 (.ok 7)).toOption.getD
    ⟨"", 0, 0, 0, 0, none⟩) redialRun).client.map (fun c => (c.closed, c.ingested)) =
    some (true, [1, 2]) := by
  decide

end New

/-! The compactor whose sink is `flush.Storage` over a talaria writer: `dest.Append` is
`writer.Write` (flush.go), and `flush.Storage.Close` does nothing, so the compactor never
closes the writer. -/

abbrev Payload := Option Flush.OrcFile

def errorOf : Except String Unit → Option String
  | .ok _ => none
  | .error e => some e

inductive SinkLabel
  | compact (l : Compact.Label)
  | appendSink (id : Nat) (dial : Except String Nat) (ingest : Option String)

section Sink

variable (C : Compact.Config)

def sinkStep (s : Compact.Sys) (w : Writer Payload) :
    SinkLabel → Option (Compact.Sys × Writer Payload)
  | .compact (.appendSink _ _) => none
  | .compact l => (Compact.step C s l).map fun s' => (s', w)
  | .appendSink i dial ingest =>
    match s.tasks[i]? with
    | some (_, .merged key value) =>
      let r := write w key value dial ingest
      (Compact.step C s (.appendSink i (errorOf r.2))).map fun s' => (s', r.1)
    | _ => none

def SinkLabel.allowed (allowed : Compact.Sys → Compact.Label → Prop) (s : Compact.Sys) :
    SinkLabel → Prop
  | .compact l => allowed s l
  | .appendSink .. => True

inductive SinkReach (allowed : Compact.Sys → Compact.Label → Prop) (w₀ : Writer Payload) :
    Compact.Sys × Writer Payload → Prop
  | init : SinkReach allowed w₀ (Compact.Sys.init, w₀)
  | step {p p' : Compact.Sys × Writer Payload} (l : SinkLabel) :
    SinkReach allowed w₀ p → l.allowed allowed p.1 → sinkStep C p.1 p.2 l = some p' →
      SinkReach allowed w₀ p'

variable {C} {allowed : Compact.Sys → Compact.Label → Prop} {s : Compact.Sys}
  {w w₀ : Writer Payload} {p : Compact.Sys × Writer Payload}

lemma sinkStep_compact {l : Compact.Label} (h : sinkStep C s w (.compact l) = some p) :
    ∃ s', Compact.step C s l = some s' ∧ p = (s', w) ∧ ∀ i err, l ≠ .appendSink i err := by
  cases l with
  | appendSink => simp [sinkStep] at h
  | _ =>
    simp only [sinkStep, Option.map_eq_some'] at h
    obtain ⟨s', hs, rfl⟩ := h
    exact ⟨s', hs, rfl, by intro _ _ h; cases h⟩

lemma sinkStep_appendSink {i : Nat} {dial : Except String Nat} {ingest : Option String}
    (h : sinkStep C s w (.appendSink i dial ingest) = some p) :
    ∃ t key value, s.tasks[i]? = some (t, .merged key value) ∧
      Compact.step C s (.appendSink i (errorOf (write w key value dial ingest).2)) = some p.1 ∧
      p.2 = (write w key value dial ingest).1 := by
  simp only [sinkStep] at h
  split at h
  · obtain ⟨s', hs, rfl⟩ := Option.map_eq_some'.mp h
    exact ⟨_, _, _, ‹_›, hs, rfl⟩
  · cases h

lemma SinkReach.compact (hsink : ∀ s i err, allowed s (.appendSink i err))
    (h : SinkReach C allowed w₀ p) : Compact.Reach C allowed p.1 := by
  induction h with
  | init => exact .init
  | step l _ ha hs ih =>
    cases l with
    | compact l =>
      obtain ⟨_, hs', rfl, -⟩ := sinkStep_compact hs
      exact ih.step ha hs'
    | appendSink i dial ingest =>
      obtain ⟨_, _, _, -, hs', -⟩ := sinkStep_appendSink hs
      exact ih.step (hsink _ _ _) hs'

end Sink

end Talaria.Writer.Talaria
