import Mathlib.Logic.Function.Basic
import Mathlib.Data.List.Nodup

/-! `presto.serverCodec` (trino_codec.go): the Thrift codec of the Presto connector, which
dispatches `trino` calls under their `presto` names and remembers, per sequence id, the wire
name the response must carry. -/

namespace Talaria.Presto

-- Thrift message types and application-exception codes, as the Thrift protocol numbers them.
def messageTypeCall : UInt8 := 1
def messageTypeReply : UInt8 := 2
def messageTypeException : UInt8 := 3
def exceptionUnknownMethod : BitVec 32 := 1
def exceptionInternalError : BitVec 32 := 6

def replaceFirst (old new : List Char) : List Char → List Char
  | [] => []
  | c :: cs =>
    if old.isPrefixOf (c :: cs) then new ++ (c :: cs).drop old.length
    else c :: replaceFirst old new cs

def getWireNameFor (name : String) : String :=
  ⟨replaceFirst "trino".data "presto".data name.data⟩

lemma replaceFirst_append {old new pre post : List Char} (hold : old ≠ [])
    (hpre : ∀ k < pre.length, ¬ old <+: (pre ++ old ++ post).drop k) :
    replaceFirst old new (pre ++ old ++ post) = pre ++ new ++ post := by
  induction pre with
  | nil =>
    obtain ⟨c, cs, rfl⟩ := List.exists_cons_of_ne_nil hold
    have hp : (c :: cs).isPrefixOf (c :: (cs ++ post)) = true :=
      List.isPrefixOf_iff_prefix.mpr (List.prefix_append _ _)
    rw [List.nil_append, List.nil_append, List.cons_append, replaceFirst, hp, if_pos rfl,
      ← List.cons_append, List.drop_left]
  | cons a pre ih =>
    have hp : old.isPrefixOf (a :: (pre ++ old ++ post)) = false :=
      Bool.eq_false_iff.mpr fun hp => hpre 0 (Nat.succ_pos _) (List.isPrefixOf_iff_prefix.mp hp)
    simp only [List.cons_append]
    rw [replaceFirst, hp, if_neg Bool.false_ne_true,
      ih fun k hk => hpre (k + 1) (Nat.succ_lt_succ hk)]

theorem getWireNameFor_first (pre post : List Char)
    (hpre : ∀ k < pre.length, ¬ "trino".data <+: (pre ++ "trino".data ++ post).drop k) :
    getWireNameFor ⟨pre ++ "trino".data ++ post⟩ = ⟨pre ++ "presto".data ++ post⟩ :=
  congrArg String.mk (replaceFirst_append (by decide) hpre)

theorem getWireNameFor_after_prefix :
    getWireNameFor ⟨"thrift.".data ++ "trino".data ++ ".trino.getSplits".data⟩ =
      ⟨"thrift.".data ++ "presto".data ++ ".trino.getSplits".data⟩ :=
  getWireNameFor_first _ _ (by decide)

example : getWireNameFor "trino.getTableMetadata" = "presto.getTableMetadata" := by decide

inductive Body
  | result
  | applicationException (message : String) (etype : BitVec 32)
  deriving DecidableEq, Repr

inductive Write
  | messageBegin (name : String) (mtype : UInt8) (seq : BitVec 32)
  | struct (body : Body)
  | messageEnd
  | flush
  deriving DecidableEq, Repr

structure ServerCodec where
  nameCache : String → Option String
  methodName : BitVec 64 → Option String
  out : List Write

def newServerCodec : ServerCodec := ⟨fun _ => none, fun _ => none, []⟩

structure Request where
  serviceMethod : String
  seq : BitVec 64
  deriving DecidableEq, Repr

structure Response where
  seq : BitVec 64
  error : String
  deriving DecidableEq, Repr

structure Conn where
  beginErr : Option String
  encodeErr : Option String
  endErr : Option String
  flushErr : Option String

def issue : List (Write × Option String) → List Write × Except String Unit
  | [] => ([], .ok ())
  | (w, none) :: rest => (w :: (issue rest).1, (issue rest).2)
  | (w, some e) :: _ => ([w], .error e)

section Codec

variable (camelCase : String → String)

def registeredName (name : String) : String :=
  if '.' ∈ (camelCase name).data then camelCase name else "Thrift." ++ camelCase name

def readRequestHeader (c : ServerCodec) (msg : Except String (String × UInt8 × BitVec 32)) :
    ServerCodec × Except String Request :=
  match msg with
  | .error e => (c, .error e)
  | .ok (wireName, messageType, seq) =>
    if messageType ≠ messageTypeCall then (c, .error "thrift: expected Call message type")
    else
      let name := getWireNameFor wireName
      let newName := (c.nameCache name).getD ""
      let nameCache := if newName = "" then
        Function.update c.nameCache name (some (registeredName camelCase name)) else c.nameCache
      let newName := if newName = "" then registeredName camelCase name else newName
      (⟨nameCache, Function.update c.methodName (seq.signExtend 64) (some wireName), c.out⟩,
        .ok ⟨newName, seq.signExtend 64⟩)

end Codec

def reply (response : Response) : UInt8 × Body :=
  if response.error ≠ "" then
    (messageTypeException, .applicationException response.error
      (if "rpc: can\x27t find".data.isPrefixOf response.error.data then exceptionUnknownMethod
        else exceptionInternalError))
  else (messageTypeReply, .result)

def responseCalls (methodName : String) (response : Response) (conn : Conn) :
    List (Write × Option String) :=
  [(.messageBegin methodName (reply response).1 (response.seq.setWidth 32), conn.beginErr),
    (.struct (reply response).2, conn.encodeErr), (.messageEnd, conn.endErr),
    (.flush, conn.flushErr)]

def writeResponse (c : ServerCodec) (response : Response) (conn : Conn) :
    ServerCodec × Except String Unit :=
  match c.methodName response.seq with
  | none => (c, .error ("rpc: can\x27t find requested seq " ++ toString response.seq.toNat))
  | some methodName =>
    (⟨c.nameCache, Function.update c.methodName response.seq none,
      c.out ++ (issue (responseCalls methodName response conn)).1⟩,
      (issue (responseCalls methodName response conn)).2)

@[simp] lemma signExtend_setWidth (q : BitVec 32) : (q.signExtend 64).setWidth 32 = q := by
  ext i
  simp [BitVec.getLsbD_signExtend]
  omega

lemma signExtend_inj {q q' : BitVec 32} : q.signExtend 64 = q'.signExtend 64 ↔ q = q' :=
  ⟨fun h => by rw [← signExtend_setWidth q, h, signExtend_setWidth], congrArg _⟩

lemma issue_cons (w : Write) (e : Option String) (l : List (Write × Option String)) :
    ∃ rest, (issue ((w, e) :: l)).1 = w :: rest := by
  cases e <;> exact ⟨_, rfl⟩

lemma registeredName_ne_empty (camelCase : String → String) (name : String) :
    registeredName camelCase name ≠ "" := by
  unfold registeredName
  split
  · rintro h
    simp_all
  · intro h
    have h7 : "Thrift.".length = 7 := by decide
    simpa [h7] using congrArg String.length h

lemma dot_mem_registeredName (camelCase : String → String) (name : String) :
    '.' ∈ (registeredName camelCase name).data := by
  unfold registeredName
  split
  · assumption
  · exact List.mem_append_left _ (by decide)

lemma readRequestHeader_call (camelCase : String → String) {c : ServerCodec}
    (hc : ∀ k v, c.nameCache k = some v → v = registeredName camelCase k)
    (wireName : String) (seq : BitVec 32) :
    ∃ cache : String → Option String, (∀ k v, cache k = some v → v = registeredName camelCase k) ∧
      readRequestHeader camelCase c (.ok (wireName, messageTypeCall, seq)) =
        (⟨cache, Function.update c.methodName (seq.signExtend 64) (some wireName), c.out⟩,
          .ok ⟨registeredName camelCase (getWireNameFor wireName), seq.signExtend 64⟩) := by
  cases h : c.nameCache (getWireNameFor wireName) with
  | none =>
    refine ⟨Function.update c.nameCache (getWireNameFor wireName)
      (some (registeredName camelCase (getWireNameFor wireName))), fun k v hk => ?_,
      by simp [readRequestHeader, h]⟩
    rw [Function.update_apply] at hk
    split at hk
    · subst_vars
      exact (Option.some.inj hk).symm
    · exact hc k v hk
  | some v =>
    have hv := hc _ _ h
    exact ⟨c.nameCache, hc, by simp [readRequestHeader, h, hv, registeredName_ne_empty]⟩

lemma writeResponse_of_none {c : ServerCodec} {response : Response} (conn : Conn)
    (h : c.methodName response.seq = none) :
    writeResponse c response conn =
      (c, .error ("rpc: can\x27t find requested seq " ++ toString response.seq.toNat)) := by
  simp [writeResponse, h]

lemma writeResponse_of_some {c : ServerCodec} {response : Response} {n : String} (conn : Conn)
    (h : c.methodName response.seq = some n) :
    (writeResponse c response conn).1 = ⟨c.nameCache, Function.update c.methodName response.seq
      none, c.out ++ (issue (responseCalls n response conn)).1⟩ := by
  simp [writeResponse, h]

lemma writeResponse_out {c : ServerCodec} {response : Response} {n : String} (conn : Conn)
    (h : c.methodName response.seq = some n) : ∃ rest, (writeResponse c response conn).1.out =
      c.out ++ .messageBegin n (reply response).1 (response.seq.setWidth 32) :: rest := by
  obtain ⟨rest, hr⟩ := issue_cons (.messageBegin n (reply response).1 (response.seq.setWidth 32))
    conn.beginErr ((responseCalls n response conn).drop 1)
  exact ⟨rest, by rw [writeResponse_of_some conn h]; exact congrArg _ hr⟩

@[simp] lemma nameCache_writeResponse (c : ServerCodec) (response : Response) (conn : Conn) :
    (writeResponse c response conn).1.nameCache = c.nameCache := by
  unfold writeResponse
  split <;> rfl

lemma methodName_writeResponse (c : ServerCodec) (response : Response) (conn : Conn)
    (y : BitVec 64) : (writeResponse c response conn).1.methodName y =
      if y = response.seq then none else c.methodName y := by
  cases h : c.methodName response.seq with
  | none =>
    rw [writeResponse_of_none conn h]
    split <;> simp_all
  | some n => simp [writeResponse_of_some conn h, Function.update_apply]

section Session

variable (camelCase : String → String)

inductive Call
  | readRequestHeader (msg : Except String (String × UInt8 × BitVec 32))
  | writeResponse (response : Response) (conn : Conn)

structure Session where
  codec : ServerCodec
  pending : List (BitVec 32 × String)

def step (s : Session) : Call → Session
  | .readRequestHeader msg =>
    ⟨(readRequestHeader camelCase s.codec msg).1,
      match msg with
      | .ok (wireName, messageType, seq) =>
        if messageType = messageTypeCall then s.pending ++ [(seq, wireName)] else s.pending
      | .error _ => s.pending⟩
  | .writeResponse response conn =>
    ⟨(writeResponse s.codec response conn).1,
      s.pending.filter fun p => p.1.signExtend 64 ≠ response.seq⟩

def Fresh (s : Session) : Call → Prop
  | .readRequestHeader (.ok (_, messageType, seq)) =>
    messageType = messageTypeCall → seq ∉ s.pending.map Prod.fst
  | _ => True

inductive Reachable : Session → Prop
  | init : Reachable ⟨newServerCodec, []⟩
  | call {s : Session} {c : Call} : Reachable s → Fresh s c → Reachable (step camelCase s c)

structure Inv (s : Session) : Prop where
  methodName : ∀ x n, s.codec.methodName x = some n ↔
    ∃ q, q.signExtend 64 = x ∧ (q, n) ∈ s.pending
  ids : (s.pending.map Prod.fst).Nodup
  nameCache : ∀ k v, s.codec.nameCache k = some v → v = registeredName camelCase k

lemma Inv.init : Inv camelCase ⟨newServerCodec, []⟩ where
  methodName x n := by simp [newServerCodec]
  ids := List.nodup_nil
  nameCache k v h := by simp [newServerCodec] at h

lemma Inv.writeResponse_step {s : Session} (hs : Inv camelCase s) (response : Response) (conn : Conn) :
    Inv camelCase (step camelCase s (.writeResponse response conn)) where
  methodName y n := by
    simp only [step, methodName_writeResponse, List.mem_filter, decide_eq_true_eq]
    split
    · subst_vars
      simp only [reduceCtorEq, false_iff, not_exists, not_and]
      exact fun q hq _ hne => hne hq
    · rw [hs.methodName]
      exact exists_congr fun q => ⟨fun ⟨h1, h2⟩ => ⟨h1, h2, h1 ▸ ‹_›⟩, fun ⟨h1, h2, _⟩ => ⟨h1, h2⟩⟩
  ids := hs.ids.sublist ((List.filter_sublist _).map _)
  nameCache k v h := hs.nameCache k v (by simpa [step] using h)

lemma Inv.readRequestHeader_step {s : Session} (hs : Inv camelCase s)
    {msg : Except String (String × UInt8 × BitVec 32)} (hf : Fresh s (.readRequestHeader msg)) :
    Inv camelCase (step camelCase s (.readRequestHeader msg)) := by
  rcases msg with e | ⟨wireName, messageType, seq⟩
  · exact hs
  by_cases ht : messageType = messageTypeCall
  · subst ht
    obtain ⟨cache, hcache, heq⟩ := readRequestHeader_call camelCase hs.nameCache wireName seq
    have hfresh : seq ∉ s.pending.map Prod.fst := hf rfl
    simp only [step, heq, if_true]
    refine ⟨fun x n => ?_, ?_, hcache⟩
    · simp only [Function.update_apply, List.mem_append, List.mem_singleton, Prod.mk.injEq]
      split
      · subst x
        simp only [signExtend_inj, Option.some.injEq, exists_eq_left, true_and]
        exact ⟨fun h => .inr h.symm,
          fun h => h.elim (fun hm => absurd (List.mem_map_of_mem Prod.fst hm) hfresh) Eq.symm⟩
      · rw [hs.methodName]
        refine exists_congr fun q => and_congr_right fun hq => ?_
        exact ⟨.inl, fun h => h.resolve_right fun h' => by simp_all⟩
    · simpa [List.nodup_append, hs.ids] using hfresh
  · simpa [step, readRequestHeader, ht] using hs

theorem Reachable.inv {s : Session} (h : Reachable camelCase s) : Inv camelCase s := by
  induction h with
  | init => exact Inv.init camelCase
  | @call s c _ hf ih =>
    cases c with
    | readRequestHeader msg => exact ih.readRequestHeader_step camelCase hf
    | writeResponse response conn => exact ih.writeResponse_step camelCase response conn

theorem writeResponse_answers_pending {s : Session} (hs : Reachable camelCase s)
    (response : Response) (conn : Conn) :
    (∀ wireName seq, (readRequestHeader camelCase s.codec (.ok (wireName, messageTypeCall, seq))).2 =
      .ok ⟨registeredName camelCase (getWireNameFor wireName), seq.signExtend 64⟩) ∧
    (∀ q n, (q, n) ∈ s.pending → q.signExtend 64 = response.seq →
      ∃ rest, (writeResponse s.codec response conn).1.out =
        s.codec.out ++ .messageBegin n (reply response).1 q :: rest) ∧
    ((∀ p ∈ s.pending, p.1.signExtend 64 ≠ response.seq) →
      writeResponse s.codec response conn =
        (s.codec, .error ("rpc: can\x27t find requested seq " ++ toString response.seq.toNat))) := by
  have hi := hs.inv
  refine ⟨fun wireName seq => ?_, fun q n hq hx => ?_, fun hp => writeResponse_of_none conn ?_⟩
  · obtain ⟨_, _, h⟩ := readRequestHeader_call camelCase hi.nameCache wireName seq
    rw [h]
  · have hn : s.codec.methodName response.seq = some n := (hi.methodName _ _).mpr ⟨q, hx, hq⟩
    simpa only [← hx, signExtend_setWidth] using writeResponse_out conn hn
  · cases h : s.codec.methodName response.seq with
    | none => rfl
    | some n =>
      obtain ⟨q, hx, hq⟩ := (hi.methodName _ _).mp h
      exact absurd hx (hp _ hq)

theorem Reachable.dispatches_dotted {s : Session} (hs : Reachable camelCase s)
    (msg : Except String (String × UInt8 × BitVec 32)) {req : Request}
    (h : (readRequestHeader camelCase s.codec msg).2 = .ok req) : '.' ∈ req.serviceMethod.data := by
  rcases msg with e | ⟨wireName, messageType, seq⟩
  · cases h
  by_cases ht : messageType = messageTypeCall
  · subst ht
    obtain ⟨_, _, heq⟩ := readRequestHeader_call camelCase (Reachable.inv camelCase hs).nameCache wireName seq
    rw [heq] at h
    cases h
    exact dot_mem_registeredName camelCase _
  · simp [readRequestHeader, ht] at h

end Session

def reliableConn : Conn := ⟨none, none, none, none⟩

theorem getSplits_dispatched_dotted :
    (readRequestHeader (fun _ => "GetSplits") newServerCodec
        (.ok ("trino.getSplits", messageTypeCall, 3))).2 = .ok ⟨"Thrift.GetSplits", 3⟩ ∧
      '.' ∈ "Thrift.GetSplits".data :=
  ⟨rfl, Reachable.dispatches_dotted (fun _ => "GetSplits") .init
    (.ok ("trino.getSplits", messageTypeCall, 3)) rfl⟩

def negativeIdSession : Session :=
  step id ⟨newServerCodec, []⟩ (.readRequestHeader (.ok ("trino.getSplits", messageTypeCall, -3)))

lemma reachable_negativeIdSession : Reachable id negativeIdSession :=
  .call .init fun _ => List.not_mem_nil _

theorem negative_id_response_answers_request :
    Reachable id negativeIdSession ∧
    ((∀ wireName seq, (readRequestHeader id negativeIdSession.codec
      (.ok (wireName, messageTypeCall, seq))).2 =
        .ok ⟨registeredName id (getWireNameFor wireName), seq.signExtend 64⟩) ∧
    (∀ q n, (q, n) ∈ negativeIdSession.pending → q.signExtend 64 = (-3 : BitVec 32).signExtend 64 →
      ∃ rest, (writeResponse negativeIdSession.codec ⟨(-3 : BitVec 32).signExtend 64, ""⟩
        reliableConn).1.out = negativeIdSession.codec.out ++
          .messageBegin n (reply ⟨(-3 : BitVec 32).signExtend 64, ""⟩).1 q :: rest) ∧
    ((∀ p ∈ negativeIdSession.pending, p.1.signExtend 64 ≠ (-3 : BitVec 32).signExtend 64) →
      writeResponse negativeIdSession.codec ⟨(-3 : BitVec 32).signExtend 64, ""⟩ reliableConn =
        (negativeIdSession.codec, .error ("rpc: can\x27t find requested seq " ++
          toString ((-3 : BitVec 32).signExtend 64).toNat)))) :=
  ⟨reachable_negativeIdSession,
    writeResponse_answers_pending id reachable_negativeIdSession
      ⟨(-3 : BitVec 32).signExtend 64, ""⟩ reliableConn⟩

def reusedIdSession : Session :=
  step id (step id (step id ⟨newServerCodec, []⟩
    (.readRequestHeader (.ok ("trino.getSplits", messageTypeCall, 5))))
    (.writeResponse ⟨5, ""⟩ reliableConn))
    (.readRequestHeader (.ok ("trino.getRows", messageTypeCall, 5)))

theorem repeated_response_answers_later_request :
    Reachable id reusedIdSession ∧
    (writeResponse reusedIdSession.codec ⟨5, ""⟩ reliableConn).2 = .ok () ∧
    (writeResponse reusedIdSession.codec ⟨5, ""⟩ reliableConn).1.out =
      [.messageBegin "trino.getSplits" messageTypeReply 5, .struct .result, .messageEnd, .flush,
        .messageBegin "trino.getRows" messageTypeReply 5, .struct .result, .messageEnd, .flush] :=
  ⟨.call (.call (.call .init fun _ => List.not_mem_nil _) trivial) fun _ => by decide, rfl, by decide⟩

end Talaria.Presto
