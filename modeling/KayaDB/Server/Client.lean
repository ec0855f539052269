import KayaDB.Raft.CommandTrip
import KayaDB.Raft.RangeTable
import KayaDB.Server.Isolation

/-! The client's side of a request. Optional headers, told by their first bytes,
stand before the payload, and a request goes out again while the server redirects
it. -/

namespace KayaDB.Client
open Raft Readers Server

/-- The bytes of `CLIENT` and a zero. -/
def clientAuthPrefix : Bytes := [67, 76, 73, 69, 78, 84, 0]

/-- The bytes of `MEPO`. -/
def metaEpochPrefix : Bytes := [77, 69, 80, 79]

def asBytes (text : String) : Bytes := text.toByteArray.data.toList

def encodeClientAuthPayload (inner : Bytes) : Option String → Bytes
  | some tok => clientAuthPrefix ++ (toLeBytes 2 (asBytes tok).length ++ (asBytes tok ++ inner))
  | none => inner

def decodeClientAuthPayload (data : Bytes) : Except String (Bytes × Option String) :=
  if clientAuthPrefix <+: data then
    let cur := data.drop clientAuthPrefix.length
    if cur.length < 2 then .error "truncated client auth token length"
    else
      let tlen := fromLeBytes (cur.take 2)
      let cur := cur.drop 2
      if cur.length < tlen then .error "truncated client auth token"
      else
        match String.fromUTF8? ⟨(cur.take tlen).toArray⟩ with
        | some tok => .ok (cur.drop tlen, some tok)
        | none => .error "invalid utf-8 in client token"
  else .ok (data, none)

def encodeMetaEpochPayload (inner : Bytes) (metaEpoch : UInt64) : Bytes :=
  metaEpochPrefix ++ (u64Bytes metaEpoch ++ inner)

def decodeMetaEpochPayload (data : Bytes) : Bytes × Option UInt64 :=
  if metaEpochPrefix.length + 8 ≤ data.length ∧ metaEpochPrefix <+: data then
    (data.drop 12, some (UInt64.ofNat (fromLeBytes ((data.drop 4).take 8))))
  else (data, none)

def takesToken (opcode : UInt8) : Bool := 1 ≤ opcode && opcode ≤ 4 || opcode == 6 || 9 ≤ opcode && opcode ≤ 17

def takesEpoch (opcode : UInt8) : Bool := 1 ≤ opcode && opcode ≤ 4

/-- A client with the epoch of its range cache, if it has one. -/
structure KayaClient where
  addr : Nat
  maxRedirects : Nat
  maxAttempts : Nat
  clientToken : Option String
  metaEpoch : Option UInt64

def KayaClient.attached (client : KayaClient) (opcode : UInt8) : Option UInt64 :=
  if takesEpoch opcode then client.metaEpoch else none

def withEpoch (payload : Bytes) : Option UInt64 → Bytes
  | some epoch => encodeMetaEpochPayload payload epoch
  | none => payload

def KayaClient.wirePayload (client : KayaClient) (opcode : UInt8) (payload : Bytes) : Bytes :=
  let payload := withEpoch payload (client.attached opcode)
  if takesToken opcode then encodeClientAuthPayload payload client.clientToken else payload

def peel (opcode : UInt8) (payload : Bytes) : Except String (Option String × Option UInt64 × Bytes) := do
  let (payload, presented) ← if takesToken opcode then decodeClientAuthPayload payload else .ok (payload, none)
  let (payload, clientMetaEpoch) := decodeMetaEpochPayload payload
  .ok (presented, clientMetaEpoch, payload)

inductive Request where
  | put (key value : Bytes)
  | get (key : Bytes)
  | delete (key : Bytes)
  | scan (front : Bytes)
  | txnBegin
  | txnOp (txnId : UInt64) (op : TxnOp) (key : Bytes) (value : Option Bytes)
  | txnCommit (txnId : UInt64)
  | txnRollback (txnId : UInt64)
  | cdcPoll (consumerId : String) (fromSeq : UInt64) (limit : Nat)
  | cdcCheckpoint (consumerId : String)
  | listRanges
  | splitRange (splitKey : Bytes)
  | mergeRange (leftStart : Bytes)

def Request.opcode : Request → UInt8
  | .put .. => 1
  | .get .. => 2
  | .delete .. => 3
  | .scan .. => 4
  | .txnBegin => 9
  | .txnOp .. => 10
  | .txnCommit .. => 11
  | .txnRollback .. => 12
  | .cdcPoll .. => 13
  | .cdcCheckpoint .. => 14
  | .listRanges => 15
  | .splitRange .. => 16
  | .mergeRange .. => 17

def encodeTxnOpPayload (txnId : UInt64) (op : TxnOp) (key : Bytes) (value : Option Bytes) : Bytes :=
  u64Bytes txnId ++ match op with
    | .get => 1 :: pushBytes key
    | .put => 2 :: (pushBytes key ++ pushBytes (value.getD []))
    | .delete => 3 :: pushBytes key

def encodeConsumerId (consumerId : String) : Bytes :=
  toLeBytes 2 (asBytes consumerId).length ++ asBytes consumerId

def Request.payload : Request → Bytes
  | .put key value => u32Bytes key.length ++ u32Bytes value.length ++ key ++ value
  | .get key | .delete key | .scan key | .splitRange key | .mergeRange key => pushBytes key
  | .txnBegin | .listRanges => []
  | .txnOp txnId op key value => encodeTxnOpPayload txnId op key value
  | .txnCommit txnId | .txnRollback txnId => u64Bytes txnId
  | .cdcPoll consumerId fromSeq limit => encodeConsumerId consumerId ++ u64Bytes fromSeq ++ u32Bytes limit
  | .cdcCheckpoint consumerId => encodeConsumerId consumerId

/-- No header is taken for part of the payload or the other way round. -/
structure Clear (client : KayaClient) (opcode : UInt8) (payload : Bytes) : Prop where
  short : ∀ tok ∈ client.clientToken, (asBytes tok).length < 2 ^ 16
  noToken : client.clientToken = none → client.attached opcode = none → ¬ clientAuthPrefix <+: payload
  noEpoch : client.attached opcode = none →
    ¬ (metaEpochPrefix.length + 8 ≤ payload.length ∧ metaEpochPrefix <+: payload)

section
variable {data inner rest payload : Bytes} {tok : String} {token : Option String} {epoch : Option UInt64}
  {opcode : UInt8}

theorem decode_encodeClientAuth (short : (asBytes tok).length < 2 ^ 16) (inner : Bytes) :
    decodeClientAuthPayload (encodeClientAuthPayload inner (some tok)) = .ok (inner, some tok) := by
  have valid : String.fromUTF8? ⟨(asBytes tok).toArray⟩ = some tok := dif_pos tok.isValidUTF8
  unfold decodeClientAuthPayload encodeClientAuthPayload
  rw [if_pos (List.prefix_append _ _), List.drop_left' rfl]
  dsimp only
  rw [if_neg (by rw [List.length_append, length_toLeBytes]; omega), fromLeBytes_take (by simpa using short),
    drop_toLeBytes, if_neg (by simp), List.take_left' rfl, List.drop_left' rfl, valid]

theorem token_short (decoded : decodeClientAuthPayload data = .ok (rest, some tok)) :
    (asBytes tok).length < 2 ^ 16 := by
  unfold decodeClientAuthPayload at decoded
  split at decoded
  · dsimp only at decoded
    split at decoded
    · cases decoded
    split at decoded
    · cases decoded
    split at decoded
    next found =>
      cases decoded
      unfold String.fromUTF8? at found
      split at found
      · cases found
        have bound := fromLeBytes_lt ((data.drop clientAuthPrefix.length).take 2)
        have most : 256 ^ ((data.drop clientAuthPrefix.length).take 2).length ≤ 256 ^ 2 :=
          Nat.pow_le_pow_right (by decide) (List.length_take_le _ _)
        refine Nat.lt_of_le_of_lt ?_ (Nat.lt_of_lt_of_le bound most)
        exact List.length_take_le _ _
      · cases found
    next => cases decoded
  · cases decoded

theorem decodeClientAuth_none :
    decodeClientAuthPayload data = .ok (rest, none) ↔ data = rest ∧ ¬ clientAuthPrefix <+: data := by
  unfold decodeClientAuthPayload
  split
  next present =>
    refine iff_of_false (fun decoded => ?_) fun absent => absent.2 present
    dsimp only at decoded
    split at decoded
    · cases decoded
    split at decoded
    · cases decoded
    split at decoded <;> cases decoded
  next absent => simp [absent]

theorem decode_withEpoch : decodeMetaEpochPayload (withEpoch inner epoch) = (inner, epoch) ↔
    (epoch = none → ¬ (metaEpochPrefix.length + 8 ≤ inner.length ∧ metaEpochPrefix <+: inner)) := by
  unfold decodeMetaEpochPayload withEpoch encodeMetaEpochPayload
  cases epoch with
  | none => split <;> simp_all
  | some epoch =>
    have size : (u64Bytes epoch).length = 8 := length_toLeBytes _ _
    have small : epoch.toNat < 256 ^ 8 := by simpa using epoch.toNat_lt
    dsimp only
    have past : (metaEpochPrefix ++ (u64Bytes epoch ++ inner)).drop 12 = inner := by
      rw [← List.append_assoc, List.drop_left' (by rw [List.length_append, size]; rfl)]
    have mark : metaEpochPrefix.length = 4 := rfl
    rw [if_pos ⟨by simp [size], List.prefix_append _ _⟩, past, List.drop_left' mark, u64Bytes, fromLeBytes_take small,
      UInt64.ofNat_toNat]
    simp

theorem not_clientAuth_withEpoch (some_ : epoch ≠ none) : ¬ clientAuthPrefix <+: withEpoch inner epoch := by
  cases epoch with
  | none => exact absurd rfl some_
  | some epoch =>
    intro shared
    exact absurd (List.cons_prefix_cons.mp shared).1 (by decide)

theorem decodeClientAuth_withEpoch :
    decodeClientAuthPayload (encodeClientAuthPayload (withEpoch inner epoch) token) = .ok (rest, token) ↔
      withEpoch inner epoch = rest ∧ (∀ tok ∈ token, (asBytes tok).length < 2 ^ 16) ∧
        (token = none → epoch = none → ¬ clientAuthPrefix <+: inner) := by
  cases token with
  | none =>
    rw [encodeClientAuthPayload, decodeClientAuth_none]
    cases epoch with
    | none => simp [withEpoch]
    | some epoch => simp [not_clientAuth_withEpoch]
  | some tok =>
    by_cases short : (asBytes tok).length < 2 ^ 16
    · rw [decode_encodeClientAuth short]
      simpa using fun _ => short
    · refine iff_of_false (fun decoded => short (token_short decoded)) ?_
      exact fun clear => short (clear.2.1 tok rfl)

theorem peel_eq_ok (takes : takesToken opcode = true) : peel opcode payload = .ok (token, epoch, inner) ↔
    ∃ rest, decodeClientAuthPayload payload = .ok (rest, token) ∧ decodeMetaEpochPayload rest = (inner, epoch) := by
  rw [peel, if_pos takes, bind_eq_ok]
  constructor
  · rintro ⟨⟨rest, presented⟩, decoded, same⟩
    cases same
    exact ⟨rest, decoded, rfl⟩
  · rintro ⟨rest, decoded, same⟩
    exact ⟨(rest, token), decoded, by simp [same]⟩

end

theorem Request.takesToken_opcode (request : Request) : takesToken request.opcode = true := by
  cases request <;> rfl

/-- The server takes off what the client put on, and leaves the payload, exactly when
the token's length fits its two bytes and the payload does not itself begin with a
header that is absent. -/
theorem peel_wirePayload_iff (client : KayaClient) (request : Request) :
    peel request.opcode (client.wirePayload request.opcode request.payload) =
        .ok (client.clientToken, client.attached request.opcode, request.payload) ↔
      Clear client request.opcode request.payload := by
  rw [KayaClient.wirePayload, if_pos request.takesToken_opcode, peel_eq_ok request.takesToken_opcode]
  constructor
  · rintro ⟨rest, decoded, peeled⟩
    obtain ⟨rfl, short, noToken⟩ := decodeClientAuth_withEpoch.mp decoded
    exact ⟨short, noToken, decode_withEpoch.mp peeled⟩
  · intro clear
    exact ⟨_, decodeClientAuth_withEpoch.mpr ⟨rfl, clear.short, clear.noToken⟩, decode_withEpoch.mpr clear.noEpoch⟩

def markedId : UInt64 := 0x544E45494C43

theorem marked_commit_is_refused :
    let client : KayaClient := ⟨0, 3, 1, none, none⟩
    peel (Request.txnCommit markedId).opcode (client.wirePayload 11 (Request.txnCommit markedId).payload) =
        .error "truncated client auth token length" ∧
      peel (Request.txnCommit markedId).opcode (client.wirePayload 11 (Request.txnCommit markedId).payload) ≠
        .ok (none, none, (Request.txnCommit markedId).payload) := by
  have refused : peel 11 (KayaClient.wirePayload ⟨0, 3, 1, none, none⟩ 11 (Request.txnCommit markedId).payload) =
      .error "truncated client auth token length" := by rfl
  refine ⟨refused, fun accepted => ?_⟩
  cases refused.symm.trans accepted

/-- A request as the server finds it behind its headers. -/
structure Framed where
  request : KeyedRequest
  token : Option String
  epoch : Option UInt64

/-- With a redirect there may be an address, with a moved range the list of ranges. -/
structure Answer where
  reply : Reply
  hint : Option Nat
  body : Option (UInt64 × List StaticRange)
deriving DecidableEq

def KayaClient.frame (client : KayaClient) (request : KeyedRequest) : Framed :=
  ⟨request, client.clientToken, if request.carriesEpoch then client.metaEpoch else none⟩

/-- The epoch of the cache after a list of ranges; its ranges play no part in requests. -/
def applyRangeMoved (cached : Option UInt64) (metaEpoch : UInt64) : UInt64 :=
  match cached with
  | some epoch => if epoch < metaEpoch then metaEpoch else epoch
  | none => metaEpoch

section
variable (roundtrip : Nat → Nat → Framed → Except String Answer) (wire : Framed)

/-- The same bytes go out each time. Roundtrips are counted, since what one brings may
change with time. -/
def sendLoop (client : KayaClient) (transportAttempts redirects rangeMoved : Nat) :
    KayaClient × Except String Answer :=
  match roundtrip (transportAttempts + redirects + rangeMoved) client.addr wire with
  | .ok answer =>
    if answer.reply = .notLeader then
      if client.maxRedirects ≤ redirects then (client, .ok answer)
      else sendLoop { client with addr := answer.hint.getD client.addr } transportAttempts (redirects + 1) rangeMoved
    else if answer.reply = .rangeMoved then
      match answer.body with
      | none => (client, .ok answer)
      | some (metaEpoch, _) =>
        if client.maxRedirects ≤ rangeMoved then
          ({ client with metaEpoch := some (applyRangeMoved client.metaEpoch metaEpoch) }, .ok answer)
        else
          sendLoop { client with metaEpoch := some (applyRangeMoved client.metaEpoch metaEpoch) } transportAttempts
            redirects (rangeMoved + 1)
    else (client, .ok answer)
  | .error reason =>
    if client.maxAttempts ≤ transportAttempts + 1 then
      (client, .error (s!"Cluster request failed after {transportAttempts + 1} attempt(s) and {redirects} redirect(s). "
        ++ s!"Last error: {reason}"))
    else sendLoop client (transportAttempts + 1) redirects rangeMoved
termination_by client.maxAttempts - transportAttempts + (client.maxRedirects - redirects) +
  (client.maxRedirects - rangeMoved)

def sendWithRetry (client : KayaClient) (request : KeyedRequest) : KayaClient × Except String Answer :=
  sendLoop roundtrip (client.frame request) client 0 0 0

end

/-- A server that stays as it is. -/
structure Node where
  config : AccessConfig
  view : NodeView
  store : Store
  metaEpoch : UInt64
  ranges : List StaticRange
  hint : Option Nat

/-- A stale cache is answered with all ranges, a group that is elsewhere with the key's. -/
def Node.answer (node : Node) (framed : Framed) : Answer :=
  let stale := framed.epoch.any (· < node.metaEpoch)
  let reply := (dispatch node.config { node.view with stale := stale } node.store (framed.token.map asBytes)
    (.keyed framed.request)).reply
  ⟨reply, if reply = .notLeader then node.hint else none,
    if reply = .rangeMoved then
      some (node.metaEpoch, if stale then node.ranges else (node.ranges.find? (·.contains framed.request.front)).toList)
    else none⟩

theorem sendLoop_same {roundtrip : Nat → Nat → Framed → Except String Answer} {wire : Framed} {answer : Answer}
    (same : ∀ count addr, roundtrip count addr wire = .ok answer) (client : KayaClient)
    (transportAttempts redirects rangeMoved : Nat) :
    (sendLoop roundtrip wire client transportAttempts redirects rangeMoved).2 = .ok answer := by
  fun_induction sendLoop roundtrip wire client transportAttempts redirects rangeMoved <;> grind

theorem clientRefused_answer {node : Node} {framed : Framed}
    (refused : ¬ clientAllowed node.config (framed.token.map asBytes) = true) :
    node.answer framed = ⟨.error "client credential required or invalid", none, none⟩ := by
  simp [Node.answer, dispatch, Store.refuse, refused]

section
variable {node : Node} (client : KayaClient) {request : KeyedRequest}
  (carries : request.carriesEpoch = true) (allowed : clientAllowed node.config (client.clientToken.map asBytes) = true)
include carries allowed

theorem stale_answer {epoch : UInt64} (cached : client.metaEpoch = some epoch) (older : epoch < node.metaEpoch) :
    node.answer (client.frame request) = ⟨.rangeMoved, none, some (node.metaEpoch, node.ranges)⟩ := by
  simp [Node.answer, KayaClient.frame, dispatch, handle, Store.refuse, cached, carries, older, allowed]

theorem current_answer (current : client.metaEpoch = some node.metaEpoch) :
    node.answer (client.frame request) = ⟨.rangeMoved, none, some (node.metaEpoch, node.ranges)⟩ ↔
      (handleKeyed node.config { node.view with stale := false } node.store (client.clientToken.map asBytes)
        request).reply = .rangeMoved ∧ (node.ranges.find? (·.contains request.front)).toList = node.ranges := by
  simp only [Node.answer, KayaClient.frame, dispatch, handle, current, carries, allowed, Option.any_some, reduceIte,
    Bool.and_false, Bool.false_eq_true, UInt64.lt_irrefl, decide_false]
  generalize (handleKeyed node.config _ node.store _ request).reply = reply
  by_cases moved : reply = .rangeMoved
  · simp [moved]
  · simp [moved]

end

/-- A request with a stale cache ends like one with the server's epoch exactly when
the token is refused, or the server has one range only and its group is elsewhere. -/
theorem stale_cache_heals_iff {roundtrip : Nat → Nat → Framed → Except String Answer} {node : Node}
    (answers : ∀ count addr framed, roundtrip count addr framed = .ok (node.answer framed))
    {client : KayaClient} {epoch : UInt64} (cached : client.metaEpoch = some epoch) (older : epoch < node.metaEpoch)
    {request : KeyedRequest} (carries : request.carriesEpoch = true) :
    (sendWithRetry roundtrip client request).2 =
        (sendWithRetry roundtrip { client with metaEpoch := some node.metaEpoch } request).2 ↔
      ¬ clientAllowed node.config (client.clientToken.map asBytes) = true ∨
        (handleKeyed node.config { node.view with stale := false } node.store (client.clientToken.map asBytes)
          request).reply = .rangeMoved ∧ (node.ranges.find? (·.contains request.front)).toList = node.ranges := by
  rw [sendWithRetry, sendWithRetry, sendLoop_same (fun count addr => answers count addr _),
    sendLoop_same (fun count addr => answers count addr _), Except.ok.injEq]
  by_cases allowed : clientAllowed node.config (client.clientToken.map asBytes) = true
  · rw [stale_answer client carries allowed cached older, eq_comm,
      current_answer { client with metaEpoch := some node.metaEpoch } carries allowed rfl]
    simp [allowed]
  · rw [clientRefused_answer allowed, clientRefused_answer allowed]
    simp [allowed]

def splitNode : Node where
  config := ⟨none, none, none⟩
  view := .leading
  store := nestedStore
  metaEpoch := 2
  ranges := [⟨[], [109], 0, 1, 2⟩, ⟨[109], [], 1, 2, 2⟩]
  hint := none

def securedNode : Node := { splitNode with config := ⟨none, none, some [115]⟩ }

theorem stale_cache_heals_iff_without_token :
    (sendWithRetry (fun _ _ framed => .ok (securedNode.answer framed)) ⟨0, 3, 1, none, some 1⟩ (.put [1] [2])).2 =
      (sendWithRetry (fun _ _ framed => .ok (securedNode.answer framed)) ⟨0, 3, 1, none, some 2⟩ (.put [1] [2])).2 :=
  (stale_cache_heals_iff (fun _ _ _ => rfl) rfl (by decide) rfl).mpr (Or.inl (by decide))

theorem stale_put_is_refused :
    let roundtrip := fun (_ _ : Nat) framed => Except.ok (splitNode.answer framed)
    (sendWithRetry roundtrip ⟨0, 3, 1, none, some 1⟩ (.put [1] [2])).2 =
        .ok ⟨.rangeMoved, none, some (2, splitNode.ranges)⟩ ∧
      (sendWithRetry roundtrip ⟨0, 3, 1, none, some 2⟩ (.put [1] [2])).2 = .ok ⟨.ok, none, none⟩ := by
  intro roundtrip
  rw [sendWithRetry, sendWithRetry, sendLoop_same fun _ _ => rfl, sendLoop_same fun _ _ => rfl]
  exact ⟨by rfl, by rfl⟩

end KayaDB.Client
