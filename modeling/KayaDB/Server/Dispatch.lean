import KayaDB.Server.Acl
import KayaDB.Storage.Cdc
import KayaDB.Storage.Transactions

/-! What a node answers to the requests that read or write keys. Requests are taken
after decoding, and the answers of the Raft layer at that moment are given; the
text of hints and range lists, which hold no key with its value, is left out. -/

namespace KayaDB.Server
open Raft (Bytes)
open Storage Ascii

/-- An engine with its transactions and its change feed. -/
structure Store where
  db : TxnEngine
  enableCdc : Bool
  cdc : CdcState
  files : CdcFiles

def Store.feed (store : Store) : CdcEngine := ⟨store.db.engine, store.enableCdc, store.cdc, store.files⟩

inductive TxnOp where
  | get
  | put
  | delete
deriving DecidableEq, Repr

/-- Requests that carry a key or a front of keys. -/
inductive KeyedRequest where
  | put (key value : Bytes)
  | get (key : Bytes)
  | delete (key : Bytes)
  | scan (front : Bytes)
  | txnOp (txnId : UInt64) (op : TxnOp) (key : Bytes) (value : Option Bytes)
deriving DecidableEq, Repr

inductive Request where
  | keyed (request : KeyedRequest)
  | cdcPoll (consumerId : Text) (fromSeq : UInt64) (limit : Nat)
deriving DecidableEq, Repr

inductive Reply where
  | ok
  | value (value : Bytes)
  | rows (rows : List (Bytes × Bytes))
  | events (events : List CdcEvent)
  | notFound
  | error (message : String)
  | invalidArgument (message : String)
  | notLeader
  | rangeMoved
  | txnConflict
deriving DecidableEq, Repr

/-- What the rest of the node says while a request is served: whether the client's
range cache is stale, whether the key's group has gone elsewhere, what the read
fence and the proposal give, and whether the node leads the first group. -/
structure NodeView where
  stale : Bool
  moved : Bool
  fence : Except String Unit
  proposal : Reply
  leader : Bool

/-- An answer with the store it leaves, and the keys that were read, staged or
proposed for it. -/
structure Served where
  store : Store
  reply : Reply
  touched : List Bytes

def mapTxnErr : TxnError → Reply
  | .txnConflict => .txnConflict
  | .failed message => .invalidArgument message

def Store.refuse (store : Store) (reply : Reply) : Served := ⟨store, reply, []⟩

section Handlers
variable (config : AccessConfig) (view : NodeView) (store : Store) (presented : Option Text)

def withKey (key : Bytes) (handle : Served) : Served :=
  match denyKey config.acl config.tenants key presented with
  | some message => store.refuse (.error message)
  | none => handle

def fenced (handle : Served) : Served :=
  if view.moved then store.refuse .rangeMoved
  else
    match view.fence with
    | .ok () => handle
    | .error message => store.refuse (if message = "not_leader" then .notLeader else .error message)

def handleGet (key : Bytes) : Served :=
  ⟨store, match store.db.engine.getInner key .latest with
    | some value => .value value
    | none => .notFound, [key]⟩

def handleScan (front : Bytes) : Served :=
  ⟨store, match store.db.engine.scanPrefixInner front none .latest with
    | .ok rows => .rows rows
    | .error message => .invalidArgument message,
    (store.db.engine.scanEntries front ReadTimestamp.latest.asNat).map Versions.Entry.key⟩

/-- A proposal goes to the log, or to nowhere if the group has moved. -/
def handleProposal (key : Bytes) : Served :=
  if view.moved then store.refuse .rangeMoved else ⟨store, view.proposal, [key]⟩

def staged (key : Bytes) (result : TxnEngine × Except TxnError Unit) : Served :=
  ⟨{ store with db := result.1 }, match result.2 with
    | .ok () => .ok
    | .error reason => mapTxnErr reason, [key]⟩

def handleTxnOp (txnId : UInt64) (op : TxnOp) (key : Bytes) (value : Option Bytes) : Served :=
  if ¬ view.leader then store.refuse .notLeader
  else
    match op, value with
    | .get, _ =>
      ⟨store, match store.db.txnGet txnId key with
        | .ok (some value) => .value value
        | .ok none => .notFound
        | .error reason => mapTxnErr reason, [key]⟩
    | .put, none => store.refuse (.invalidArgument "TXN_OP put missing value")
    | .put, some value => staged store key (store.db.txnPut txnId key value)
    | .delete, _ => staged store key (store.db.txnDelete txnId key)

def handleCdcPoll (consumerId : Text) (fromSeq : UInt64) (limit : Nat) : Served :=
  if ¬ view.leader then store.refuse .notLeader
  else
    match store.feed.cdcSubscribe consumerId (some fromSeq.toNat) with
    | .error message => store.refuse (.invalidArgument message)
    | .ok cursor =>
      match store.feed.cdcPoll cursor limit with
      | .error message => store.refuse (.error message)
      | .ok (after, _, events) => ⟨{ store with cdc := after.cdc }, .events events, events.map CdcEvent.key⟩

def handleKeyed : KeyedRequest → Served
  | .put key _ | .delete key => withKey config store presented key (handleProposal view store key)
  | .get key => withKey config store presented key (fenced view store (handleGet store key))
  | .scan front => withKey config store presented front (fenced view store (handleScan store front))
  | .txnOp txnId op key value => withKey config store presented key (handleTxnOp view store txnId op key value)

/-- Requests whose range cache is compared with the table's epoch. -/
def KeyedRequest.carriesEpoch : KeyedRequest → Bool
  | .txnOp .. => false
  | _ => true

def handle : Request → Served
  | .keyed request =>
    if request.carriesEpoch && view.stale then store.refuse .rangeMoved
    else handleKeyed config view store presented request
  | .cdcPoll consumerId fromSeq limit =>
    match denyToken config.acl config.tenants presented with
    | some message => store.refuse (.error message)
    | none => handleCdcPoll view store consumerId fromSeq limit

def clientAllowed : Bool := config.clientToken.all fun expected => presented = some expected

def dispatch (request : Request) : Served :=
  if clientAllowed config presented then handle config view store presented request
  else store.refuse (.error "client credential required or invalid")

end Handlers

/-- The keys whose value, or whose change, is in a reply. -/
def Request.returned : Request → Reply → List Bytes
  | .keyed (.get key), .value _ | .keyed (.txnOp _ .get key _), .value _ => [key]
  | .keyed (.scan _), .rows rows => rows.map Prod.fst
  | .cdcPoll _ _ _, .events events => events.map CdcEvent.key
  | _, _ => []

end KayaDB.Server
