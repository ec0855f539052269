import KayaDB.Server.Dispatch

/-! What a node gives out and to whom. Keyed requests stay under the front that was
checked, which keeps tenants apart. The prefix list is asked about the front of a
scan and not about the keys found, and not at all about the keys of a change feed. -/

namespace KayaDB.Server
open Raft (Bytes)
open Storage Ascii Versions

section Scans
variable {engine : Engine} {front key value : Bytes} {ts : Nat} {readAt : ReadTimestamp} {limit : Option Nat}
  {rows : List (Bytes × Bytes)} {entry : SstEntry}

theorem mem_scanEntries (inside : entry ∈ engine.scanEntries front ts) :
    entry ∈ engine.sources.flatten ∧ front <+: entry.key := by
  rw [Engine.mem_sources]
  rcases List.mem_append.mp inside with tabled | fresh
  · obtain ⟨table, member, held⟩ := List.mem_flatMap.mp tabled
    obtain ⟨starts, top⟩ := (Sstable.mem_scanFrom table.sorted).mp held
    exact ⟨Or.inr ⟨table, List.mem_reverse.mp member, top.mem⟩, starts⟩
  · obtain ⟨here, starts⟩ := (Memtable.mem_rawScanPrefix _ _ _).mp (List.mem_filter.mp fresh).1
    exact ⟨Or.inl here, starts⟩

theorem mem_scanPrefixInner (scanned : engine.scanPrefixInner front limit readAt = .ok rows) (inside : (key, value) ∈ rows) :
    ∃ entry ∈ engine.scanEntries front readAt.asNat, entry.key = key := by
  unfold Engine.scanPrefixInner at scanned
  split at scanned
  · cases scanned
  · cases scanned
    obtain ⟨row, merged, same⟩ := List.mem_map.mp (History.mem_of_mem_collectRows inside)
    rw [merge_window] at merged
    have found := (merged_merge (engine.scanEntries front readAt.asNat)).mem row (List.mem_of_mem_take merged)
    exact ⟨row, found, congrArg Prod.fst same⟩

end Scans

def Served.keys (request : KeyedRequest) (served : Served) : List Bytes :=
  served.touched ++ Request.returned (.keyed request) served.reply

/-- The key, or the front, that is checked for a request. -/
def KeyedRequest.front : KeyedRequest → Bytes
  | .put key _ | .get key | .delete key | .txnOp _ _ key _ => key
  | .scan front => front

section Keyed
variable {config : AccessConfig} {view : NodeView} {store : Store} {presented : Option Text} {request : KeyedRequest}
  {reply : Reply} {served : Served} {key front : Bytes}

def Reply.silent : Reply → Bool
  | .value _ | .rows _ | .events _ => false
  | _ => true

/-- Turned away: nothing is touched, and the reply tells of no key. -/
def Served.Refused (served : Served) (store : Store) : Prop := ∃ reply : Reply, reply.silent ∧ served = store.refuse reply

theorem not_returned {request : Request} (silent : reply.silent) : key ∉ request.returned reply := by
  intro given
  cases reply with
  | value => cases silent
  | rows => cases silent
  | events => cases silent
  | _ =>
    unfold Request.returned at given
    split at given <;> contradiction

theorem Served.Refused.not_returned {request : Request} (refused : served.Refused store) :
    key ∉ request.returned served.reply := by
  obtain ⟨reply, silent, rfl⟩ := refused
  exact Server.not_returned silent

theorem Served.Refused.not_mem_keys (refused : served.Refused store) : key ∉ served.keys request := by
  intro inside
  rcases List.mem_append.mp inside with touched | given
  · obtain ⟨reply, -, rfl⟩ := refused
    cases touched
  · exact refused.not_returned given

theorem fenced_cases (view : NodeView) (store : Store) (served : Served) :
    (fenced view store served).Refused store ∨ fenced view store served = served := by
  unfold fenced
  split
  · exact Or.inl ⟨_, rfl, rfl⟩
  · cases view.fence with
    | ok => exact Or.inr rfl
    | error message =>
      refine Or.inl ⟨_, ?_, rfl⟩
      split <;> rfl

def serveKeyed (view : NodeView) (store : Store) : KeyedRequest → Served
  | .put key _ | .delete key => handleProposal view store key
  | .get key => fenced view store (handleGet store key)
  | .scan front => fenced view store (handleScan store front)
  | .txnOp txnId op key value => handleTxnOp view store txnId op key value

theorem handleKeyed_eq : handleKeyed config view store presented request =
    withKey config store presented request.front (serveKeyed view store request) := by
  cases request <;> rfl

theorem dispatch_keyed_cases (config : AccessConfig) (view : NodeView) (store : Store) (presented : Option Text)
    (request : KeyedRequest) : (dispatch config view store presented (.keyed request)).Refused store ∨
      clientAllowed config presented ∧ authorizeKey config.acl config.tenants request.front presented ∧
        dispatch config view store presented (.keyed request) = serveKeyed view store request := by
  unfold dispatch
  split
  next allowed =>
    unfold handle
    dsimp only
    split
    · exact Or.inl ⟨_, rfl, rfl⟩
    · rw [handleKeyed_eq, withKey]
      cases denied : denyKey config.acl config.tenants request.front presented with
      | some message => exact Or.inl ⟨_, rfl, rfl⟩
      | none => exact Or.inr ⟨allowed, denyKey_eq_none.mp denied, rfl⟩
  next => exact Or.inl ⟨_, rfl, rfl⟩

theorem returned_own (single : ∀ front, request ≠ .scan front) (given : key ∈ Request.returned (.keyed request) reply) :
    key = request.front := by
  cases request with
  | scan front => exact absurd rfl (single front)
  | get read =>
    cases reply with
    | value value => exact List.mem_singleton.mp given
    | _ => exact absurd given List.not_mem_nil
  | txnOp txnId op read value =>
    cases op with
    | get =>
      cases reply with
      | value value => exact List.mem_singleton.mp given
      | _ => exact absurd given List.not_mem_nil
    | put => exact absurd given List.not_mem_nil
    | delete => exact absurd given List.not_mem_nil
  | put written value => exact absurd given List.not_mem_nil
  | delete written => exact absurd given List.not_mem_nil

def Served.Behind (request : KeyedRequest) (served : Served) : Prop := ∀ key ∈ served.keys request, request.front <+: key

theorem Served.Refused.behind (refused : served.Refused store) : served.Behind request :=
  fun _ inside => absurd inside refused.not_mem_keys

theorem behind_own (single : ∀ front, request ≠ .scan front) (touched : served.touched = [request.front]) :
    served.Behind request := by
  intro key inside
  unfold Served.keys at inside
  rw [touched] at inside
  rcases List.mem_append.mp inside with here | given
  · rw [List.mem_singleton.mp here]
  · rw [returned_own single given]

theorem behind_fenced (behind : served.Behind request) : (fenced view store served).Behind request := by
  rcases fenced_cases view store served with refused | passed
  · exact refused.behind
  · rw [passed]
    exact behind

theorem behind_handleScan : (handleScan store front).Behind (.scan front) := by
  intro key inside
  rcases List.mem_append.mp inside with touched | given
  · obtain ⟨entry, held, rfl⟩ := List.mem_map.mp touched
    exact (mem_scanEntries held).2
  · simp only [handleScan] at given
    cases scanned : store.db.engine.scanPrefixInner front none .latest with
    | error message =>
      rw [scanned] at given
      exact absurd given List.not_mem_nil
    | ok rows =>
      rw [scanned] at given
      obtain ⟨⟨found, value⟩, row, rfl⟩ := List.mem_map.mp given
      obtain ⟨entry, held, rfl⟩ := mem_scanPrefixInner scanned row
      exact (mem_scanEntries held).2

theorem behind_handleTxnOp {txnId : UInt64} {op : TxnOp} {value : Option Bytes} :
    (handleTxnOp view store txnId op key value).Behind (.txnOp txnId op key value) := by
  unfold handleTxnOp
  split
  · exact Served.Refused.behind ⟨_, rfl, rfl⟩
  · cases op with
    | get => exact behind_own (by simp) rfl
    | put =>
      cases value with
      | none => exact Served.Refused.behind ⟨_, rfl, rfl⟩
      | some value => exact behind_own (by simp) rfl
    | delete => exact behind_own (by simp) rfl

theorem behind_serveKeyed : (serveKeyed view store request).Behind request := by
  cases request with
  | put written value | delete written =>
    unfold serveKeyed handleProposal
    dsimp only
    split
    · exact Served.Refused.behind ⟨_, rfl, rfl⟩
    · exact behind_own (by simp) rfl
  | get read => exact behind_fenced (behind_own (by simp) rfl)
  | scan front => exact behind_fenced behind_handleScan
  | txnOp txnId op written value => exact behind_handleTxnOp

theorem dispatch_keyed (inside : key ∈ (dispatch config view store presented (.keyed request)).keys request) :
    request.front <+: key ∧ authorizeKey config.acl config.tenants request.front presented := by
  rcases dispatch_keyed_cases config view store presented request with refused | ⟨-, granted, same⟩
  · exact absurd inside refused.not_mem_keys
  · rw [same] at inside
    exact ⟨behind_serveKeyed key inside, granted⟩

end Keyed

structure Access where
  token : Option Text
  key : Bytes
deriving DecidableEq, Repr

/-- Requests come in; in between the store may become anything, by commands of any
client that are applied, or by a restart. -/
inductive ServerStep where
  | request (view : NodeView) (presented : Option Text) (request : KeyedRequest)
  | change (store : Store)

structure AccessLog where
  store : Store
  accesses : List Access

def AccessLog.step (config : AccessConfig) (log : AccessLog) : ServerStep → AccessLog
  | .request view presented request =>
    let served := dispatch config view log.store presented (.keyed request)
    ⟨served.store, log.accesses ++ (served.keys request).map (⟨presented, ·⟩)⟩
  | .change store => ⟨store, log.accesses⟩

/-- Every access is to a key that the tenants' list allows its token. -/
theorem AccessLog.allowed {config : AccessConfig} {tenants : TenantAcl} (configured : config.tenants = some tenants)
    (steps : List ServerStep) : ∀ {log : AccessLog}, (∀ access ∈ log.accesses, tenants.authorize access.key access.token) →
      ∀ access ∈ (steps.foldl (step config) log).accesses, tenants.authorize access.key access.token := by
  induction steps with
  | nil => exact fun allowed => allowed
  | cons turn steps ih =>
    intro log allowed
    apply ih
    cases turn with
    | change store => exact allowed
    | request view presented request =>
      intro access inside
      rcases List.mem_append.mp inside with old | new
      · exact allowed access old
      · obtain ⟨key, held, rfl⟩ := List.mem_map.mp new
        obtain ⟨behind, authorized⟩ := dispatch_keyed held
        have front := (authorizeKey_eq_true.mp authorized).1 tenants configured
        exact TenantAcl.authorize_mono front behind

/-- A node started with a tenant file gives tenants only what is theirs. -/
theorem tenants_stay_apart {aclFile : Option (List (Text × Text))} {tenantFile : Json} {clientToken : Option Text}
    {config : AccessConfig} (started : AccessConfig.load aclFile (some tenantFile) clientToken = .ok config)
    (store : Store) (steps : List ServerStep) : ∃ tenants, TenantAcl.fromJson tenantFile = .ok tenants ∧
      (∀ access ∈ (steps.foldl (AccessLog.step config) ⟨store, []⟩).accesses,
        ∃ tenant, access.token.bind tenants.byToken = some tenant ∧ tenant.front <+: access.key) ∧
      ∀ one ∈ (steps.foldl (AccessLog.step config) ⟨store, []⟩).accesses,
        ∀ two ∈ (steps.foldl (AccessLog.step config) ⟨store, []⟩).accesses, one.key = two.key →
          one.token.bind tenants.byToken = two.token.bind tenants.byToken := by
  obtain ⟨tenants, loaded, configured⟩ := AccessConfig.tenants_of_load started
  have allowed := @AccessLog.allowed config tenants configured steps ⟨store, []⟩ fun _ none_ => absurd none_ List.not_mem_nil
  refine ⟨tenants, loaded, fun access inside => ?_, fun one here two there same => ?_⟩
  · have authorized := allowed access inside
    unfold TenantAcl.authorize at authorized
    split at authorized
    · cases authorized
    next tenant found => exact ⟨tenant, found, of_decide_eq_true authorized⟩
  · have first := allowed one here
    rw [same] at first
    exact TenantAcl.same_tenant first (allowed two there)

/-- An open engine with the given versions in memory and the given feed. -/
def Store.holding (limits : LimitsConfig) (enableCdc : Bool) (memtable : Memtable) (events : List CdcEvent) : Store :=
  ⟨.start { Engine.fresh { leveledConfig with limits } with memtable } 0, enableCdc, ⟨events, .empty⟩, ⟨.empty, .empty⟩⟩

def NodeView.leading : NodeView := ⟨false, false, .ok (), .ok, true⟩

def tenantEntry (id token front : String) : Json :=
  .object [(ascii "id", .string (ascii id)), (ascii "token", .string (ascii token)), (ascii "prefix", .string (ascii front))]

def twoTenants : Json := .object [(ascii "tenants", .array [tenantEntry "a" "s" "a/", tenantEntry "b" "t" "0x622f"])]

def twoTenantsConfig : AccessConfig :=
  (AccessConfig.load none (some twoTenants) none).toOption.getD ⟨none, none, none⟩

theorem twoTenantsConfig_loads : AccessConfig.load none (some twoTenants) none = .ok twoTenantsConfig := by
  have loads : (AccessConfig.load none (some twoTenants) none).isOk = true := by decide +kernel
  unfold twoTenantsConfig
  cases made : AccessConfig.load none (some twoTenants) none with
  | error message => simp [made, Except.isOk, Except.toBool] at loads
  | ok config => rfl

/-- One tenant reads its own key, scans for it, and asks for a key of the other. -/
def ownAndForeign : List ServerStep :=
  [.request .leading (some (ascii "s")) (.get (ascii "a/1")), .request .leading (some (ascii "s")) (.scan (ascii "a/")),
    .request .leading (some (ascii "s")) (.get (ascii "b/1")), .request .leading (some (ascii "t")) (.delete (ascii "b/1"))]

def sharedStore : Store :=
  .holding ⟨64, 64, 100, 4096⟩ true ((Memtable.new.put (ascii "a/1") [1] 1).put (ascii "b/1") [2] 2) []

theorem tenants_stay_apart_in_ownAndForeign :
    (ownAndForeign.foldl (AccessLog.step twoTenantsConfig) ⟨sharedStore, []⟩).accesses ≠ [] ∧
      ∃ tenants, TenantAcl.fromJson twoTenants = .ok tenants ∧
        (∀ access ∈ (ownAndForeign.foldl (AccessLog.step twoTenantsConfig) ⟨sharedStore, []⟩).accesses,
          ∃ tenant, access.token.bind tenants.byToken = some tenant ∧ tenant.front <+: access.key) ∧
        ∀ one ∈ (ownAndForeign.foldl (AccessLog.step twoTenantsConfig) ⟨sharedStore, []⟩).accesses,
          ∀ two ∈ (ownAndForeign.foldl (AccessLog.step twoTenantsConfig) ⟨sharedStore, []⟩).accesses, one.key = two.key →
            one.token.bind tenants.byToken = two.token.bind tenants.byToken := by
  have accesses : (ownAndForeign.foldl (AccessLog.step twoTenantsConfig) ⟨sharedStore, []⟩).accesses ≠ [] := by
    decide +kernel
  exact ⟨accesses, tenants_stay_apart twoTenantsConfig_loads sharedStore ownAndForeign⟩

def Writable (limits : LimitsConfig) (key : Bytes) : Prop :=
  limits.validateKey key = .ok () ∧ rejectIfSystemKey key = .ok ()

/-- An engine of the given limits holds keys that fit them, and its feed tells of
keys that clients can write. -/
structure Store.Stocked (store : Store) (limits : LimitsConfig) (enableCdc : Bool) : Prop where
  sized : store.db.engine.config.limits = limits
  fed : store.enableCdc = enableCdc
  keys : ∀ entry ∈ store.db.engine.sources.flatten, limits.validateKey entry.key = .ok ()
  events : ∀ event ∈ store.cdc.events, Writable limits event.key ∧ event.seq < 2 ^ 64

namespace AccessConfig

/-- A scan is refused or gives nothing, or no rule beyond its front, of those that
keys are short enough for, is one of another token; a poll is refused or gives
nothing, or all that clients can write is granted to the token. -/
def Covered (config : AccessConfig) (limits : LimitsConfig) (enableCdc : Bool) (presented : Option Text) : Request → Prop
  | .keyed (.scan front) => ¬ clientAllowed config presented ∨
      ¬ authorizeKey config.acl config.tenants front presented ∨ limits.maxKeyLen < front.length ∨
        limits.maxScanResults = 0 ∨ ∀ acl ∈ config.acl, ∀ rule ∈ acl.rules, front <+: rule.1 →
          rule.1.length ≤ limits.maxKeyLen → acl.authorize rule.1 presented
  | .keyed _ => True
  | .cdcPoll consumerId fromSeq limit => ¬ clientAllowed config presented ∨
      ¬ authorizeToken config.acl config.tenants presented ∨ enableCdc = false ∨
        ¬ (validateConsumerId consumerId).isOk ∨ limit = 0 ∨ fromSeq.toNat = 2 ^ 64 - 1 ∨
          ∀ key, Writable limits key → authorizeKey config.acl config.tenants key presented

end AccessConfig

section Covered
variable {config : AccessConfig} {view : NodeView} {store : Store} {presented : Option Text} {limits : LimitsConfig}
  {enableCdc : Bool} {front key : Bytes}
  {rows : List (Bytes × Bytes)} {events : List CdcEvent} {limit : Nat} {fromSeq : UInt64} {consumerId : Text}

theorem length_of_validateKey (valid : limits.validateKey key = .ok ()) : key ≠ [] ∧ key.length ≤ limits.maxKeyLen := by
  unfold LimitsConfig.validateKey at valid
  split at valid
  · cases valid
  next filled =>
    split at valid
    · cases valid
    next short => exact ⟨fun empty => filled (by rw [empty]; rfl), not_lt.mp short⟩

theorem validateKey_of_length (filled : key ≠ []) (short : key.length ≤ limits.maxKeyLen) :
    limits.validateKey key = .ok () := by
  unfold LimitsConfig.validateKey
  rw [if_neg (by simpa using filled), if_neg (by omega)]

theorem authorizeKey_of_front (granted : authorizeKey config.acl config.tenants front presented) (begins : front <+: key)
    (short : key.length ≤ limits.maxKeyLen)
    (nested : ∀ acl ∈ config.acl, ∀ rule ∈ acl.rules, front <+: rule.1 → rule.1.length ≤ limits.maxKeyLen →
      acl.authorize rule.1 presented) : authorizeKey config.acl config.tenants key presented := by
  rw [authorizeKey_eq_true] at granted ⊢
  refine ⟨fun tenants known => TenantAcl.authorize_mono (granted.1 tenants known) begins, fun acl known => ?_⟩
  refine PrefixAcl.authorize_of_front (granted.2 acl known) begins fun rule inside beyond applies => ?_
  exact nested acl known rule inside beyond (applies.length_le.trans short)

theorem scan_returned
    (given : key ∈ Request.returned (.keyed (.scan front)) (dispatch config view store presented (.keyed (.scan front))).reply) :
    clientAllowed config presented ∧ authorizeKey config.acl config.tenants front presented ∧
      ∃ rows, store.db.engine.scanPrefixInner front none .latest = .ok rows ∧ key ∈ rows.map Prod.fst := by
  rcases dispatch_keyed_cases config view store presented (.scan front) with refused | ⟨allowed, granted, same⟩
  · exact absurd given refused.not_returned
  · rw [same] at given
    refine ⟨allowed, granted, ?_⟩
    rcases fenced_cases view store (handleScan store front) with refused | passed
    · exact absurd given refused.not_returned
    · rw [serveKeyed, passed, handleScan] at given
      cases scanned : store.db.engine.scanPrefixInner front none .latest with
      | error message =>
        rw [scanned] at given
        exact absurd given List.not_mem_nil
      | ok rows =>
        rw [scanned] at given
        exact ⟨rows, rfl, given⟩

theorem scan_given (allowed : clientAllowed config presented)
    (granted : authorizeKey config.acl config.tenants front presented)
    (scanned : store.db.engine.scanPrefixInner front none .latest = .ok rows) :
    Request.returned (.keyed (.scan front)) (dispatch config .leading store presented (.keyed (.scan front))).reply =
      rows.map Prod.fst := by
  unfold dispatch
  rw [if_pos allowed]
  simp [handle, handleKeyed, withKey, denyKey_eq_none.mpr granted, fenced, NodeView.leading, handleScan, scanned,
    Request.returned]

theorem scan_holding (begins : front <+: key) (short : ¬ limits.maxKeyLen < front.length)
    (some_ : limits.maxScanResults ≠ 0) :
    (Store.holding limits enableCdc (Memtable.new.put key [] 1) events).db.engine.scanPrefixInner front none .latest =
      .ok [(key, [])] := by
  have found : (Memtable.new.put key [] 1).rawScanPrefix front = [⟨key, 1, some []⟩] := by
    unfold Memtable.rawScanPrefix
    split
    · rfl
    · have low : ¬ key < front := not_lt_of_isPrefix begins
      have under : Under front ⟨key, 1, some []⟩ := begins
      simp [Memtable.put, Memtable.insert, Memtable.new, insertEntry, low, under]
  have entries : (Store.holding limits enableCdc (Memtable.new.put key [] 1) events).db.engine.scanEntries front
      ReadTimestamp.latest.asNat = [⟨key, 1, some []⟩] := by
    show [] ++ ((Memtable.new.put key [] 1).rawScanPrefix front).filter _ = _
    rw [found]
    rfl
  have valid : limits.validateScanPrefix front = .ok () := if_neg short
  have one : absorb limits.maxScanResults [] (⟨key, 1, some []⟩ : SstEntry) = [⟨key, 1, some []⟩] := by
    unfold absorb
    rw [if_neg]
    · rfl
    · simpa [upsert] using some_
  have sized : (Store.holding limits enableCdc (Memtable.new.put key [] 1) events).db.engine.config.limits = limits := rfl
  unfold Engine.scanPrefixInner
  rw [entries, sized, valid]
  simp [one, collectRows]

theorem stocked_holding {memtable : Memtable}
    (keys : ∀ entry ∈ memtable.entries, limits.validateKey entry.key = .ok ())
    (told : ∀ event ∈ events, Writable limits event.key ∧ event.seq < 2 ^ 64) :
    (Store.holding limits enableCdc memtable events).Stocked limits enableCdc := by
  refine ⟨rfl, rfl, fun entry inside => ?_, told⟩
  rcases (Engine.mem_sources entry).mp inside with held | ⟨table, live, -⟩
  · exact keys entry held
  · exact absurd live List.not_mem_nil

theorem poll_returned
    (given : key ∈ Request.returned (.cdcPoll consumerId fromSeq limit) (dispatch config view store presented
      (.cdcPoll consumerId fromSeq limit)).reply) :
    clientAllowed config presented ∧ authorizeToken config.acl config.tenants presented ∧ store.enableCdc = true ∧
      (validateConsumerId consumerId).isOk ∧ limit ≠ 0 ∧ ∃ event ∈ store.cdc.events, event.key = key ∧ fromSeq.toNat < event.seq := by
  unfold dispatch at given
  split at given
  next allowed =>
    unfold handle at given
    dsimp only at given
    cases denied : denyToken config.acl config.tenants presented with
    | some message =>
      rw [denied] at given
      exact absurd given (not_returned rfl)
    | none =>
      rw [denied] at given
      refine ⟨allowed, denyToken_eq_none.mp denied, ?_⟩
      unfold handleCdcPoll at given
      dsimp only at given
      split at given
      · exact absurd given (not_returned rfl)
      · cases enabled : store.enableCdc with
        | false =>
          have refused : store.feed.cdcSubscribe consumerId (some fromSeq.toNat) =
              .error "cdc is disabled (EngineConfig.enable_cdc = false)" := by
            unfold CdcEngine.cdcSubscribe CdcEngine.enabled Store.feed
            rw [enabled]
            rfl
          rw [refused] at given
          exact absurd given (not_returned rfl)
        | true =>
          have enabled : store.feed.enableCdc = true := enabled
          cases valid : validateConsumerId consumerId with
          | error message =>
            rw [CdcEngine.cdcSubscribe_invalid enabled valid] at given
            exact absurd given (not_returned rfl)
          | ok =>
            rw [CdcEngine.cdcSubscribe_eq enabled valid] at given
            dsimp only at given
            by_cases positive : limit = 0
            · subst positive
              have polled : store.feed.cdcPoll ⟨consumerId, fromSeq.toNat⟩ 0 = _ := CdcEngine.cdcPoll_zero enabled valid
              rw [Option.getD_some, polled] at given
              exact absurd given List.not_mem_nil
            · have polled : store.feed.cdcPoll ⟨consumerId, fromSeq.toNat⟩ limit = _ :=
                CdcEngine.cdcPoll_eq enabled valid positive
              rw [Option.getD_some, polled] at given
              obtain ⟨event, held, rfl⟩ := List.mem_map.mp given
              have out := store.feed.deliver_out ⟨consumerId, fromSeq.toNat⟩ limit ▸ held
              obtain ⟨inside, past⟩ := List.mem_filter.mp (List.mem_of_mem_take out)
              exact ⟨rfl, rfl, positive, event, inside, rfl, of_decide_eq_true past⟩
  next => exact absurd given (not_returned rfl)

theorem poll_given (allowed : clientAllowed config presented)
    (granted : authorizeToken config.acl config.tenants presented) (enabled : store.enableCdc = true)
    (valid : validateConsumerId consumerId = .ok ()) (positive : limit ≠ 0) :
    Request.returned (.cdcPoll consumerId fromSeq limit)
        (dispatch config .leading store presented (.cdcPoll consumerId fromSeq limit)).reply =
      ((store.cdc.events.filter fun event => decide (fromSeq.toNat < event.seq)).take limit).map CdcEvent.key := by
  have polled : store.feed.cdcPoll ⟨consumerId, fromSeq.toNat⟩ limit = _ := CdcEngine.cdcPoll_eq enabled valid positive
  have out := store.feed.deliver_out ⟨consumerId, fromSeq.toNat⟩ limit
  unfold dispatch
  rw [if_pos allowed]
  simp only [handle, denyToken_eq_none.mpr granted, handleCdcPoll, NodeView.leading, not_true_eq_false, if_false,
    @CdcEngine.cdcSubscribe_eq store.feed consumerId enabled valid, Option.getD_some, polled, Request.returned, out]
  rfl

theorem scan_nothing (none_ : store.db.engine.config.limits.maxScanResults = 0)
    (scanned : store.db.engine.scanPrefixInner front none .latest = .ok rows) : rows = [] := by
  unfold Engine.scanPrefixInner at scanned
  split at scanned
  · cases scanned
  · cases scanned
    simp [merge_window, none_, collectRows]

theorem scan_covered (covered : config.Covered limits enableCdc presented (.keyed (.scan front)))
    (stocked : store.Stocked limits enableCdc)
    (given : key ∈ Request.returned (.keyed (.scan front)) (dispatch config view store presented (.keyed (.scan front))).reply) :
    authorizeKey config.acl config.tenants key presented := by
  obtain ⟨allowed, granted, rows, scanned, inside⟩ := scan_returned given
  obtain ⟨⟨found, value⟩, row, rfl⟩ := List.mem_map.mp inside
  obtain ⟨entry, held, rfl⟩ := mem_scanPrefixInner scanned row
  obtain ⟨stored, begins⟩ := mem_scanEntries held
  have short := (length_of_validateKey (stocked.keys entry stored)).2
  rcases covered with refused | denied | long | none_ | nested
  · exact absurd allowed refused
  · exact absurd granted denied
  · exact absurd (begins.length_le.trans short) (not_le.mpr long)
  · have empty := scan_nothing (stocked.sized ▸ none_) scanned
    rw [empty] at row
    exact absurd row List.not_mem_nil
  · exact authorizeKey_of_front granted begins short nested

/-- A rule beyond the front that is of another token shows in the answer. -/
theorem scan_uncovered {acl : PrefixAcl} {rule : Rule} (granted : authorizeKey config.acl config.tenants front presented)
    (known : acl ∈ config.acl) (beyond : front <+: rule.1) (short : rule.1.length ≤ limits.maxKeyLen)
    (foreign : ¬ acl.authorize rule.1 presented) (allowed : clientAllowed config presented)
    (some_ : limits.maxScanResults ≠ 0) :
    ∃ store : Store, store.Stocked limits enableCdc ∧
      rule.1 ∈ Request.returned (.keyed (.scan front)) (dispatch config .leading store presented (.keyed (.scan front))).reply ∧
        ¬ authorizeKey config.acl config.tenants rule.1 presented := by
  have denied : ¬ authorizeKey config.acl config.tenants rule.1 presented := fun also =>
    foreign ((authorizeKey_eq_true.mp also).2 acl known)
  have filled : rule.1 ≠ [] := by
    intro empty
    have same : front = rule.1 := by
      rw [empty] at beyond ⊢
      exact List.prefix_nil.mp beyond
    exact denied (same ▸ granted)
  refine ⟨.holding limits enableCdc (Memtable.new.put rule.1 [] 1) [], ?_, ?_, denied⟩
  · refine stocked_holding (fun entry inside => ?_) fun _ none_ => absurd none_ List.not_mem_nil
    have same : entry = ⟨rule.1, 1, some []⟩ := List.mem_singleton.mp inside
    rw [same]
    exact validateKey_of_length filled short
  · rw [scan_given allowed granted (scan_holding beyond (not_lt.mpr (beyond.length_le.trans short)) some_)]
    exact List.mem_singleton_self _

theorem poll_uncovered (allowed : clientAllowed config presented)
    (granted : authorizeToken config.acl config.tenants presented) (valid : validateConsumerId consumerId = .ok ())
    (positive : limit ≠ 0) (room : fromSeq.toNat ≠ 2 ^ 64 - 1) (writable : Writable limits key) :
    ∃ store : Store, store.Stocked limits true ∧ key ∈ Request.returned (.cdcPoll consumerId fromSeq limit)
      (dispatch config .leading store presented (.cdcPoll consumerId fromSeq limit)).reply := by
  have bound := fromSeq.toNat_lt
  refine ⟨.holding limits true .new [⟨fromSeq.toNat + 1, key, some [], .put⟩], ?_, ?_⟩
  · refine stocked_holding (fun _ none_ => absurd none_ List.not_mem_nil) fun event inside => ?_
    rw [List.mem_singleton.mp inside]
    exact ⟨writable, by dsimp only; omega⟩
  · rw [poll_given allowed granted rfl valid positive]
    obtain ⟨count, rfl⟩ := Nat.exists_eq_succ_of_ne_zero positive
    simp [Store.holding]

end Covered

/-- What is handed out is granted, whatever the engine holds, exactly under the
condition of its request. -/
theorem handed_out_iff_covered (config : AccessConfig) (limits : LimitsConfig) (enableCdc : Bool) (presented : Option Text)
    (request : Request) :
    (∀ view store, Store.Stocked store limits enableCdc →
      ∀ key ∈ request.returned (dispatch config view store presented request).reply,
        authorizeKey config.acl config.tenants key presented) ↔ config.Covered limits enableCdc presented request := by
  cases request with
  | keyed request =>
    by_cases scans : ∃ front, request = .scan front
    · obtain ⟨front, rfl⟩ := scans
      refine ⟨fun granted => ?_, fun covered view store stocked key given => scan_covered covered stocked given⟩
      by_contra uncovered
      simp only [AccessConfig.Covered, not_or, not_not, not_forall] at uncovered
      obtain ⟨allowed, front_, -, some_, acl, known, rule, -, beyond, short, foreign⟩ := uncovered
      obtain ⟨store, stocked, given, denied⟩ := scan_uncovered front_ known beyond short foreign allowed some_
      exact denied (granted .leading store stocked rule.1 given)
    · have covered : config.Covered limits enableCdc presented (.keyed request) := by
        cases request with
        | scan front => exact absurd ⟨front, rfl⟩ scans
        | _ => trivial
      refine ⟨fun _ => covered, fun _ view store _ key given => ?_⟩
      have own := returned_own (fun front same => scans ⟨front, same⟩) given
      rw [own]
      exact (dispatch_keyed (List.mem_append_right _ given)).2
  | cdcPoll consumerId fromSeq limit =>
    constructor
    · intro granted
      by_contra uncovered
      simp only [AccessConfig.Covered, not_or, not_not, not_forall, Bool.not_eq_false] at uncovered
      obtain ⟨allowed, token, rfl, valid, positive, room, key, writable, denied⟩ := uncovered
      have valid : validateConsumerId consumerId = .ok () := by
        cases made : validateConsumerId consumerId with
        | error message => simp [made, Except.isOk, Except.toBool] at valid
        | ok => rfl
      obtain ⟨store, stocked, given⟩ := poll_uncovered allowed token valid positive room writable
      exact denied (granted .leading store stocked key given)
    · intro covered view store stocked key given
      obtain ⟨allowed, token, enabled, valid, positive, event, inside, rfl, past⟩ := poll_returned given
      obtain ⟨writable, small⟩ := stocked.events event inside
      rcases covered with refused | denied | disabled | invalid | zero | last | all
      · exact absurd allowed refused
      · exact absurd token denied
      · rw [stocked.fed, disabled] at enabled
        cases enabled
      · exact absurd valid invalid
      · exact absurd zero positive
      · omega
      · exact all event.key writable

def nestedRules : List (Text × Text) := [(ascii "a/b/", ascii "t"), (ascii "a/", ascii "s")]

def nestedConfig : AccessConfig := ⟨some ⟨nestedRules, by decide⟩, none, none⟩

def nestedStore : Store := .holding ⟨64, 64, 100, 4096⟩ true (Memtable.new.put (ascii "a/b/1") [1] 1) []

theorem scan_hands_out_foreign_key : AccessConfig.load (some nestedRules) none none = .ok nestedConfig ∧
    ¬ ∀ key ∈ Request.returned (.keyed (.scan (ascii "a/")))
        (dispatch nestedConfig .leading nestedStore (some (ascii "s")) (.keyed (.scan (ascii "a/")))).reply,
      authorizeKey nestedConfig.acl nestedConfig.tenants key (some (ascii "s")) := by
  refine ⟨?_, by decide +kernel⟩
  have read : nestedRules.mapM PrefixAcl.readRule = .ok nestedRules := by rfl
  have sorted : nestedRules.mergeSort ruleOrder = nestedRules := List.mergeSort_of_pairwise (by decide)
  simp [AccessConfig.load, PrefixAcl.fromMap, read, sorted, bind, Except.bind, Except.map, pure, Except.pure, nestedConfig]

end KayaDB.Server
