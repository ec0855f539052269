import KayaDB.Library.Ascii
import KayaDB.Library.PrefixRules
import KayaDB.Storage.Table
import Mathlib.Data.List.Pairwise

/-! Who may touch which keys. A prefix list maps fronts of keys to tokens, a tenant
file gives each tenant a token and a front of its own. Files are read from their
parsed JSON; texts are bytes, and names in messages are quoted without escapes. -/

namespace KayaDB.Server
open Raft (Bytes)
open Ascii PrefixRules

inductive Json where
  | null
  | bool (value : Bool)
  | number (text : Text)
  | string (text : Text)
  | array (items : List Json)
  | object (fields : List (Text × Json))

namespace Json

def get (value : Json) (name : Text) : Option Json :=
  match value with
  | .object fields => (fields.find? fun field => field.1 = name).map Prod.snd
  | _ => none

def asStr : Json → Option Text
  | .string text => some text
  | _ => none

def asArray : Json → Option (List Json)
  | .array items => some items
  | _ => none

def isObject : Json → Bool
  | .object _ => true
  | _ => false

end Json

def quoted (text : Text) : Text := 34 :: (text ++ [34])

def orError {α : Type} (message : Text) : Option α → Except Text α
  | some value => .ok value
  | none => .error message

def toAsciiLowercase (byte : UInt8) : UInt8 := if 65 ≤ byte ∧ byte ≤ 90 then byte + 32 else byte

/-- The digits behind one of the two marks of hexadecimal text. -/
def stripHexMark (text : Text) : Option Text :=
  if ascii "0x" <+: text then some (text.drop 2) else if ascii "hex:" <+: text then some (text.drop 4) else none

def decodeHex (hex : Text) : Except Text Bytes :=
  if hex.length % 2 ≠ 0 then .error (ascii "hex length must be even, got " ++ decimal hex.length)
  else orError (ascii "invalid hex digit '" ++ (hex.find? fun byte => (hexNibble byte).isNone).toList ++ ascii "'")
    (hexDecode hex)

/-- The bytes a front is given as: hexadecimal behind a mark, and else the text itself. -/
def parsePrefixKey (text : Text) : Except Text Bytes :=
  match stripHexMark (text.map toAsciiLowercase) with
  | some hex => (decodeHex hex).mapError fun reason => ascii "ACL prefix " ++ quoted text ++ ascii ": " ++ reason
  | none => .ok text

abbrev Rule := Bytes × Text

def ruleOrder (first second : Rule) : Bool :=
  decide (second.1.length < first.1.length ∨ second.1.length = first.1.length ∧ first.1 ≤ second.1)

structure PrefixAcl where
  rules : List Rule
  longestFirst : rules.Pairwise fun first second => second.1.length ≤ first.1.length

namespace PrefixAcl

def readRule (entry : Text × Text) : Except Text Rule :=
  if entry.2 = [] then .error (ascii "ACL token for prefix " ++ quoted entry.1 ++ ascii " must be non-empty")
  else (parsePrefixKey entry.1).map fun front => (front, entry.2)

private theorem ruleOrder_trans (first second third : Rule) (one : ruleOrder first second) (two : ruleOrder second third) :
    ruleOrder first third := by
  unfold ruleOrder at one two ⊢
  rw [decide_eq_true_eq] at one two ⊢
  rcases one with less | ⟨same, low⟩
  · rcases two with less' | ⟨same', -⟩
    · exact Or.inl (less'.trans less)
    · exact Or.inl (same' ▸ less)
  · rcases two with less' | ⟨same', low'⟩
    · exact Or.inl (same ▸ less')
    · exact Or.inr ⟨same'.trans same, low.trans low'⟩

private theorem ruleOrder_total (first second : Rule) : (ruleOrder first second || ruleOrder second first) = true := by
  unfold ruleOrder
  rw [Bool.or_eq_true, decide_eq_true_eq, decide_eq_true_eq]
  rcases lt_trichotomy first.1.length second.1.length with less | same | more
  · exact Or.inr (Or.inl less)
  · rcases le_total first.1 second.1 with low | high
    · exact Or.inl (Or.inr ⟨same.symm, low⟩)
    · exact Or.inr (Or.inr ⟨same, high⟩)
  · exact Or.inl (Or.inl more)

private theorem longestFirst_mergeSort (rules : List Rule) :
    (rules.mergeSort ruleOrder).Pairwise fun first second => second.1.length ≤ first.1.length := by
  refine (List.pairwise_mergeSort ruleOrder_trans ruleOrder_total rules).imp fun {first second} before => ?_
  rcases of_decide_eq_true before with less | ⟨same, -⟩
  · exact less.le
  · exact same.le

/-- The entries come in the order of a hash map, that is, in any order. -/
def fromMap (map : List (Text × Text)) : Except Text PrefixAcl :=
  (map.mapM readRule).map fun rules => ⟨rules.mergeSort ruleOrder, longestFirst_mergeSort rules⟩

def authorize (acl : PrefixAcl) (key : Bytes) (token : Option Text) : Bool :=
  match token with
  | none => false
  | some token => ((firstMatch acl.rules key).map Prod.snd) = some token

def authorizeToken (acl : PrefixAcl) (token : Option Text) : Bool :=
  match token with
  | none => false
  | some token => acl.rules.any fun rule => rule.2 = token

section Rules
variable {acl : PrefixAcl} {key front : Bytes} {token : Option Text}

theorem authorize_eq_true : acl.authorize key token ↔
    ∃ rule, firstMatch acl.rules key = some rule ∧ token = some rule.2 := by
  unfold authorize
  cases token with
  | none => simp
  | some token => simp [eq_comm]

theorem authorize_of_front (allowed : acl.authorize front token) (begins : front <+: key)
    (nested : ∀ rule ∈ acl.rules, front <+: rule.1 → rule.1 <+: key → acl.authorize rule.1 token) :
    acl.authorize key token := by
  obtain ⟨rule, found, same⟩ := authorize_eq_true.mp allowed
  obtain ⟨other, here⟩ := Option.isSome_iff_exists.mp (firstMatch_isSome found begins)
  rcases firstMatch_cases here begins with again | ⟨beyond, own⟩
  · rw [found] at again
    cases again
    exact authorize_eq_true.mpr ⟨rule, here, same⟩
  · have granted := nested other (mem_of_firstMatch here) beyond (isPrefix_of_firstMatch here)
    obtain ⟨again, found, same⟩ := authorize_eq_true.mp granted
    rw [own] at found
    cases found
    exact authorize_eq_true.mpr ⟨other, here, same⟩

end Rules
end PrefixAcl

structure Tenant where
  id : Text
  token : Text
  front : Bytes
deriving DecidableEq, Repr

def Tenant.overlaps (first second : Tenant) : Bool := decide (second.front <+: first.front ∨ first.front <+: second.front)

structure TenantAcl where
  tenants : List Tenant
  tokens : tenants.Pairwise fun first second => first.token ≠ second.token
  exclusive : tenants.Pairwise fun first second => ¬ first.overlaps second

namespace TenantAcl

def tenantAt (index : Nat) : Text := ascii "tenants[" ++ decimal index ++ ascii "]"

def readEntry (index : Nat) (entry : Json) : Except Text Tenant := do
  if ¬ entry.isObject then throw (tenantAt index ++ ascii " must be an object with id, token, prefix")
  let id ← orError (tenantAt index ++ ascii ".id must be a string") ((entry.get (ascii "id")).bind Json.asStr)
  if id = [] then throw (tenantAt index ++ ascii ".id must be non-empty")
  let named := ascii "tenant " ++ quoted id
  let token ← orError (named ++ ascii " token must be a string") ((entry.get (ascii "token")).bind Json.asStr)
  if token = [] then throw (named ++ ascii " token must be non-empty")
  let text ← orError (named ++ ascii " prefix must be a string") ((entry.get (ascii "prefix")).bind Json.asStr)
  let front ← parsePrefixKey text
  if front = [] then throw (named ++ ascii " prefix must be non-empty")
  return ⟨id, token, front⟩

/-- A tenant whose id or token was given to one before it is refused. -/
def register (before : List Tenant) (tenant : Tenant) : Except Text (List Tenant) :=
  if before.any fun known => known.id = tenant.id then .error (ascii "duplicate tenant id " ++ quoted tenant.id)
  else if before.any fun known => known.token = tenant.token then
    .error (ascii "duplicate tenant token (id " ++ quoted tenant.id ++ ascii ")")
  else .ok (before ++ [tenant])

def readTenants : Nat → List Tenant → List Json → Except Text (List Tenant)
  | _, before, [] => .ok before
  | index, before, entry :: rest =>
    match (readEntry index entry).bind (register before) with
    | .error message => .error message
    | .ok tenants => readTenants (index + 1) tenants rest

def firstOverlap : List Tenant → Option (Tenant × Tenant)
  | [] => none
  | tenant :: rest =>
    match rest.find? tenant.overlaps with
    | some other => some (tenant, other)
    | none => firstOverlap rest

section Reading
variable {before tenants : List Tenant} {entries : List Json} {tenant : Tenant}

theorem register_tokens (registered : register before tenant = .ok tenants)
    (apart : before.Pairwise fun first second => first.token ≠ second.token) :
    tenants.Pairwise fun first second => first.token ≠ second.token := by
  unfold register at registered
  split at registered
  · cases registered
  · split at registered
    · cases registered
    next known =>
      cases registered
      refine List.pairwise_append.mpr ⟨apart, List.pairwise_singleton _ _, fun other inside new here same => ?_⟩
      rw [List.mem_singleton.mp here] at same
      exact known (List.any_eq_true.mpr ⟨other, inside, decide_eq_true same⟩)

theorem readTenants_tokens : ∀ {index before}, before.Pairwise (fun first second => first.token ≠ second.token) →
    readTenants index before entries = .ok tenants → tenants.Pairwise fun first second => first.token ≠ second.token := by
  induction entries with
  | nil =>
    intro index before apart read
    cases read
    exact apart
  | cons entry entries ih =>
    intro index before apart read
    rw [readTenants] at read
    cases parsed : readEntry index entry with
    | error message => simp [parsed, Except.bind] at read
    | ok tenant =>
      cases registered : register before tenant with
      | error message => simp [parsed, Except.bind, registered] at read
      | ok known =>
        simp only [parsed, Except.bind, registered] at read
        exact ih (register_tokens registered apart) read

theorem exclusive_of_firstOverlap (none_ : firstOverlap tenants = none) :
    tenants.Pairwise fun first second => ¬ first.overlaps second := by
  induction tenants with
  | nil => exact List.Pairwise.nil
  | cons tenant tenants ih =>
    rw [firstOverlap] at none_
    cases found : tenants.find? tenant.overlaps with
    | some other => simp [found] at none_
    | none =>
      simp only [found] at none_
      exact List.pairwise_cons.mpr ⟨fun other inside => List.find?_eq_none.mp found other inside, ih none_⟩

end Reading

/-- A file that loads has its tenants apart in tokens and in fronts. -/
def fromJson (value : Json) : Except Text TenantAcl :=
  match (value.get (ascii "tenants")).bind Json.asArray with
  | none => .error (ascii "tenant file must be a JSON object with a \"tenants\" array")
  | some entries =>
    match read : readTenants 0 [] entries with
    | .error message => .error message
    | .ok tenants =>
      match apart : firstOverlap tenants with
      | some (first, second) =>
        .error (ascii "tenant prefixes must be exclusive: " ++ quoted first.id ++ ascii " and " ++ quoted second.id ++
          ascii " overlap")
      | none => .ok ⟨tenants, readTenants_tokens List.Pairwise.nil read, exclusive_of_firstOverlap apart⟩

def byToken (acl : TenantAcl) (token : Text) : Option Tenant := acl.tenants.find? fun tenant => tenant.token = token

theorem mem_of_byToken {acl : TenantAcl} {token : Option Text} {tenant : Tenant}
    (found : token.bind acl.byToken = some tenant) : tenant ∈ acl.tenants := by
  obtain ⟨text, -, held⟩ := Option.bind_eq_some_iff.mp found
  exact List.mem_of_find?_eq_some held

theorem apart (acl : TenantAcl) {first second : Tenant} (one : first ∈ acl.tenants) (two : second ∈ acl.tenants)
    (different : first ≠ second) : ¬ first.overlaps second := by
  have symmetric : Std.Symm fun first second : Tenant => ¬ first.overlaps second :=
    ⟨fun first second apart overlap => apart (decide_eq_true (of_decide_eq_true overlap).symm)⟩
  exact acl.exclusive.forall one two different

def authorize (acl : TenantAcl) (key : Bytes) (token : Option Text) : Bool :=
  match token.bind acl.byToken with
  | none => false
  | some tenant => tenant.front <+: key

def authorizeToken (acl : TenantAcl) (token : Option Text) : Bool := (token.bind acl.byToken).isSome

end TenantAcl

structure AccessConfig where
  acl : Option PrefixAcl
  tenants : Option TenantAcl
  clientToken : Option Text

/-- The files are read when the node starts, which fails if one cannot be read; a
blank client token is none. -/
def AccessConfig.load (aclFile : Option (List (Text × Text))) (tenantFile : Option Json) (clientToken : Option Text) :
    Except Text AccessConfig := do
  let acl ← aclFile.mapM PrefixAcl.fromMap
  let tenants ← tenantFile.mapM TenantAcl.fromJson
  return ⟨acl, tenants, clientToken.filter fun token => trim token ≠ []⟩

theorem AccessConfig.tenants_of_load {aclFile : Option (List (Text × Text))} {tenantFile : Json} {clientToken : Option Text}
    {config : AccessConfig} (started : AccessConfig.load aclFile (some tenantFile) clientToken = .ok config) :
    ∃ tenants, TenantAcl.fromJson tenantFile = .ok tenants ∧ config.tenants = some tenants := by
  unfold AccessConfig.load at started
  cases rules : aclFile.mapM PrefixAcl.fromMap with
  | error message => simp [rules, bind, Except.bind] at started
  | ok acl =>
    cases read : TenantAcl.fromJson tenantFile with
    | error message => simp [rules, read, bind, Except.bind] at started
    | ok tenants =>
      simp only [rules, read, bind, Except.bind, Option.mapM_some, pure, Except.pure] at started
      cases started
      exact ⟨tenants, rfl, rfl⟩

section Gate
variable (acl : Option PrefixAcl) (tenants : Option TenantAcl) (byAcl : PrefixAcl → Bool) (byTenants : TenantAcl → Bool)

/-- All that is configured must agree; with nothing configured the call is open. -/
def gate : Bool := tenants.all byTenants && acl.all byAcl

def deny : Option String :=
  if tenants.isSome ∧ ¬ gate none tenants byAcl byTenants then some "tenant denied"
  else if acl.isSome ∧ ¬ gate acl none byAcl byTenants then some "acl denied"
  else none

theorem deny_eq_none : deny acl tenants byAcl byTenants = none ↔ gate acl tenants byAcl byTenants := by
  unfold deny gate
  cases tenants with
  | none => cases acl <;> simp
  | some tenants =>
    cases acl with
    | none => simp
    | some acl =>
      cases one : byTenants tenants with
      | false => simp [one]
      | true => cases two : byAcl acl <;> simp [one, two]

end Gate

section Calls
variable (acl : Option PrefixAcl) (tenants : Option TenantAcl) (key : Bytes) (token : Option Text)

def authorizeKey : Bool := gate acl tenants (fun acl => acl.authorize key token) fun tenants => tenants.authorize key token

def authorizeToken : Bool := gate acl tenants (fun acl => acl.authorizeToken token) fun tenants => tenants.authorizeToken token

def denyKey : Option String := deny acl tenants (fun acl => acl.authorize key token) fun tenants => tenants.authorize key token

def denyToken : Option String :=
  deny acl tenants (fun acl => acl.authorizeToken token) fun tenants => tenants.authorizeToken token

end Calls

section Denials
variable {acl : Option PrefixAcl} {tenants : Option TenantAcl} {key front : Bytes} {token : Option Text}
  {known : TenantAcl}

theorem denyKey_eq_none : denyKey acl tenants key token = none ↔ authorizeKey acl tenants key token := deny_eq_none ..

theorem denyToken_eq_none : denyToken acl tenants token = none ↔ authorizeToken acl tenants token := deny_eq_none ..

theorem authorizeKey_eq_true : authorizeKey acl tenants key token ↔
    (∀ known ∈ tenants, known.authorize key token) ∧ ∀ known ∈ acl, known.authorize key token := by
  unfold authorizeKey gate
  rw [Bool.and_eq_true, Option.all_eq_true, Option.all_eq_true]
  exact Iff.rfl

theorem TenantAcl.authorize_mono (allowed : known.authorize front token) (begins : front <+: key) :
    known.authorize key token := by
  unfold TenantAcl.authorize at allowed ⊢
  cases found : token.bind known.byToken with
  | none => simp [found] at allowed
  | some tenant =>
    simp only [found, decide_eq_true_eq] at allowed ⊢
    exact allowed.trans begins

theorem TenantAcl.same_tenant {other : Option Text} (one : known.authorize key token)
    (two : known.authorize key other) : token.bind known.byToken = other.bind known.byToken := by
  unfold TenantAcl.authorize at one two
  cases first : token.bind known.byToken with
  | none => simp [first] at one
  | some tenant =>
    cases second : other.bind known.byToken with
    | none => simp [second] at two
    | some rival =>
      simp only [first, second, decide_eq_true_eq] at one two
      by_contra different
      have overlap : tenant.overlaps rival := decide_eq_true (List.prefix_or_prefix_of_prefix two one)
      exact known.apart (mem_of_byToken first) (mem_of_byToken second) (fun same => different (congrArg some same)) overlap

end Denials
end KayaDB.Server
