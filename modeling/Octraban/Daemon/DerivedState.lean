import Octraban.Daemon.CircuitBreaker

/-! Roles and pause status derived from events as they are processed: roleTracker.js,
the end of `decode`, and the statements of db.js that overwrite whatever is stored. -/
namespace Octraban.DerivedState
open Sql CircuitBreaker

/-- A value of JSON.parse. -/
inductive Json where
  | null
  | bool (value : Bool)
  | num (text : String)
  | str (text : String)
  | arr (items : List Json)
  | obj (fields : List (String × Json))

structure Decoded extends DecodedEvent where
  raw_topics : List String
  raw_data : Option String

structure RoleAssignment where
  role : String
  address : String
  revoked : Bool

structure RoleRow where
  revoked : Bool
  ledger : Option Nat
  deriving DecidableEq

/-- UNIQUE (contract_id, role, address). -/
abbrev Roles := Table (String × String × String) RoleRow

structure State where
  privileged_roles : Roles
  contracts : Contracts

/-- An event handled by the daemon, or by a worker of catchup.js, which decodes only. -/
inductive Task where
  | daemon (ev : Decoded)
  | catchup (ev : Decoded)

def Task.ev : Task → Decoded
  | daemon ev | catchup ev => ev

def roleEventMap (name : String) : Option String :=
  match name with
  | "set_admin" | "admin_changed" | "new_admin" | "admin_set" => some "admin"
  | "set_manager" | "manager_set" => some "manager"
  | "set_minter" | "minter_added" => some "minter"
  | "set_pauser" | "pauser_set" => some "pauser"
  -- inherited by every object; the texts are those pg sends for the values
  | "constructor" => some "function Object() \x7b [native code] \x7d"
  | "__proto__" => some "\x7b\x7d"
  | _ => none

/-- db.js -/
def upsertRole (roles : Roles) (contract_id : String) (assignment : RoleAssignment)
    (ledger : Option Nat) : Roles :=
  roles.upsert (contract_id, assignment.role, assignment.address) ⟨assignment.revoked, ledger⟩
    fun _ => ⟨assignment.revoked, ledger⟩

variable (toLowerCase : String → String) (parse : String → Option Json)
  (getContractMeta : String → Option ContractMeta)

def parseAddress (rawData : Option String) : Option String :=
  match rawData.bind parse with
  | some (.obj fields) =>
    ["address", "new_admin", "admin", "to", "account"].findSome? fun key =>
      match fields.lookup key with
      | some (.str value) => if value = "" then none else some value
      | _ => none
  | _ => none

def extractRoleAssignment (ev : Decoded) : Option RoleAssignment :=
  match ev.raw_topics with
  | [] => none
  | topic :: topics =>
    let topic0 := toLowerCase topic
    if topic0 = "role_granted" ∨ topic0 = "role_revoked" ∨ topic0 = "role_set" then
      let role := match topics[0]? with
        | some topic1 => if topic1 = "" then "unknown" else toLowerCase topic1
        | none => "unknown"
      match topics[1]? <|> parseAddress parse ev.raw_data with
      | some address => if address = "" then none else some ⟨role, address, topic0 = "role_revoked"⟩
      | none => none
    else
      match roleEventMap topic0 with
      | some canonicalRole =>
        match topics[0]? <|> topics[1]? <|> parseAddress parse ev.raw_data with
        | some address => if address = "" then none else some ⟨canonicalRole, address, false⟩
        | none => none
      | none => none

def decode (roles : Roles) (ev : Decoded) : Roles :=
  match extractRoleAssignment toLowerCase parse ev with
  | some roleAssignment => upsertRole roles ev.contract_id roleAssignment (some ev.ledger)
  | none => roles

/-- The writes of one event. -/
def Task.run (s : State) : Task → State
  | daemon ev =>
    { privileged_roles := decode toLowerCase parse s.privileged_roles ev
      contracts := processCircuitBreakerEvent toLowerCase s.contracts ev.toDecodedEvent
        (getContractMeta ev.contract_id) }
  | catchup ev => { s with privileged_roles := decode toLowerCase parse s.privileged_roles ev }

/-- `order` is the one in which the writes reach the tables. -/
def process (s : State) (order : List Task) : State :=
  order.foldl (Task.run toLowerCase parse getContractMeta) s

/-- What the event says about the role of an address, with its ledger. -/
def Task.revokes (key : String × String × String) (task : Task) : Option (Nat × Bool) :=
  (extractRoleAssignment toLowerCase parse task.ev).bind fun assignment =>
    if (task.ev.contract_id, assignment.role, assignment.address) = key then
      some (task.ev.ledger, assignment.revoked)
    else none

/-- What the event says about the pause status of a contract. -/
def Task.pauses (contractId : String) (task : Task) : Option (Nat × Bool) :=
  if task.ev.contract_id = contractId ∧ hasCircuitBreaker toLowerCase (getContractMeta contractId) then
    (statusChange toLowerCase task.ev.toDecodedEvent).map fun status => (task.ev.ledger, status.isPaused)
  else none

/-- catchup.js does not keep the pause status. -/
def Task.writesPause (contractId : String) : Task → Option (Nat × Bool)
  | daemon ev => (daemon ev).pauses toLowerCase getContractMeta contractId
  | catchup _ => none

/-- The value is the one of an event with the highest ledger. -/
def Dictates (statuses : List (Nat × Bool)) (value : Bool) : Prop :=
  ∃ ledger, (ledger, value) ∈ statuses ∧ ∀ status ∈ statuses, status.1 ≤ ledger

/-- The derived state is what the latest events say. -/
structure Derived (s : State) (order : List Task) : Prop where
  roles : ∀ key, order.filterMap (Task.revokes toLowerCase parse key) ≠ [] →
    ∃ row, (process toLowerCase parse getContractMeta s order).privileged_roles.lookup key = some row ∧
      Dictates (order.filterMap (Task.revokes toLowerCase parse key)) row.revoked
  paused : ∀ contractId row,
    (process toLowerCase parse getContractMeta s order).contracts.lookup contractId = some row →
    order.filterMap (Task.pauses toLowerCase getContractMeta contractId) ≠ [] →
    Dictates (order.filterMap (Task.pauses toLowerCase getContractMeta contractId)) row.is_paused

/-- What is processed last agrees with the event that has the highest ledger. -/
structure LatestLast (s : State) (order : List Task) : Prop where
  roles : ∀ key ledger revoked,
    (order.filterMap (Task.revokes toLowerCase parse key)).getLast? = some (ledger, revoked) →
    Dictates (order.filterMap (Task.revokes toLowerCase parse key)) revoked
  paused : ∀ contractId row, s.contracts.lookup contractId = some row →
    order.filterMap (Task.pauses toLowerCase getContractMeta contractId) ≠ [] →
    Dictates (order.filterMap (Task.pauses toLowerCase getContractMeta contractId))
      ((order.filterMap (Task.writesPause toLowerCase getContractMeta contractId)).getLast?.elim
        row.is_paused Prod.snd)

variable {toLowerCase parse getContractMeta}

theorem lookup_decode (roles : Roles) (task : Task) (key : String × String × String) :
    (decode toLowerCase parse roles task.ev).lookup key =
      (task.revokes toLowerCase parse key).elim (roles.lookup key)
        fun status => some ⟨status.2, some status.1⟩ := by
  unfold decode Task.revokes
  cases extractRoleAssignment toLowerCase parse task.ev with
  | none => rfl
  | some assignment =>
    simp only [Option.bind_some]
    split
    · rename_i same
      subst same
      simp only [upsertRole, Table.lookup_upsert_self, Option.elim_some]
      cases roles.lookup (task.ev.contract_id, assignment.role, assignment.address) <;> rfl
    · rename_i other
      exact Table.lookup_upsert_ne fun same => other same.symm

theorem lookup_roles (s : State) (order : List Task) (key : String × String × String) :
    (process toLowerCase parse getContractMeta s order).privileged_roles.lookup key =
      (order.filterMap (Task.revokes toLowerCase parse key)).getLast?.elim
        (s.privileged_roles.lookup key) fun status => some ⟨status.2, some status.1⟩ := by
  apply read_foldl_lastWrite (fun s : State => s.privileged_roles.lookup key)
    fun (status : Nat × Bool) _ => some (RoleRow.mk status.2 (some status.1))
  · intro s task
    cases task with
    | daemon ev => exact lookup_decode s.privileged_roles (.daemon ev) key
    | catchup ev => exact lookup_decode s.privileged_roles (.catchup ev) key
  · intro _ _ _
    rfl

theorem lookup_daemon (contracts : Contracts) (ev : Decoded) (contractId : String) :
    (processCircuitBreakerEvent toLowerCase contracts ev.toDecodedEvent
      (getContractMeta ev.contract_id)).lookup contractId =
        ((Task.daemon ev).pauses toLowerCase getContractMeta contractId).elim (contracts.lookup contractId)
          fun status => (contracts.lookup contractId).map fun _ => ⟨status.2, some status.1⟩ := by
  by_cases breaker : hasCircuitBreaker toLowerCase (getContractMeta ev.contract_id) = true
  · by_cases same : ev.contract_id = contractId
    · subst same
      rw [lookup_processCircuitBreakerEvent breaker, Task.pauses, if_pos ⟨rfl, breaker⟩]
      cases changed : statusChange toLowerCase ev.toDecodedEvent with
      | none => simp [changed, Task.ev]
      | some status => simp [changed, Task.ev, PauseStatus.row, statusChange_ledger changed]
    · rw [processCircuitBreakerEvent_eq breaker, Task.pauses, if_neg fun both => same both.1]
      cases statusChange toLowerCase ev.toDecodedEvent with
      | none => rfl
      | some status => exact Table.lookup_updateRow_ne fun other => same other.symm
  · have ignored : ¬ (ev.contract_id = contractId ∧
        hasCircuitBreaker toLowerCase (getContractMeta contractId) = true) := by
      rintro ⟨rfl, found⟩
      exact breaker found
    rw [processCircuitBreakerEvent, if_neg breaker, Task.pauses, Task.ev, if_neg ignored]
    rfl

theorem lookup_contracts (s : State) (order : List Task) (contractId : String) :
    (process toLowerCase parse getContractMeta s order).contracts.lookup contractId =
      (order.filterMap (Task.writesPause toLowerCase getContractMeta contractId)).getLast?.elim
        (s.contracts.lookup contractId)
        fun status => (s.contracts.lookup contractId).map fun _ => ⟨status.2, some status.1⟩ := by
  apply read_foldl_lastWrite (fun s : State => s.contracts.lookup contractId)
    fun (status : Nat × Bool) (row : Option ContractRow) =>
      row.map fun _ => ContractRow.mk status.2 (some status.1)
  · intro s task
    cases task with
    | daemon ev => exact lookup_daemon s.contracts ev contractId
    | catchup ev => rfl
  · intro _ _ row
    rw [Option.map_map]
    rfl

theorem roles_iff (s : State) (order : List Task) (key : String × String × String) :
    (order.filterMap (Task.revokes toLowerCase parse key) ≠ [] →
      ∃ row, (process toLowerCase parse getContractMeta s order).privileged_roles.lookup key = some row ∧
        Dictates (order.filterMap (Task.revokes toLowerCase parse key)) row.revoked) ↔
    ∀ ledger revoked, (order.filterMap (Task.revokes toLowerCase parse key)).getLast? =
      some (ledger, revoked) → Dictates (order.filterMap (Task.revokes toLowerCase parse key)) revoked := by
  rw [lookup_roles]
  constructor
  · intro derived ledger revoked last
    obtain ⟨row, stored, dictated⟩ := derived fun empty => by simp [empty] at last
    rw [last] at stored
    cases stored
    exact dictated
  · intro latest some_status
    obtain ⟨⟨ledger, revoked⟩, last⟩ := Option.ne_none_iff_exists'.mp
      (mt List.getLast?_eq_none_iff.mp some_status)
    rw [last]
    exact ⟨_, rfl, latest ledger revoked last⟩

theorem paused_iff (s : State) (order : List Task) (contractId : String) :
    (∀ row, (process toLowerCase parse getContractMeta s order).contracts.lookup contractId = some row →
      order.filterMap (Task.pauses toLowerCase getContractMeta contractId) ≠ [] →
      Dictates (order.filterMap (Task.pauses toLowerCase getContractMeta contractId)) row.is_paused) ↔
    ∀ row, s.contracts.lookup contractId = some row →
      order.filterMap (Task.pauses toLowerCase getContractMeta contractId) ≠ [] →
      Dictates (order.filterMap (Task.pauses toLowerCase getContractMeta contractId))
        ((order.filterMap (Task.writesPause toLowerCase getContractMeta contractId)).getLast?.elim
          row.is_paused Prod.snd) := by
  rw [lookup_contracts]
  cases s.contracts.lookup contractId with
  | none => cases (order.filterMap (Task.writesPause toLowerCase getContractMeta contractId)).getLast? <;> simp
  | some row =>
    cases (order.filterMap (Task.writesPause toLowerCase getContractMeta contractId)).getLast? <;> simp

/-- The statements that overwrite are right exactly when the latest event comes last. -/
theorem derived_iff (s : State) (order : List Task) :
    Derived toLowerCase parse getContractMeta s order ↔
      LatestLast toLowerCase parse getContractMeta s order := by
  constructor
  · intro derived
    constructor
    · intro key
      exact (roles_iff s order key).mp (derived.roles key)
    · intro contractId
      exact (paused_iff s order contractId).mp (derived.paused contractId)
  · intro latest
    constructor
    · intro key
      exact (roles_iff s order key).mpr (latest.roles key)
    · intro contractId
      exact (paused_iff s order contractId).mpr (latest.paused contractId)

def roleEvent (name : String) (ledger : Nat) : Decoded where
  contract_id := "C"
  function := name
  ledger := ledger
  description := none
  raw_topics := [name, "minter", "GA"]
  raw_data := none

/-- Two workers of catchup.js: the later ledger is done first. -/
theorem overtaken_grant_underived : ¬ ∀ (toLowerCase : String → String) (parse : String → Option Json)
    (getContractMeta : String → Option ContractMeta) (s : State) (order : List Task),
    Derived toLowerCase parse getContractMeta s order := by
  intro derived
  obtain ⟨row, stored, ledger, member, highest⟩ :=
    (derived id (fun _ => none) (fun _ => none) ⟨∅, ∅⟩
      [.catchup (roleEvent "role_revoked" 20), .catchup (roleEvent "role_granted" 10)]).roles
        ("C", "minter", "GA") (by decide)
  have granted : row = ⟨false, some 10⟩ := (Option.some.inj stored).symm
  subst granted
  have later : 20 ≤ ledger := highest (20, true) (by decide)
  have earlier : (ledger, false) ∈ [(20, true), (10, false)] := member
  simp at earlier
  omega

end Octraban.DerivedState
