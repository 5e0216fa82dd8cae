import Octraban.Sandbox.Plans

/-! Memory, document and rows of a session through its operations: when an operation that
throws leaves no trace, and one that returns leaves them in agreement. -/
namespace Octraban.SandboxEngine
open Transition System JavaScript

/-- The rows are the records of the block. -/
structure Mirrors (block : RuntimeBlock) (rows : Rows) : Prop where
  filed : Filed block
  accounts : rows.accounts = block.accounts.get
  contracts : rows.contracts = block.contracts.get

structure Agree (s : State) : Prop where
  memory : ∀ bundle, s.memory = some bundle → bundle.document = s.session.state
  ledgerSequence : s.session.ledgerSequence = s.session.state.runtime.ledgerSequence
  ledgerTimestamp : s.session.ledgerTimestamp = s.session.state.runtime.ledgerTimestamp
  rows : Mirrors s.session.state.runtime s.rows

/-- What the engine answers to a list of operations. -/
def answersOf (platform : Platform) (s : State) : List (Op × Answers) → List (Except String Output)
  | [] => []
  | (op, answers) :: rest =>
    let (t, output) := operate platform s answers op
    output :: answersOf platform t rest

def runtime (s : State) : Option RuntimeBlock := s.memory.map fun bundle => bundle.document.runtime

def Atomic (platform : Platform) (s : State) (answers : Answers) (op : Op) : Prop :=
  match operate platform s answers op with
  | (t, .error _) => runtime t = runtime s ∧ ∀ later, answersOf platform t later = answersOf platform s later
  | (t, .ok _) => Agree t

/-- Each access of the operation is done and its records are filed under their keys, or it
leaves the session in memory as it is. An unsuccessful call is logged or not, but its answer
is not lost. -/
def Plan.Harmless (s : State) (bundle : RuntimeBundle) (answers : Answers) : Plan → Prop
  | .throws _ => True
  | .breaks changed _ => changed = bundle
  | .appends _ _ => answers.write 0 ≠ .lost
  | .commits changed writes output => changed = bundle ∨
      (perform answers.write writes { s with memory := some changed }).2 = true ∧
      (output.isNone → answers.counted = true) ∧ Filed changed.document.runtime

/-- The operations that are to change the runtime. -/
def LiveOp.changing : LiveOp → Bool
  | .pauseSession | .snapshotSession _ => false
  | _ => true

def Harmless (platform : Platform) (s : State) (answers : Answers) : Op → Prop
  | .live op => op.changing = true → ∀ bundle, s.memory = some bundle →
      (plan platform s bundle answers.found op).Harmless s bundle answers
  | _ => True

/-- With which writes a runtime is about to be put in memory, from a session that agrees. -/
inductive Planned (s : State) (bundle : RuntimeBundle) : Plan → Prop where
  | throws : Planned s bundle (.throws error)
  | breaks (next : RuntimeBlock) : Planned s bundle (.breaks (bundle.withRuntime next) error)
  | logs (call : SandboxCall) : Planned s bundle (.appends (fun s => { s with calls := s.calls ++ [call] }) output)
  | moves (next : RuntimeBlock) (accounts : next.accounts = bundle.document.runtime.accounts)
      (contracts : next.contracts = bundle.document.runtime.contracts) :
      Planned s bundle (.commits (bundle.withRuntime next) [persistBundle (bundle.withRuntime next)] output)
  | writes (next : RuntimeBlock) (row : RowWrite write)
      (mirrors : Filed next → ∀ u, write { s with memory := some (bundle.withRuntime next) } = some u →
        Mirrors next u.rows)
      (still : bundle.withRuntime next = bundle → ∀ u, write s = some u → u = s) :
      Planned s bundle
        (.commits (bundle.withRuntime next) [write, persistBundle (bundle.withRuntime next)] output)

variable {platform : Platform} {s t u : State} {bundle changed : RuntimeBundle} {block : RuntimeBlock}
  {answers : Answers} {answer : Nat → Answer} {writes : List Write} {write : Write}

/-! ### Rows -/

theorem update_get {V : Type} (m : OrderedMap String V) (key : String) (v : V) :
    Function.update m.get key (some v) = (m.set key v).get := by
  funext k
  by_cases same : k = key
  · rw [same, Function.update_self, OrderedMap.get_set_self]
  · rw [Function.update_of_ne same, OrderedMap.get_set_ne same]

theorem mem_objectValues {V : Type} {m : OrderedMap String V} {v : V} :
    v ∈ objectValues m ↔ ∃ key, m.get key = some v := by
  rw [objectValues]
  rw [List.mem_map]
  constructor
  · rintro ⟨⟨key, v⟩, member, rfl⟩
    exact ⟨key, OrderedMap.mem_entries.mp ((perm_ownEntries m).mem_iff.mp member)⟩
  · rintro ⟨key, found⟩
    exact ⟨(key, v), (perm_ownEntries m).mem_iff.mpr (OrderedMap.mem_entries.mpr found), rfl⟩

/-- Records that are filed under their keys are found under them. -/
theorem rowOf_objectValues {V : Type} {m : OrderedMap String V} {key : V → String}
    (filed : ∀ k v, m.get k = some v → key v = k) : rowOf key (objectValues m) = m.get := by
  funext k
  have sound (v : V) (found : rowOf key (objectValues m) k = some v) : m.get k = some v := by
    obtain ⟨k', present⟩ := mem_objectValues.mp (List.mem_of_find?_eq_some found)
    have named : key v = k := by simpa using List.find?_some (show (objectValues m).find? _ = some v from found)
    rw [← named, filed k' v present]
    exact present
  cases present : m.get k with
  | some v =>
    have listed : v ∈ objectValues m := mem_objectValues.mpr ⟨k, present⟩
    have some_found : (rowOf key (objectValues m) k).isSome :=
      List.find?_isSome.mpr ⟨v, listed, decide_eq_true (filed k v present)⟩
    obtain ⟨v', found⟩ := Option.isSome_iff_exists.mp some_found
    rw [found, ← sound v' found, present]
  | none =>
    cases found : rowOf key (objectValues m) k with
    | none => rfl
    | some v => exact absurd (present.symm.trans (sound v found)) (by simp)

theorem mirrors_rewriteLiveRows (filed : Filed block)
    (written : rewriteLiveRows (objectValues block.accounts) (objectValues block.contracts) s = some u) :
    Mirrors block u.rows := by
  rw [rewriteLiveRows] at written
  split at written
  · cases written
    exact ⟨filed, rowOf_objectValues filed.accounts, rowOf_objectValues filed.contracts⟩
  · cases written

theorem mirrors_resetRows (genesis : Genesis block)
    (written : rewriteLiveRows (objectValues block.accounts) [] s = some u) : Mirrors block u.rows := by
  rw [rewriteLiveRows] at written
  split at written
  · cases written
    refine ⟨genesis.filed, rowOf_objectValues genesis.filed.accounts, ?_⟩
    funext key
    rw [OrderedMap.get]
    rw [genesis.contracts]
    rfl
  · cases written

/-! ### What an operation is about to do -/

theorem withRuntime_eq_iff {next : RuntimeBlock} :
    bundle.withRuntime next = bundle ↔ next = bundle.document.runtime := by
  constructor
  · intro same
    exact congrArg (fun bundle => bundle.document.runtime) same
  · rintro rfl
    rfl

/-- The rows that the memory has, where it agrees with the database. -/
theorem Agree.mirrors (agree : Agree s) (memory : s.memory = some bundle) :
    Mirrors bundle.document.runtime s.rows := agree.memory bundle memory ▸ agree.rows

/-- Rows that are written anew from the same block are the rows there are. -/
theorem rows_eq {rows rows' : Rows} (before : Mirrors block rows) (after : Mirrors block rows') : rows' = rows := by
  obtain ⟨accounts, contracts⟩ := rows
  obtain ⟨accounts', contracts'⟩ := rows'
  obtain ⟨_, sameAccounts, sameContracts⟩ := before
  obtain ⟨_, sameAccounts', sameContracts'⟩ := after
  rw [Rows.mk.injEq]
  exact ⟨sameAccounts'.trans sameAccounts.symm, sameContracts'.trans sameContracts.symm⟩

theorem rewritten_eq (mirrors : Mirrors block s.rows) (after : Mirrors block u.rows)
    (written : rewriteLiveRows accounts contracts s = some u) : u = s := by
  have rows := rows_eq mirrors after
  rw [rewriteLiveRows] at written
  split at written
  · cases written
    exact congrArg (fun rows => { s with rows := rows }) rows
  · cases written

theorem planned_replaceRuntime (agree : Agree s) (memory : s.memory = some bundle) (next : RuntimeBlock) :
    Planned s bundle (replaceRuntime bundle next) := by
  have mirrors := agree.mirrors memory
  refine .writes next (rowWrite_rewriteLiveRows _ _) (fun filed u written => mirrors_rewriteLiveRows filed written) ?_
  intro same u written
  have block := withRuntime_eq_iff.mp same
  subst block
  exact rewritten_eq mirrors (mirrors_rewriteLiveRows mirrors.filed written) written

theorem planned_resetSession (agree : Agree s) (genesis : Genesis bundle.document.genesis)
    (memory : s.memory = some bundle) : Planned s bundle (resetSession bundle) := by
  have mirrors := agree.mirrors memory
  refine .writes bundle.document.genesis (rowWrite_rewriteLiveRows _ _) ?_ ?_
  · exact fun _ u written => mirrors_resetRows genesis written
  · intro same u written
    have block := withRuntime_eq_iff.mp same
    exact rewritten_eq mirrors (block ▸ mirrors_resetRows genesis written) written

theorem planned_advanceSession (s : State) (bundle : RuntimeBundle) (ledgers seconds : Int) :
    Planned s bundle (advanceSession bundle ledgers seconds) := by
  rw [advanceSession]
  dsimp only
  split
  · exact .moves _ rfl rfl
  · exact .breaks _

theorem get_of_set_eq {V : Type} {m : OrderedMap String V} {key : String} {v : V} (same : m.set key v = m) :
    m.get key = some v :=
  (congrArg (fun m => m.get key) same.symm).trans OrderedMap.get_set_self

/-- One account is put in memory and in its row. -/
theorem planned_account (agree : Agree s) (memory : s.memory = some bundle) {key : String} {account : AccountState}
    (row : RowWrite write)
    (writes : ∀ r u, write r = some u → r.rows = s.rows →
      u.rows = { s.rows with accounts := Function.update s.rows.accounts key (some account) })
    (still : s.rows.accounts key = some account → ∀ u, write s = some u → u = s) :
    Planned s bundle (.commits (bundle.withRuntime { bundle.document.runtime with
      accounts := bundle.document.runtime.accounts.set key account }) [write, persistBundle (bundle.withRuntime
        { bundle.document.runtime with accounts := bundle.document.runtime.accounts.set key account })] output) := by
  have mirrors := agree.mirrors memory
  refine .writes _ row ?_ ?_
  · intro filed u written
    rw [writes _ u written rfl]
    refine ⟨filed, ?_, mirrors.contracts⟩
    dsimp only
    rw [mirrors.accounts, update_get]
  · intro same
    have accounts := congrArg RuntimeBlock.accounts (withRuntime_eq_iff.mp same)
    exact still (mirrors.accounts ▸ get_of_set_eq accounts)

/-- One contract is put in memory and in its row. -/
theorem planned_contract (agree : Agree s) (memory : s.memory = some bundle) {key : String} {contract : ContractState}
    {next : RuntimeBlock} (accounts : next.accounts = bundle.document.runtime.accounts)
    (contracts : next.contracts = bundle.document.runtime.contracts.set key contract) (row : RowWrite write)
    (writes : ∀ r u, write r = some u → r.rows = s.rows →
      u.rows = { s.rows with contracts := Function.update s.rows.contracts key (some contract) })
    (still : next = bundle.document.runtime → s.rows.contracts key = some contract → ∀ u, write s = some u → u = s) :
    Planned s bundle
      (.commits (bundle.withRuntime next) [write, persistBundle (bundle.withRuntime next)] output) := by
  have mirrors := agree.mirrors memory
  refine .writes next row ?_ ?_
  · intro filed u written
    rw [writes _ u written rfl]
    refine ⟨filed, ?_, ?_⟩
    · rw [accounts]
      exact mirrors.accounts
    · dsimp only
      rw [mirrors.contracts, update_get, contracts]
  · intro same
    have block := withRuntime_eq_iff.mp same
    refine still block (mirrors.contracts ▸ get_of_set_eq ?_)
    rw [← contracts, block]

theorem createAccountRow_rows {account : AccountState} (written : createAccountRow account s = some u) :
    s.rows.accounts account.publicKey = none ∧
      u.rows = { s.rows with accounts := Function.update s.rows.accounts account.publicKey (some account) } := by
  rw [createAccountRow] at written
  cases free : s.rows.accounts account.publicKey with
  | some row =>
    rw [free] at written
    cases written
  | none =>
    rw [free] at written
    cases written
    exact ⟨rfl, rfl⟩

theorem createContractRow_rows {contract : ContractState} (written : createContractRow contract s = some u) :
    s.rows.contracts contract.contractId = none ∧
      u.rows = { s.rows with contracts := Function.update s.rows.contracts contract.contractId (some contract) } := by
  rw [createContractRow] at written
  cases free : s.rows.contracts contract.contractId with
  | some row =>
    rw [free] at written
    cases written
  | none =>
    rw [free] at written
    cases written
    exact ⟨rfl, rfl⟩

theorem planned_createAccount (platform : Platform) (agree : Agree s) (memory : s.memory = some bundle)
    (input : CreateAccountInput) : Planned s bundle (createAccount platform bundle input) := by
  refine planned_account agree memory (rowWrite_createAccountRow _) ?_ ?_
  · intro r u written rows
    rw [(createAccountRow_rows written).2, rows]
  · intro present u written
    cases (createAccountRow_rows written).1.symm.trans present

theorem planned_deploy (platform : Platform) (agree : Agree s) (memory : s.memory = some bundle)
    (input : DeployInput) (now : Int) : Planned s bundle (deploy platform bundle input now) := by
  refine planned_contract agree memory rfl rfl (rowWrite_createContractRow _) ?_ ?_
  · intro r u written rows
    rw [(createContractRow_rows written).2, rows]
  · intro _ present u written
    cases (createContractRow_rows written).1.symm.trans present

theorem planned_fundAccount (agree : Agree s) (memory : s.memory = some bundle) (publicKey : String) (amount : ℚ) :
    Planned s bundle (fundAccount bundle publicKey amount) := by
  rw [fundAccount]
  dsimp only
  cases found : bundle.document.runtime.accounts.get publicKey with
  | none => exact .throws
  | some account =>
    have present : s.rows.accounts publicKey = some account := (agree.mirrors memory).accounts ▸ found
    refine planned_account agree memory (rowWrite_updateBalance _ _) ?_ ?_
    · intro r u written rows
      rw [updateBalance] at written
      rw [rows, present] at written
      cases written
      rfl
    · intro same u written
      rw [updateBalance] at written
      rw [same] at written
      cases written
      change { s with rows := { s.rows with accounts := Function.update s.rows.accounts publicKey (some _) } } = s
      rw [Function.update_eq_self_iff.mpr same.symm]

theorem planned_call (platform : Platform) (agree : Agree s) (memory : s.memory = some bundle)
    (input : CallInput) (now : Int) : Planned s bundle (call platform bundle input now) := by
  rw [call]
  dsimp only
  cases found : bundle.document.runtime.contracts.get input.contractId with
  | none => exact .throws
  | some contract =>
    have present : s.rows.contracts input.contractId = some contract := (agree.mirrors memory).contracts ▸ found
    dsimp only
    split
    · exact .throws
    · rename_i outcome computed
      split
      · refine planned_contract agree memory rfl rfl (rowWrite_updateCalled _ _ _) ?_ ?_
        · intro r u written rows
          rw [updateCalled] at written
          rw [rows, present] at written
          cases written
          rfl
        · intro same
          have index := congrArg RuntimeBlock.nextCallIndex same
          dsimp only at index
          omega
      · exact .logs _

/-- What an operation that changes the runtime is about to do, in a session that agrees. -/
theorem planned (platform : Platform) (agree : Agree s) (genesis : Genesis bundle.document.genesis)
    (memory : s.memory = some bundle) (found : Bool) (op : LiveOp) (changing : op.changing = true) :
    Planned s bundle (plan platform s bundle found op) := by
  cases op with
  | pauseSession | snapshotSession id => cases changing
  | resetSession => exact planned_resetSession agree genesis memory
  | restoreSnapshot snapshotId =>
    change Planned s bundle (restoreSnapshot s bundle found snapshotId)
    rw [restoreSnapshot]
    split
    · split
      · exact .throws
      · exact planned_replaceRuntime agree memory _
    · exact .throws
  | advanceSession ledgers seconds => exact planned_advanceSession s bundle ledgers seconds
  | createAccount input => exact planned_createAccount platform agree memory input
  | fundAccount publicKey amount => exact planned_fundAccount agree memory publicKey amount
  | deploy input now => exact planned_deploy platform agree memory input now
  | call input now => exact planned_call platform agree memory input now
  | importSession runtime => exact planned_replaceRuntime agree memory _

/-! ### One operation -/

theorem with_memory (memory : s.memory = some bundle) : { s with memory := some bundle } = s := by
  rw [← memory]

theorem persistBundle_eq (agree : Agree s) (memory : s.memory = some bundle) : persistBundle bundle s = some s := by
  obtain ⟨inMemory, sequence, timestamp, _⟩ := agree
  rw [persistBundle]
  rw [inMemory bundle memory, ← sequence, ← timestamp]

theorem agree_persistBundle (memory : s.memory = some bundle) (mirrors : Mirrors bundle.document.runtime s.rows)
    (written : persistBundle bundle s = some t) : Agree t := by
  cases written
  refine ⟨fun known present => ?_, rfl, rfl, mirrors⟩
  rw [Option.some.inj (present.symm.trans memory)]

theorem Planned.withRuntime (planned : Planned s bundle (.commits changed writes output)) :
    ∃ next, changed = bundle.withRuntime next := by
  cases planned with
  | moves next accounts contracts => exact ⟨next, rfl⟩
  | writes next row mirrors still => exact ⟨next, rfl⟩

theorem memory_perform (planned : Planned s bundle (.commits changed writes output)) (answer : Nat → Answer) :
    (perform answer writes { s with memory := some changed }).1.memory = some changed := by
  refine perform_invariant answer (fun r => r.memory = some changed) (fun write member r u memory written => ?_) rfl
  have persists : persistBundle changed r = some u → u.memory = some changed := by
    rintro ⟨⟩
    exact memory
  cases planned with
  | moves next accounts contracts => exact persists (List.mem_singleton.mp member ▸ written)
  | writes next row mirrors still =>
    rcases List.mem_cons.mp member with rfl | later
    · exact (row.keeps written).1.trans memory
    · exact persists (List.mem_singleton.mp later ▸ written)

theorem Planned.performed (planned : Planned s bundle (.commits changed writes output)) (agree : Agree s)
    (memory : s.memory = some bundle) (filed : Filed changed.document.runtime)
    (performed : perform answer writes { s with memory := some changed } = (t, true)) : Agree t := by
  cases planned with
  | moves next accounts contracts =>
    have mirrors := agree.mirrors memory
    refine agree_persistBundle rfl ⟨filed, ?_, ?_⟩ (perform_single performed)
    · exact mirrors.accounts.trans (congrArg OrderedMap.get accounts.symm)
    · exact mirrors.contracts.trans (congrArg OrderedMap.get contracts.symm)
  | writes next row mirrors still =>
    obtain ⟨u, written, persisted⟩ := perform_pair performed
    exact agree_persistBundle (row.keeps written).1 (mirrors filed u written) persisted

/-- Writes that put nothing new in memory put nothing new in the database. -/
theorem Planned.still (planned : Planned s bundle (.commits changed writes output)) (agree : Agree s)
    (memory : s.memory = some bundle) (same : changed = bundle) (answer : Nat → Answer) :
    (perform answer writes s).1 = s := by
  refine perform_invariant answer (fun r => r = s) (fun write member r u unchanged written => ?_) rfl
  subst unchanged
  have persists : persistBundle changed r = some u → u = r := by
    rw [same, persistBundle_eq agree memory, Option.some.injEq]
    exact Eq.symm
  cases planned with
  | moves next accounts contracts => exact persists (List.mem_singleton.mp member ▸ written)
  | writes next row mirrors still =>
    rcases List.mem_cons.mp member with rfl | later
    · exact still same u written
    · exact persists (List.mem_singleton.mp later ▸ written)

theorem getSession_of_memory (memory : s.memory = some bundle) (answers : Answers) : getSession s answers =
    (s, if answers.counted then .ok (.summary (summarizeSession s bundle)) else .error "Database") := by
  obtain ⟨_, session, rows, calls, snapshots⟩ := s
  cases memory
  rfl

/-- Nothing has changed where an operation throws, and where it returns there is agreement. -/
def Settled (s : State) : State × Except String Output → Prop
  | (t, .error _) => t = s
  | (t, .ok _) => Agree t

theorem settled_getSession (agree : Agree t) (memory : t.memory = some bundle)
    (nothing : answers.counted = false → t = s) : Settled s (getSession t answers) := by
  rw [getSession_of_memory memory]
  cases counted : answers.counted with
  | true => exact agree
  | false => exact nothing counted

theorem execute_settled {p : Plan} (agree : Agree s) (memory : s.memory = some bundle) (planned : Planned s bundle p)
    (harmless : p.Harmless s bundle answers) : Settled s (execute s answers p) := by
  cases p with
  | throws error => rfl
  | breaks changed error =>
    subst harmless
    exact with_memory memory
  | appends row output =>
    cases planned with
    | logs call =>
      rw [execute, perform]
      cases first : answers.write 0 with
      | done => exact ⟨agree.memory, agree.ledgerSequence, agree.ledgerTimestamp, agree.rows⟩
      | refused => rfl
      | lost => exact absurd first harmless
  | commits changed writes output =>
    unfold execute
    dsimp only
    rcases harmless with same | ⟨done, counted, filed⟩
    · have unchanged := planned.still agree memory same answers.write
      rw [same, with_memory memory]
      generalize perform answers.write writes s = performed at unchanged
      obtain ⟨t, flag⟩ := performed
      change t = s at unchanged
      subst unchanged
      cases flag with
      | false => rfl
      | true =>
        cases output with
        | some output => exact agree
        | none => exact settled_getSession agree memory fun _ => rfl
    · have inMemory := memory_perform planned answers.write
      have agrees : ∀ t, perform answers.write writes { s with memory := some changed } = (t, true) → Agree t :=
        fun t performed => planned.performed agree memory filed performed
      generalize perform answers.write writes { s with memory := some changed } = performed at done inMemory agrees
      obtain ⟨t, flag⟩ := performed
      change flag = true at done
      subst done
      have after : Agree t := agrees t rfl
      cases output with
      | some output => exact after
      | none =>
        refine settled_getSession after inMemory fun uncounted => ?_
        rw [counted rfl] at uncounted
        cases uncounted

/-- The outcome of an operation as the caller and all later ones see it. -/
def Seen (platform : Platform) (s : State) : State × Except String Output → Prop
  | (t, .error _) => runtime t = runtime s ∧ ∀ later, answersOf platform t later = answersOf platform s later
  | (t, .ok _) => Agree t

theorem Settled.seen {outcome : State × Except String Output} (settled : Settled s outcome) :
    Seen platform s outcome := by
  obtain ⟨t, _ | output⟩ := outcome
  · subst settled
    exact ⟨rfl, fun _ => rfl⟩
  · exact settled

theorem eq_of_runtime {next : RuntimeBlock} (before : s.memory = some bundle)
    (after : t.memory = some (bundle.withRuntime next)) (same : runtime t = runtime s) :
    bundle.withRuntime next = bundle := by
  simp only [runtime] at same
  rw [before, after, Option.map_some, Option.map_some, Option.some.injEq] at same
  exact withRuntime_eq_iff.mpr same

/-- A row that is not expected is counted by the next `getSession`. -/
theorem calls_of_answers (inS : s.memory = some bundle) (inT : t.memory = some bundle)
    (same : ∀ later, answersOf platform t later = answersOf platform s later) : t.calls.length = s.calls.length := by
  have answered := same [(.getSession, ⟨true, fun _ => .done, true⟩)]
  simp only [answersOf, operate, getSession_of_memory inS, getSession_of_memory inT, if_true, List.cons.injEq,
    Except.ok.injEq, Output.summary.injEq, and_true] at answered
  exact congrArg SessionSummary.callCount answered

theorem harmless_of_seen {p : Plan} (memory : s.memory = some bundle) (planned : Planned s bundle p)
    (seen : Seen platform s (execute s answers p)) : p.Harmless s bundle answers := by
  cases p with
  | throws error => trivial
  | breaks changed error =>
    cases planned with
    | breaks next => exact eq_of_runtime memory rfl seen.1
  | appends row output =>
    cases planned with
    | logs call =>
      intro lost
      rw [execute, perform] at seen
      simp only [lost] at seen
      have counted := calls_of_answers (t := { s with calls := s.calls ++ [call] }) memory memory seen.2
      rw [List.length_append, List.length_singleton] at counted
      omega
  | commits changed writes output =>
    obtain ⟨next, rfl⟩ := planned.withRuntime
    have inMemory := memory_perform planned answers.write
    rw [execute] at seen
    unfold Plan.Harmless
    dsimp only at seen ⊢
    generalize perform answers.write writes { s with memory := some (bundle.withRuntime next) } = performed
      at seen inMemory ⊢
    obtain ⟨t, flag⟩ := performed
    change t.memory = some (bundle.withRuntime next) at inMemory
    have agreed (agree : Agree t) : Filed (bundle.withRuntime next).document.runtime :=
      (agree.mirrors inMemory).filed
    cases flag with
    | false => exact .inl (eq_of_runtime memory inMemory seen.1)
    | true =>
      cases output with
      | some output => exact .inr ⟨rfl, fun impossible => (Bool.false_ne_true impossible).elim, agreed seen⟩
      | none =>
        dsimp only at seen
        rw [getSession_of_memory inMemory] at seen
        cases counted : answers.counted with
        | true =>
          rw [counted] at seen
          exact .inr ⟨rfl, fun _ => rfl, agreed seen⟩
        | false =>
          rw [counted] at seen
          exact .inl (eq_of_runtime memory inMemory seen.1)

theorem atomic_iff_seen (op : Op) : Atomic platform s answers op ↔ Seen platform s (operate platform s answers op) := by
  unfold Atomic Seen
  obtain ⟨t, _ | output⟩ := operate platform s answers op <;> rfl

/-- An operation on a session that agrees is atomic exactly when it does no harm. -/
theorem atomic_iff (agree : Agree s) (genesis : Genesis s.session.state.genesis) (op : LiveOp)
    (changing : op.changing = true) :
    Atomic platform s answers (.live op) ↔ Harmless platform s answers (.live op) := by
  rw [atomic_iff_seen]
  rw [operate, Harmless]
  cases memory : s.memory with
  | none =>
    constructor
    · intro _ _ bundle impossible
      cases impossible
    · intro _
      exact ⟨rfl, fun _ => rfl⟩
  | some bundle =>
    have plans := planned platform agree (agree.memory bundle memory ▸ genesis) memory answers.found op changing
    constructor
    · intro seen _ known present
      cases present
      exact harmless_of_seen memory plans seen
    · intro harmless
      exact (execute_settled agree memory plans (harmless changing bundle rfl)).seen

/-! ### Runs -/

/-- The block of the new session is kept, in memory and in the document. -/
structure Rooted (genesis : RuntimeBlock) (s : State) : Prop where
  session : s.session.state.genesis = genesis
  memory : ∀ bundle, s.memory = some bundle → bundle.document.genesis = genesis

variable {genesis : RuntimeBlock}

/-- A write that keeps the first block of the session. -/
def KeepsGenesis (genesis : RuntimeBlock) (write : Write) : Prop :=
  ∀ s u, Rooted genesis s → write s = some u → Rooted genesis u

theorem RowWrite.keepsGenesis (row : RowWrite write) : KeepsGenesis genesis write := by
  intro s u rooted written
  obtain ⟨memory, session⟩ := row.keeps written
  exact ⟨session ▸ rooted.session, memory ▸ rooted.memory⟩

theorem keepsGenesis_persistBundle (same : bundle.document.genesis = genesis) :
    KeepsGenesis genesis (persistBundle bundle) := by
  intro s u rooted written
  cases written
  exact ⟨same, rooted.memory⟩

theorem keepsGenesis_updateStatus (status : String) : KeepsGenesis genesis (updateStatus status) := by
  intro s u rooted written
  cases written
  exact ⟨rooted.session, rooted.memory⟩

def Plan.Rooted (genesis : RuntimeBlock) : Plan → Prop
  | .throws _ => True
  | .breaks changed _ => changed.document.genesis = genesis
  | .appends row _ => KeepsGenesis genesis fun s => some (row s)
  | .commits changed writes _ => changed.document.genesis = genesis ∧ ∀ write ∈ writes, KeepsGenesis genesis write

theorem Shape.rooted {p : Plan} (shape : Shape bundle p) (same : bundle.document.genesis = genesis) :
    p.Rooted genesis := by
  cases shape with
  | throws => trivial
  | breaks next => exact same
  | logs call | snapshots id =>
    rintro s u rooted ⟨⟩
    exact ⟨rooted.session, rooted.memory⟩
  | commits next rows all =>
    refine ⟨same, fun write member => ?_⟩
    rcases List.mem_append.mp member with row | last
    · exact (all write row).keepsGenesis
    · rw [List.mem_singleton.mp last]
      exact keepsGenesis_persistBundle same

theorem rooted_pauseSession (same : bundle.document.genesis = genesis) : (pauseSession bundle).Rooted genesis := by
  refine ⟨same, List.forall_mem_cons.mpr ⟨keepsGenesis_updateStatus _, fun write member => ?_⟩⟩
  rw [List.mem_singleton.mp member]
  exact keepsGenesis_persistBundle same

theorem rooted_plan (same : bundle.document.genesis = genesis) (platform : Platform) (s : State) (found : Bool)
    (op : LiveOp) : (plan platform s bundle found op).Rooted genesis := by
  by_cases pause : op = .pauseSession
  · subst pause
    exact rooted_pauseSession same
  · exact (shape_plan platform s bundle found op pause).rooted same

theorem rooted_getSession (rooted : Rooted genesis s) (answers : Answers) :
    Rooted genesis (getSession s answers).1 := by
  rw [getSession]
  split
  · exact rooted
  · refine ⟨rooted.session, fun bundle present => ?_⟩
    cases present
    cases memory : s.memory with
    | none => exact rooted.session
    | some known => exact rooted.memory known memory

theorem rooted_execute {p : Plan} (rooted : Rooted genesis s) (plan : p.Rooted genesis) :
    Rooted genesis (execute s answers p).1 := by
  have remembers {changed : RuntimeBundle} (same : changed.document.genesis = genesis) :
      Rooted genesis { s with memory := some changed } := by
    refine ⟨rooted.session, fun bundle present => ?_⟩
    cases present
    exact same
  cases p with
  | throws error => exact rooted
  | breaks changed error => exact remembers plan
  | appends row output =>
    exact execute_appends_invariant answers (Rooted genesis) (fun s rooted => plan s (row s) rooted rfl) rooted
  | commits changed writes output =>
    obtain ⟨same, each⟩ := plan
    exact execute_commits_invariant answers (Rooted genesis) each (fun s rooted => rooted_getSession rooted answers)
      (remembers same)

theorem rooted_destroySession (rooted : Rooted genesis s) (answers : Answers) :
    Rooted genesis (destroySession s answers).1 := by
  refine destroySession_invariant answers (Rooted genesis) (keepsGenesis_updateStatus "destroyed") ?_ rooted
  exact fun s kept => ⟨kept.session, fun _ impossible => nomatch impossible⟩

theorem rooted_operate (rooted : Rooted genesis s) (op : Op) : Rooted genesis (operate platform s answers op).1 := by
  cases op with
  | getSession => exact rooted_getSession rooted answers
  | destroySession => exact rooted_destroySession rooted answers
  | restart => exact ⟨rooted.session, fun _ impossible => nomatch impossible⟩
  | live op =>
    unfold operate
    dsimp only
    split
    · exact rooted
    · rename_i bundle memory
      exact rooted_execute rooted (rooted_plan (rooted.memory bundle memory) platform s answers.found op)

theorem rooted_created (genesis : RuntimeBlock) : Rooted genesis (created genesis) := by
  refine ⟨rfl, fun bundle present => ?_⟩
  cases present
  rfl

theorem agree_created (start : Genesis genesis) : Agree (created genesis) := by
  refine ⟨fun bundle present => ?_, rfl, rfl, start.filed, rfl, rfl⟩
  cases present
  rfl

/-- Some block of a new session is kept. -/
def Started (s : State) : Prop := ∃ genesis, Genesis genesis ∧ Rooted genesis s

theorem started_of_reachable (reached : (engine platform).Reachable s) : Started s := by
  refine reached.invariant ?_ ?_
  · rintro s ⟨genesis, start, rfl⟩
    exact ⟨genesis, start, rooted_created genesis⟩
  · rintro s ⟨op, answers⟩ t ⟨genesis, start, rooted⟩ _ stepped
    cases stepped
    exact ⟨genesis, start, rooted_operate rooted op⟩

/-- A status is no part of the agreement. -/
theorem Agree.updateStatus (agree : Agree s) (status : String) (written : updateStatus status s = some u) :
    Agree u := by
  cases written
  exact ⟨agree.memory, agree.ledgerSequence, agree.ledgerTimestamp, agree.rows⟩

theorem session_getSession (s : State) (answers : Answers) : (getSession s answers).1.session = s.session := by
  rw [getSession]
  split <;> rfl

theorem Agree.getSession (agree : Agree s) (answers : Answers) : Agree (getSession s answers).1 := by
  rw [SandboxEngine.getSession]
  split
  · exact agree
  · refine ⟨fun bundle present => ?_, agree.ledgerSequence, agree.ledgerTimestamp, agree.rows⟩
    cases present
    cases memory : s.memory with
    | none => rfl
    | some known => exact agree.memory known memory

theorem Agree.forget (agree : Agree s) : Agree { s with memory := none } := by
  refine ⟨fun bundle impossible => ?_, agree.ledgerSequence, agree.ledgerTimestamp, agree.rows⟩
  cases impossible

theorem Agree.destroySession (agree : Agree s) (answers : Answers) : Agree (destroySession s answers).1 := by
  refine destroySession_invariant answers Agree ?_ (fun s kept => kept.forget) agree
  exact fun s u agree written => agree.updateStatus _ written

theorem Agree.pauseSession (agree : Agree s) (memory : s.memory = some bundle) (answers : Answers) :
    Agree (execute s answers (pauseSession bundle)).1 := by
  have document := agree.memory bundle memory
  have paused : Agree { s with memory := some { bundle with status := "paused" } } := by
    refine ⟨fun known present => ?_, agree.ledgerSequence, agree.ledgerTimestamp, agree.rows⟩
    cases present
    exact document
  have each : ∀ write ∈ [SandboxEngine.updateStatus "paused", persistBundle { bundle with status := "paused" }],
      ∀ r u, (Agree r ∧ r.session.state = bundle.document) → write r = some u →
        Agree u ∧ u.session.state = bundle.document := by
    rintro write member r u ⟨agree, state⟩ written
    rcases List.mem_cons.mp member with rfl | later
    · refine ⟨agree.updateStatus _ written, ?_⟩
      cases written
      exact state
    · cases List.mem_singleton.mp later
      cases written
      refine ⟨⟨fun known present => ?_, rfl, rfl, state ▸ agree.rows⟩, rfl⟩
      exact (agree.memory known present).trans state
  have opened (r : State) (here : Agree r ∧ r.session.state = bundle.document) :
      Agree (SandboxEngine.getSession r answers).1 ∧
        (SandboxEngine.getSession r answers).1.session.state = bundle.document :=
    ⟨here.1.getSession answers, (congrArg Session.state (session_getSession r answers)).trans here.2⟩
  exact (execute_commits_invariant answers _ each opened ⟨paused, document.symm⟩).1

theorem Agree.snapshotSession (agree : Agree s) (id : String) (answers : Answers) :
    Agree (execute s answers (snapshotSession bundle id)).1 := by
  refine execute_appends_invariant answers Agree (fun r agree => ?_) agree
  exact ⟨agree.memory, agree.ledgerSequence, agree.ledgerTimestamp, agree.rows⟩

/-- One step that does no harm keeps the agreement. -/
theorem agree_operate (agree : Agree s) (start : Genesis genesis) (rooted : Rooted genesis s) (op : Op)
    (harmless : Harmless platform s answers op) : Agree (operate platform s answers op).1 := by
  cases op with
  | getSession => exact agree.getSession answers
  | destroySession => exact agree.destroySession answers
  | restart => exact agree.forget
  | live op =>
    unfold operate
    dsimp only
    cases memory : s.memory with
    | none => exact agree
    | some bundle =>
      by_cases changing : op.changing = true
      · have began := (rooted.memory bundle memory).symm ▸ start
        have plans := planned platform agree began memory answers.found op changing
        have settled := execute_settled agree memory plans (harmless changing bundle memory)
        dsimp only
        generalize execute s answers (plan platform s bundle answers.found op) = outcome at settled ⊢
        obtain ⟨t, _ | output⟩ := outcome
        · exact settled ▸ agree
        · exact settled
      · cases op with
        | pauseSession => exact agree.pauseSession memory answers
        | snapshotSession id => exact agree.snapshotSession id answers
        | resetSession | restoreSnapshot _ | advanceSession _ _ | createAccount _ | fundAccount _ _ | deploy _ _
        | call _ _ | importSession _ => exact absurd rfl changing

theorem operations_atomic_iff (platform : Platform) :
    (∀ s, (engine platform).Reachable s → Agree s → ∀ op answers, op.changing = true →
      (Atomic platform s answers (.live op) ↔ Harmless platform s answers (.live op))) ∧
    ∀ genesis labels, Genesis genesis →
      (engine platform).Guarded (fun s a => Harmless platform s a.2 a.1) (created genesis) labels →
      (engine platform).Along Agree (created genesis) labels := by
  constructor
  · intro s reached agree op answers changing
    obtain ⟨genesis, start, rooted⟩ := started_of_reachable reached
    exact atomic_iff agree (rooted.session.symm ▸ start) op changing
  · intro genesis labels start guarded
    refine along_of_guarded (fun s => Agree s ∧ Rooted genesis s) And.left ?_
      ⟨agree_created start, rooted_created genesis⟩ guarded
    rintro s ⟨op, answers⟩ t ⟨agree, rooted⟩ harmless stepped
    cases stepped
    exact ⟨agree_operate agree start rooted op harmless, rooted_operate rooted op⟩

/-- Names for keys, contracts that answer nothing. -/
def plain : Platform where
  makePublicKey index := "G" ++ toString index
  makeContractId index salt := "C" ++ salt ++ toString index
  wasmHash _ := ""
  defaultAbiForTemplate _ := .null
  templateStateForDeploy _ _ := .null
  executeTemplateFunction _ _ _ _ := none

/-- A session without accounts. -/
def blank : RuntimeBlock := ⟨1, 0, 0, OrderedMap.empty, OrderedMap.empty⟩

theorem genesis_blank : Genesis blank := by
  refine ⟨⟨?_, ?_⟩, rfl⟩
  · rintro _ _ ⟨⟩
  · rintro _ _ ⟨⟩

def carriedOut : Answers := ⟨true, fun _ => .done, true⟩

theorem operations_atomic_advance :
    (engine plain).Along Agree (created blank) [(.live (.advanceSession 1 5), carriedOut)] := by
  refine (operations_atomic_iff plain).2 blank _ genesis_blank ?_
  intro t _
  refine ⟨fun _ bundle present => ?_, trivial⟩
  cases present
  exact .inr ⟨rfl, fun _ => rfl, genesis_blank.filed.accounts, genesis_blank.filed.contracts⟩

/-- The database refuses the row of a new account: the operation throws, the account stays in memory. -/
theorem refused_account_stays : (engine plain).Reachable (created blank) ∧ Agree (created blank) ∧
    (operate plain (created blank) ⟨true, fun _ => .refused, true⟩ (.live (.createAccount ⟨none, 5, false⟩))).2 =
      .error "Database" ∧
    ¬ Atomic plain (created blank) ⟨true, fun _ => .refused, true⟩ (.live (.createAccount ⟨none, 5, false⟩)) := by
  refine ⟨.initial ⟨blank, genesis_blank, rfl⟩, agree_created genesis_blank, rfl, ?_⟩
  rintro ⟨same, _⟩
  have sizes := congrArg (fun r : Option RuntimeBlock => r.map fun block => block.accounts.keys.length) same
  exact absurd sizes (by decide)

end Octraban.SandboxEngine
