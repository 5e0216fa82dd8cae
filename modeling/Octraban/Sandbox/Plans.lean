import Octraban.Sandbox.Engine

/-! What the operations of a session have in common: a plan changes the runtime in memory, then
writes rows, then the document. -/
namespace Octraban.SandboxEngine
open Transition System JavaScript

/-- A write that looks at the rows only, and touches them and the log of calls. -/
def RowWrite (write : Write) : Prop := ∃ effect : Rows → Option (Rows × List SandboxCall), ∀ s,
  write s = (effect s.rows).map fun next => { s with rows := next.1, calls := s.calls ++ next.2 }

inductive Shape (bundle : RuntimeBundle) : Plan → Prop where
  | throws : Shape bundle (.throws error)
  | breaks (next : RuntimeBlock) : Shape bundle (.breaks (bundle.withRuntime next) error)
  | logs (call : SandboxCall) : Shape bundle (.appends (fun s => { s with calls := s.calls ++ [call] }) output)
  | snapshots (id : String) : Shape bundle
      (.appends (fun s => { s with snapshots := s.snapshots ++ [(id, bundle.document.runtime)] }) output)
  | commits (next : RuntimeBlock) (rows : List Write) (all : ∀ write ∈ rows, RowWrite write) :
      Shape bundle (.commits (bundle.withRuntime next) (rows ++ [persistBundle (bundle.withRuntime next)]) output)

variable {s t u : State} {bundle : RuntimeBundle} {answer : Nat → Answer} {writes : List Write} {write : Write}

/-! ### Writes -/

theorem perform_invariant (answer : Nat → Answer) (Q : State → Prop)
    (each : ∀ write ∈ writes, ∀ s u, Q s → write s = some u → Q u) (start : Q s) :
    Q (perform answer writes s).1 := by
  induction writes generalizing s answer with
  | nil => exact start
  | cons write rest ih =>
    obtain ⟨here, later⟩ := List.forall_mem_cons.mp each
    rw [perform]
    cases written : write s with
    | none => exact start
    | some u =>
      have kept : Q u := here s u start written
      cases answer 0 with
      | done => exact ih _ later kept
      | refused => exact start
      | lost => exact kept

theorem perform_one_invariant (answer : Nat → Answer) (Q : State → Prop)
    (each : ∀ s u, Q s → write s = some u → Q u) (start : Q s) : Q (perform answer [write] s).1 := by
  refine perform_invariant answer Q (fun known member => ?_) start
  rw [List.mem_singleton.mp member]
  exact each

theorem destroySession_invariant (answers : Answers) (Q : State → Prop)
    (each : ∀ s u, Q s → updateStatus "destroyed" s = some u → Q u)
    (forget : ∀ s, Q s → Q { s with memory := none }) (start : Q s) : Q (destroySession s answers).1 := by
  have kept := perform_one_invariant answers.write Q each start
  rw [destroySession]
  generalize perform answers.write [updateStatus "destroyed"] s = performed at kept ⊢
  obtain ⟨t, _ | _⟩ := performed
  · exact kept
  · exact forget t kept

theorem execute_appends_invariant (answers : Answers) (Q : State → Prop) {row : State → State}
    (each : ∀ s, Q s → Q (row s)) (start : Q s) : Q (execute s answers (.appends row output)).1 := by
  have kept : Q (perform answers.write [fun s => some (row s)] s).1 :=
    perform_one_invariant answers.write Q (fun s u here written => Option.some.inj written ▸ each s here) start
  unfold execute
  dsimp only
  generalize perform answers.write [fun s => some (row s)] s = performed at kept ⊢
  obtain ⟨t, _ | _⟩ := performed
  · exact kept
  · exact kept

theorem execute_commits_invariant (answers : Answers) (Q : State → Prop)
    (each : ∀ write ∈ writes, ∀ s u, Q s → write s = some u → Q u)
    (opened : ∀ s, Q s → Q (getSession s answers).1) (start : Q { s with memory := some bundle }) :
    Q (execute s answers (.commits bundle writes output)).1 := by
  have kept := perform_invariant answers.write Q each start
  unfold execute
  dsimp only
  generalize perform answers.write writes { s with memory := some bundle } = performed at kept ⊢
  obtain ⟨t, _ | _⟩ := performed
  · exact kept
  · cases output with
    | some output => exact kept
    | none => exact opened t kept

theorem perform_cons (performed : perform answer (write :: writes) s = (t, true)) :
    ∃ u, write s = some u ∧ perform (fun i => answer (i + 1)) writes u = (t, true) := by
  rw [perform] at performed
  cases written : write s with
  | none =>
    rw [written] at performed
    cases performed
  | some u =>
    rw [written] at performed
    cases first : answer 0 with
    | done =>
      rw [first] at performed
      exact ⟨u, rfl, performed⟩
    | refused | lost =>
      rw [first] at performed
      cases performed

theorem perform_nil (performed : perform answer [] s = (t, true)) : t = s := by
  cases performed
  rfl

theorem perform_single (performed : perform answer [write] s = (t, true)) : write s = some t := by
  obtain ⟨u, written, rest⟩ := perform_cons performed
  rw [perform_nil rest, written]

theorem perform_pair (performed : perform answer [first, second] s = (t, true)) :
    ∃ u, first s = some u ∧ second u = some t := by
  obtain ⟨u, written, rest⟩ := perform_cons performed
  exact ⟨u, written, perform_single rest⟩

theorem RowWrite.keeps (row : RowWrite write) (written : write s = some u) :
    u.memory = s.memory ∧ u.session = s.session := by
  obtain ⟨effect, eq⟩ := row
  rw [eq, Option.map_eq_some_iff] at written
  obtain ⟨next, _, rfl⟩ := written
  exact ⟨rfl, rfl⟩

theorem rowWrite_createAccountRow (account : AccountState) : RowWrite (createAccountRow account) := by
  refine ⟨fun rows => (rows.accounts account.publicKey).elim
    (some ({ rows with accounts := Function.update rows.accounts account.publicKey (some account) }, []))
    fun _ => none, ?_⟩
  intro s
  rw [createAccountRow]
  dsimp only
  cases s.rows.accounts account.publicKey with
  | some row => rfl
  | none => simp

theorem rowWrite_createContractRow (contract : ContractState) : RowWrite (createContractRow contract) := by
  refine ⟨fun rows => (rows.contracts contract.contractId).elim
    (some ({ rows with contracts := Function.update rows.contracts contract.contractId (some contract) }, []))
    fun _ => none, ?_⟩
  intro s
  rw [createContractRow]
  dsimp only
  cases s.rows.contracts contract.contractId with
  | some row => rfl
  | none => simp

theorem rowWrite_updateBalance (publicKey : String) (balance : ℚ) : RowWrite (updateBalance publicKey balance) := by
  refine ⟨fun rows => (rows.accounts publicKey).map fun row => ({ rows with
    accounts := Function.update rows.accounts publicKey (some { row with balance := balance }) }, []), ?_⟩
  intro s
  rw [updateBalance]
  dsimp only
  cases s.rows.accounts publicKey with
  | none => rfl
  | some row => simp

theorem rowWrite_updateCalled (contractId : String) (contract : ContractState) (call : SandboxCall) :
    RowWrite (updateCalled contractId contract call) := by
  refine ⟨fun rows => (rows.contracts contractId).map fun row => ({ rows with
    contracts := Function.update rows.contracts contractId (some { row with
      state := contract.state
      lastCalledAt := contract.lastCalledAt
      totalCalls := contract.totalCalls }) }, [call]), ?_⟩
  intro s
  rw [updateCalled]
  dsimp only
  cases s.rows.contracts contractId with
  | none => rfl
  | some row => rfl

theorem rowWrite_rewriteLiveRows (accounts : List AccountState) (contracts : List ContractState) :
    RowWrite (rewriteLiveRows accounts contracts) := by
  refine ⟨fun _ => if (accounts.map AccountState.publicKey).Nodup ∧ (contracts.map ContractState.contractId).Nodup then
    some (⟨rowOf AccountState.publicKey accounts, rowOf ContractState.contractId contracts⟩, []) else none, ?_⟩
  intro s
  rw [rewriteLiveRows]
  split
  · simp
  · rfl

/-! ### Plans -/

theorem shape_writes (next : RuntimeBlock) (row : RowWrite write) : Shape bundle
    (.commits (bundle.withRuntime next) [write, persistBundle (bundle.withRuntime next)] output) :=
  .commits next [write] fun _ member => List.mem_singleton.mp member ▸ row

theorem shape_replaceRuntime (bundle : RuntimeBundle) (next : RuntimeBlock) :
    Shape bundle (replaceRuntime bundle next) :=
  shape_writes next (rowWrite_rewriteLiveRows _ _)

theorem shape_call (platform : Platform) (bundle : RuntimeBundle) (input : CallInput) (now : Int) :
    Shape bundle (call platform bundle input now) := by
  rw [call]
  dsimp only
  split
  · exact .throws
  · split
    · exact .throws
    · split
      · exact shape_writes _ (rowWrite_updateCalled _ _ _)
      · exact .logs _

theorem shape_plan (platform : Platform) (s : State) (bundle : RuntimeBundle) (found : Bool) (op : LiveOp)
    (other : op ≠ .pauseSession) : Shape bundle (plan platform s bundle found op) := by
  cases op with
  | pauseSession => exact absurd rfl other
  | resetSession => exact shape_writes _ (rowWrite_rewriteLiveRows _ _)
  | snapshotSession id => exact .snapshots id
  | restoreSnapshot snapshotId =>
    change Shape bundle (restoreSnapshot s bundle found snapshotId)
    rw [restoreSnapshot]
    split
    · split
      · exact .throws
      · exact shape_replaceRuntime bundle _
    · exact .throws
  | advanceSession ledgers seconds =>
    change Shape bundle (advanceSession bundle ledgers seconds)
    rw [advanceSession]
    dsimp only
    split
    · exact .commits _ [] fun _ impossible => (List.not_mem_nil impossible).elim
    · exact .breaks _
  | createAccount input => exact shape_writes _ (rowWrite_createAccountRow _)
  | fundAccount publicKey amount =>
    change Shape bundle (fundAccount bundle publicKey amount)
    rw [fundAccount]
    dsimp only
    split
    · exact .throws
    · exact shape_writes _ (rowWrite_updateBalance _ _)
  | deploy input now => exact shape_writes _ (rowWrite_createContractRow _)
  | call input now => exact shape_call platform bundle input now
  | importSession runtime => exact shape_replaceRuntime bundle _

end Octraban.SandboxEngine
