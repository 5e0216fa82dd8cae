import Octraban.Sandbox.Atomicity

/-! Snapshots and resets over runs: whatever happens in between, restarts and failures of the database included, a
restored session stands where it stood when the snapshot was taken, and a reset one where it was created. -/
namespace Octraban.SandboxEngine
open Transition System JavaScript

variable {platform : Platform} {s t u v : State} {bundle : RuntimeBundle} {answers : Answers} {id : String}
  {block genesis : RuntimeBlock} {writes : List Write} {write : Write}

/-! ### Snapshots are kept -/

def Holds (id : String) (block : RuntimeBlock) (s : State) : Prop := s.snapshots.lookup id = some block

theorem RowWrite.keeps_snapshots (row : RowWrite write) (written : write s = some u) : u.snapshots = s.snapshots := by
  obtain ⟨effect, eq⟩ := row
  rw [eq, Option.map_eq_some_iff] at written
  obtain ⟨next, _, rfl⟩ := written
  rfl

theorem lookup_append (holds : Holds id block s) (later : List (String × RuntimeBlock)) :
    (s.snapshots ++ later).lookup id = some block := by
  rw [List.lookup_append, holds]
  rfl

theorem holds_getSession (holds : Holds id block s) (answers : Answers) : Holds id block (getSession s answers).1 := by
  rw [getSession]
  split
  · exact holds
  · exact holds

/-- The row writes of a plan, its document and a status touch no snapshot. -/
theorem holds_commits (holds : Holds id block s) {next : RuntimeBundle} {output : Option Output}
    (each : ∀ write ∈ writes, ∀ s u, write s = some u → u.snapshots = s.snapshots) :
    Holds id block (execute s answers (.commits next writes output)).1 := by
  refine execute_commits_invariant answers (Holds id block) ?_ (fun s holds => holds_getSession holds answers) holds
  intro write member s u holds written
  rw [Holds, each write member s u written]
  exact holds

theorem holds_execute {p : Plan} (shape : Shape bundle p) (holds : Holds id block s) :
    Holds id block (execute s answers p).1 := by
  cases shape with
  | throws | breaks next => exact holds
  | logs call => exact execute_appends_invariant answers (Holds id block) (fun s holds => holds) holds
  | snapshots other =>
    exact execute_appends_invariant answers (Holds id block) (fun s holds => lookup_append holds _) holds
  | commits next rows all =>
    refine holds_commits holds fun write member s u written => ?_
    rcases List.mem_append.mp member with row | last
    · exact (all write row).keeps_snapshots written
    · cases List.mem_singleton.mp last
      cases written
      rfl

theorem holds_pauseSession (holds : Holds id block s) : Holds id block (execute s answers (pauseSession bundle)).1 := by
  refine holds_commits holds fun write member s u written => ?_
  rcases List.mem_cons.mp member with rfl | last
  · cases written
    rfl
  · cases List.mem_singleton.mp last
    cases written
    rfl

theorem holds_operate (holds : Holds id block s) (op : Op) : Holds id block (operate platform s answers op).1 := by
  cases op with
  | getSession => exact holds_getSession holds answers
  | restart => exact holds
  | destroySession =>
    refine destroySession_invariant answers (Holds id block) ?_ (fun s holds => holds) holds
    intro s u holds written
    cases written
    exact holds
  | live op =>
    unfold operate
    dsimp only
    split
    · exact holds
    · rename_i bundle _
      by_cases pause : op = .pauseSession
      · subst pause
        exact holds_pauseSession holds
      · exact holds_execute (shape_plan platform s bundle answers.found op pause) holds

theorem holds_run {labels : List (Op × Answers)} (holds : Holds id block s)
    (ran : (engine platform).run s labels = some t) : Holds id block t := by
  have preserves {s : State} {a : Op × Answers} {t : State} (holds : Holds id block s) (_ : True)
      (stepped : (engine platform).step s a = some t) : Holds id block t := by
    cases stepped
    exact holds_operate holds a.1
  exact run_invariant preserves holds (fun _ _ => trivial) ran

/-! ### What a success leaves -/

/-- The session stands at a block: in memory, in its document and in the rows of its accounts and contracts. -/
structure StandsAt (block : RuntimeBlock) (s : State) : Prop where
  memory : ∃ bundle, s.memory = some bundle ∧ bundle.document.runtime = block
  document : s.session.state.runtime = block
  ledgerSequence : s.session.ledgerSequence = block.ledgerSequence
  ledgerTimestamp : s.session.ledgerTimestamp = block.ledgerTimestamp
  accounts : s.rows.accounts = rowOf AccountState.publicKey (objectValues block.accounts)
  contracts : s.rows.contracts = rowOf ContractState.contractId (objectValues block.contracts)

theorem StandsAt.getSession (stands : StandsAt block s) (answers : Answers) :
    StandsAt block (getSession s answers).1 := by
  obtain ⟨bundle, memory, runtime⟩ := stands.memory
  rw [SandboxEngine.getSession, memory]
  exact ⟨⟨bundle, rfl, runtime⟩, stands.document, stands.ledgerSequence, stands.ledgerTimestamp, stands.accounts,
    stands.contracts⟩

/-- A plan that rewrites the rows from a block and succeeds leaves the session at the block. -/
theorem standsAt_of_rewrite {output : Output} {contracts : List ContractState}
    (all : contracts = objectValues block.contracts)
    (ok : execute s answers (.commits (bundle.withRuntime block)
      [rewriteLiveRows (objectValues block.accounts) contracts, persistBundle (bundle.withRuntime block)] none) =
        (v, .ok output)) : StandsAt block v := by
  subst all
  unfold execute at ok
  dsimp only at ok
  cases performed : perform answers.write [rewriteLiveRows (objectValues block.accounts) (objectValues block.contracts),
      persistBundle (bundle.withRuntime block)] { s with memory := some (bundle.withRuntime block) } with
  | mk r flag =>
    rw [performed] at ok
    cases flag with
    | false => cases ok
    | true =>
      have stands : StandsAt block r := by
        obtain ⟨q, rewritten, persisted⟩ := perform_pair performed
        rw [rewriteLiveRows] at rewritten
        split at rewritten
        · cases rewritten
          cases persisted
          exact ⟨⟨bundle.withRuntime block, rfl, rfl⟩, rfl, rfl, rfl, rfl, rfl⟩
        · cases rewritten
      have opened := stands.getSession answers
      dsimp only at ok
      rwa [ok] at opened

/-- The first snapshot with an id holds the runtime of the session. -/
theorem holds_of_snapshot {output : Output} (memory : s.memory = some bundle) (fresh : s.snapshots.lookup id = none)
    (taken : operate platform s answers (.live (.snapshotSession id)) = (t, .ok output)) :
    Holds id bundle.document.runtime t := by
  unfold operate at taken
  dsimp only at taken
  rw [memory] at taken
  unfold plan snapshotSession execute at taken
  dsimp only at taken
  cases performed : perform answers.write
      [fun s : State => some { s with snapshots := s.snapshots ++ [(id, bundle.document.runtime)] }] s with
  | mk r flag =>
    rw [performed] at taken
    cases flag with
    | false => cases taken
    | true =>
      have written := perform_single performed
      cases taken
      cases written
      rw [Holds, List.lookup_append, fresh, List.lookup_cons_self]
      rfl

theorem standsAt_of_restore {output : Output} (holds : Holds id block s)
    (restored : operate platform s answers (.live (.restoreSnapshot id)) = (v, .ok output)) : StandsAt block v := by
  unfold operate at restored
  dsimp only at restored
  cases memory : s.memory with
  | none =>
    rw [memory] at restored
    cases restored
  | some bundle =>
    rw [memory] at restored
    change execute s answers (restoreSnapshot s bundle answers.found id) = _ at restored
    rw [restoreSnapshot] at restored
    split at restored
    · have known : s.snapshots.lookup id = some block := holds
      rw [known] at restored
      exact standsAt_of_rewrite rfl restored
    · cases restored

/-- Whatever happens to a session after a snapshot, once it is restored the session stands where it stood. -/
theorem snapshot_restored (platform : Platform) (s t u v : State) (bundle : RuntimeBundle) (id : String)
    (answers answers' : Answers) (labels : List (Op × Answers)) (output output' : Output)
    (memory : s.memory = some bundle) (fresh : s.snapshots.lookup id = none)
    (taken : operate platform s answers (.live (.snapshotSession id)) = (t, .ok output))
    (ran : (engine platform).run t labels = some u)
    (restored : operate platform u answers' (.live (.restoreSnapshot id)) = (v, .ok output')) :
    StandsAt bundle.document.runtime v :=
  standsAt_of_restore (holds_run (holds_of_snapshot memory fresh taken) ran) restored

theorem rooted_run {labels : List (Op × Answers)} (rooted : Rooted genesis s)
    (ran : (engine platform).run s labels = some t) : Rooted genesis t := by
  have preserves {s : State} {a : Op × Answers} {t : State} (rooted : Rooted genesis s) (_ : True)
      (stepped : (engine platform).step s a = some t) : Rooted genesis t := by
    cases stepped
    exact rooted_operate rooted a.1
  exact run_invariant preserves rooted (fun _ _ => trivial) ran

theorem objectValues_of_genesis (start : Genesis genesis) : objectValues genesis.contracts = [] := by
  rw [objectValues, ownEntries, start.contracts]
  rfl

/-- A reset takes a session back to where it was created, from wherever a run has led. -/
theorem session_reset (platform : Platform) (genesis : RuntimeBlock) (start : Genesis genesis) (labels : List (Op × Answers))
    (u v : State) (answers : Answers) (output : Output) (ran : (engine platform).run (created genesis) labels = some u)
    (reset : operate platform u answers (.live .resetSession) = (v, .ok output)) : StandsAt genesis v := by
  have rooted := rooted_run (rooted_created genesis) ran
  unfold operate at reset
  dsimp only at reset
  cases memory : u.memory with
  | none =>
    rw [memory] at reset
    cases reset
  | some bundle =>
    rw [memory] at reset
    obtain rfl := rooted.memory bundle memory
    exact standsAt_of_rewrite (objectValues_of_genesis start).symm reset

def restoredRun : List (Op × Answers) :=
  [(.live (.advanceSession 5 60), carriedOut), (.restart, carriedOut), (.getSession, carriedOut)]

theorem snapshot_restored_after_restart : ∃ u v output output',
    operate plain (created blank) carriedOut (.live (.snapshotSession "s1")) =
      ({ created blank with snapshots := [("s1", blank)] }, .ok output) ∧
    (engine plain).run { created blank with snapshots := [("s1", blank)] } restoredRun = some u ∧
    operate plain u carriedOut (.live (.restoreSnapshot "s1")) = (v, .ok output') ∧ StandsAt blank v := by
  refine ⟨_, _, _, _, rfl, rfl, rfl, ?_⟩
  exact snapshot_restored plain (created blank) _ _ _ ⟨"active", blank, blank⟩ "s1" carriedOut carriedOut restoredRun
    _ _ rfl rfl rfl rfl rfl

theorem session_reset_after_advance : ∃ u v output,
    (engine plain).run (created blank) [(.live (.advanceSession 5 60), carriedOut)] = some u ∧
    operate plain u carriedOut (.live .resetSession) = (v, .ok output) ∧ StandsAt blank v := by
  refine ⟨_, _, _, rfl, rfl, ?_⟩
  exact session_reset plain blank genesis_blank [(.live (.advanceSession 5 60), carriedOut)] _ _ carriedOut _ rfl rfl

end Octraban.SandboxEngine
