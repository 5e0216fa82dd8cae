import Octraban.Api.DataMarket

/-! The books of the archival nodes: what is at stake, slashed and withdrawn against what was deposited
and recorded, and how often a challenge is settled. A database call moves one account at most. -/
namespace Octraban.DataMarket
open JavaScript

/-- The books of a node: its columns, and what the writes have done to it. -/
structure Account where
  staked : ℚ
  slashed : ℚ
  totalChallenges : Nat
  outcomes : Nat
  deposited : ℚ
  unstaked : ℚ
  recorded : ℚ
  counted : Nat
  settled : Nat

namespace Account

def deposit (account : Account) (amount : ℚ) : Account :=
  { account with staked := account.staked + amount, deposited := account.deposited + amount }

def unstake (account : Account) (amount : ℚ) : Account :=
  { account with staked := account.staked - amount, unstaked := account.unstaked + amount }

def count (account : Account) : Account :=
  { account with totalChallenges := account.totalChallenges + 1, counted := account.counted + 1 }

def settle (account : Account) (slash : ℚ) : Account :=
  { account with
    staked := account.staked - slash, slashed := account.slashed + slash
    outcomes := account.outcomes + 1, settled := account.settled + 1 }

def record (account : Account) (slash : ℚ) : Account := { account with recorded := account.recorded + slash }

/-- What was deposited is staked, slashed or withdrawn. -/
def Conserved (account : Account) : Prop :=
  account.staked + account.slashed + account.unstaked = account.deposited

/-- `owed` is what has been slashed and is still to be recorded. -/
structure Balanced (account : Account) (owed : ℚ) : Prop where
  solvent : 0 ≤ account.staked
  conserved : account.Conserved
  slashes : account.slashed = account.recorded + owed
  counts : account.totalChallenges = account.counted
  settlements : account.outcomes = account.settled

variable {account : Account} {owed amount : ℚ}

theorem Conserved.deposit (conserved : account.Conserved) : (account.deposit amount).Conserved := by
  dsimp only [Conserved, Account.deposit] at conserved ⊢
  linarith only [conserved]

theorem Conserved.unstake (conserved : account.Conserved) : (account.unstake amount).Conserved := by
  dsimp only [Conserved, Account.unstake] at conserved ⊢
  linarith only [conserved]

theorem Conserved.settle (conserved : account.Conserved) : (account.settle amount).Conserved := by
  dsimp only [Conserved, Account.settle] at conserved ⊢
  linarith only [conserved]

theorem Balanced.deposit (balanced : account.Balanced owed) (positive : 0 ≤ amount) :
    (account.deposit amount).Balanced owed :=
  ⟨add_nonneg balanced.solvent positive, balanced.conserved.deposit, balanced.slashes, balanced.counts,
    balanced.settlements⟩

theorem Balanced.unstake (balanced : account.Balanced owed) (covered : amount ≤ account.staked) :
    (account.unstake amount).Balanced owed :=
  ⟨sub_nonneg_of_le covered, balanced.conserved.unstake, balanced.slashes, balanced.counts, balanced.settlements⟩

theorem Balanced.count (balanced : account.Balanced owed) : account.count.Balanced owed :=
  ⟨balanced.solvent, balanced.conserved, balanced.slashes, congrArg (· + 1) balanced.counts, balanced.settlements⟩

theorem Balanced.settle (balanced : account.Balanced owed) (covered : amount ≤ account.staked) :
    (account.settle amount).Balanced (owed + amount) := by
  refine ⟨sub_nonneg_of_le covered, balanced.conserved.settle, ?_, balanced.counts,
    congrArg (· + 1) balanced.settlements⟩
  have slashes := balanced.slashes
  dsimp only [Account.settle]
  linarith only [slashes]

theorem Balanced.record (balanced : account.Balanced (owed + amount)) : (account.record amount).Balanced owed := by
  refine ⟨balanced.solvent, balanced.conserved, ?_, balanced.counts, balanced.settlements⟩
  have slashes := balanced.slashes
  dsimp only [Account.record]
  linarith only [slashes]

end Account

/-- The sum of the entries of an address. -/
def paid (address : String) (entries : List (String × ℚ)) : ℚ :=
  (entries.map fun entry => if entry.1 = address then entry.2 else 0).sum

namespace Db

def column {M : Type} [Zero M] (db : Db) (address : String) (read : ArchivalNode → M) : M :=
  (db.nodes address).elim 0 read

def account (db : Db) (address : String) : Account where
  staked := db.column address ArchivalNode.stakedAmount
  slashed := db.column address ArchivalNode.slashedAmount
  totalChallenges := db.column address ArchivalNode.totalChallenges
  outcomes := db.column address fun node => node.challengesPassed + node.challengesFailed
  deposited := paid address db.deposits
  unstaked := paid address db.unstakes
  recorded := paid address (db.slashes.map fun slash => (slash.nodeId, slash.amount))
  counted := db.counted.countP fun entry => entry.2 = address
  settled := db.settled.countP fun entry => entry.2 = address

def isFinal (db : Db) (id : Nat) : Bool :=
  (db.challenges[id]?).any fun challenge => challenge.status = .verified ∨ challenge.status = .failed

end Db

/-- No request is in progress. -/
def State.Idle (s : State) : Prop := ∀ pending ∈ s.calls, ∃ reply, pending = .ended reply

structure Accounted (s : State) : Prop where
  solvent : ∀ address, 0 ≤ (s.primary.account address).staked
  conserved : ∀ address, (s.primary.account address).Conserved
  slashes : s.Idle → ∀ address, (s.primary.account address).slashed = (s.primary.account address).recorded
  counters : ∀ address, (s.primary.account address).outcomes ≤ (s.primary.account address).totalChallenges
  settledOnce : (s.primary.settled.map Prod.fst).Nodup
  finalOnce : s.primary.finals.Nodup

/-- What was read still holds when it is acted on: the stake covers what is taken off it, a challenge
written to is not final, and one that is settled has been counted. -/
def upholds (db : Db) : Pending → Bool
  | .unstakeUpdate address amount => amount ≤ (db.account address).staked
  | .respondUpdate id _ | .zkUpdate id _ => !db.isFinal id
  | .verifySettle id challenge node passed => !db.isFinal id && (id, challenge.nodeId) ∈ db.counted &&
      slashAmount node passed ≤ (db.account challenge.nodeId).staked
  | _ => true

/-- And the record of a slash does not fail. -/
def careful (s : State) : Act → Bool
  | .resume call true => s.calls[call]?.all (upholds s.primary)
  | .resume call false => s.calls[call]?.all fun
    | .slashCreate _ _ => false
    | _ => true
  | _ => true

def Pending.owes (address : String) : Pending → ℚ
  | .slashCreate slash _ => if slash.nodeId = address then slash.amount else 0
  | _ => 0

/-- What the checks and the first read of a request leave to rely on. -/
def Pending.Relies : Pending → Prop
  | .registerCreate _ stakeAmount _ => 0 ≤ stakeAmount
  | .stakeUpdate _ amount _ => 0 ≤ amount
  | .verifySettle _ _ node passed => 0 ≤ slashAmount node passed
  | _ => True

structure Kept (db : Db) (owed : String → ℚ) : Prop where
  accounts : ∀ address, (db.account address).Balanced (owed address)
  finals : ∀ id ∈ db.finals, db.isFinal id = true
  settledFinal : ∀ entry ∈ db.settled, entry.1 ∈ db.finals
  covered : ∀ entry ∈ db.settled, entry ∈ db.counted
  settledOnce : (db.settled.map Prod.fst).Nodup
  finalOnce : db.finals.Nodup

def State.owed (s : State) (address : String) : ℚ := (s.calls.map (Pending.owes address)).sum

structure Sound (s : State) : Prop where
  kept : Kept s.primary s.owed
  replica : ∀ address, 0 ≤ (s.replica.account address).staked
  calls : ∀ pending ∈ s.calls, pending.Relies

/-- A call that owes nothing. -/
structure Quiet (pending : Pending) : Prop where
  relies : pending.Relies
  owes : ∀ address, pending.owes address = 0

/-- What a call leaves behind: the books, and what its request owes next. -/
structure Keeps (owed : String → ℚ) (moved : Db × Pending) : Prop where
  kept : Kept moved.1 fun address => owed address + moved.2.owes address
  relies : moved.2.Relies

variable {db t : Db} {address other : String} {owed owed' : String → ℚ} {node : ArchivalNode} {amount : ℚ}

theorem paid_append (entries : List (String × ℚ)) :
    paid other (entries ++ [(address, amount)]) = paid other entries + if address = other then amount else 0 := by
  simp [paid]

theorem countP_append (entries : List (Nat × String)) (id : Nat) :
    (entries ++ [(id, address)]).countP (fun entry => entry.2 = other) =
      entries.countP (fun entry => entry.2 = other) + if address = other then 1 else 0 := by
  rw [List.countP_append, List.countP_singleton]
  simp

theorem paid_append_ne (entries : List (String × ℚ)) (differs : other ≠ address) :
    paid other (entries ++ [(address, amount)]) = paid other entries := by
  rw [paid_append, if_neg (Ne.symm differs), add_zero]

theorem countP_append_ne (entries : List (Nat × String)) (id : Nat) (differs : other ≠ address) :
    (entries ++ [(id, address)]).countP (fun entry => entry.2 = other) =
      entries.countP fun entry => entry.2 = other := by
  rw [countP_append, if_neg (Ne.symm differs), Nat.add_zero]

theorem account_found (found : db.nodes address = some node) : db.account address = {
    staked := node.stakedAmount
    slashed := node.slashedAmount
    totalChallenges := node.totalChallenges
    outcomes := node.challengesPassed + node.challengesFailed
    deposited := paid address db.deposits
    unstaked := paid address db.unstakes
    recorded := paid address (db.slashes.map fun slash => (slash.nodeId, slash.amount))
    counted := db.counted.countP fun entry => entry.2 = address
    settled := db.settled.countP fun entry => entry.2 = address } := by
  simp [Db.account, Db.column, found]

theorem account_congr (db : Db) (nodes : t.nodes other = db.nodes other)
    (deposits : paid other t.deposits = paid other db.deposits)
    (unstakes : paid other t.unstakes = paid other db.unstakes) (slashes : t.slashes = db.slashes)
    (counted : (t.counted.countP fun entry => entry.2 = other) = db.counted.countP fun entry => entry.2 = other)
    (settled : (t.settled.countP fun entry => entry.2 = other) = db.settled.countP fun entry => entry.2 = other) :
    t.account other = db.account other := by
  simp only [Db.account, Db.column, nodes, deposits, unstakes, slashes, counted, settled]

theorem Kept.quiet {pending : Pending} (kept : Kept db owed) (quiet : Quiet pending) : Keeps owed (db, pending) := by
  refine ⟨?_, quiet.relies⟩
  simpa only [quiet.owes, add_zero] using kept

theorem quiet_ended (reply : Reply) : Quiet (.ended reply) := ⟨trivial, fun _ => rfl⟩

theorem Kept.ended {reply : Reply} (kept : Kept db owed) : Keeps owed (db, .ended reply) :=
  kept.quiet (quiet_ended reply)

/-- A write that moves one account. -/
structure Moves (db t : Db) (address : String) (moved : Account) : Prop where
  here : t.account address = moved
  elsewhere : ∀ other, other ≠ address → t.account other = db.account other

theorem moves_register (amount : ℚ) (stakeAsset : String) (unknown : db.nodes address = none) :
    Moves db (db.register address amount stakeAsset).1 address ((db.account address).deposit amount) := by
  rw [Db.register, unknown]
  refine ⟨?_, fun other differs => ?_⟩
  · rw [account_found (Function.update_self _ _ _)]
    simp [Db.account, Db.column, Db.newNode, Account.deposit, Db.setNode, unknown, paid_append]
  · exact account_congr db (Function.update_of_ne differs _ _) (paid_append_ne db.deposits differs) rfl rfl rfl rfl

theorem moves_stake (amount : ℚ) (asset : String) (found : db.nodes address = some node) :
    Moves db (db.stake address amount asset).1 address ((db.account address).deposit amount) := by
  rw [Db.stake, Db.updateNode, found]
  refine ⟨?_, fun other differs => ?_⟩
  · rw [account_found (Function.update_self _ _ _), account_found found]
    simp [Account.deposit, Db.setNode, paid_append]
  · exact account_congr db (Function.update_of_ne differs _ _) (paid_append_ne db.deposits differs) rfl rfl rfl rfl

theorem moves_unstake (amount : ℚ) (found : db.nodes address = some node) :
    Moves db (db.unstake address amount).1 address ((db.account address).unstake amount) := by
  rw [Db.unstake, Db.updateNode, found]
  refine ⟨?_, fun other differs => ?_⟩
  · rw [account_found (Function.update_self _ _ _), account_found found]
    simp [Account.unstake, Db.setNode, paid_append]
  · exact account_congr db (Function.update_of_ne differs _ _) rfl (paid_append_ne db.unstakes differs) rfl rfl rfl

variable {env : Environment} {id : Nat} {challenge stored : StorageChallenge} {read : ArchivalNode} {passed : Bool}

theorem moves_countChallenge (id : Nat) (found : db.nodes challenge.nodeId = some node) :
    Moves db (db.countChallenge id challenge).1 challenge.nodeId (db.account challenge.nodeId).count := by
  rw [Db.countChallenge, Db.updateNode, found]
  refine ⟨?_, fun other differs => ?_⟩
  · rw [account_found (Function.update_self _ _ _), account_found found]
    simp [Account.count, Db.setNode]
  · exact account_congr db (Function.update_of_ne differs _ _) rfl rfl rfl (countP_append_ne db.counted id differs) rfl

theorem moves_settle (env : Environment) (read : ArchivalNode) (passed : Bool)
    (foundChallenge : db.challenges[id]? = some stored)
    (found : db.nodes challenge.nodeId = some node) :
    Moves db (db.settle env id challenge read passed).1 challenge.nodeId
      ((db.account challenge.nodeId).settle (slashAmount read passed)) := by
  rw [Db.settle, foundChallenge, found]
  refine ⟨?_, fun other differs => ?_⟩
  · rw [account_found (Function.update_self _ _ _), account_found found]
    cases passed with
    | false => simp [Db.settledNode, Account.settle, Db.setNode, Nat.add_assoc]
    | true => simp [Db.settledNode, Account.settle, Db.setNode, slashAmount, Nat.add_right_comm]
  · exact account_congr db (Function.update_of_ne differs _ _) rfl rfl rfl rfl
      (countP_append_ne db.settled id differs)

theorem account_recordSlash (slash : ArchivalSlash) (reply : Reply) (address : String) :
    (db.recordSlash slash reply).1.account address =
      (db.account address).record ((Pending.slashCreate slash reply).owes address) := by
  simp [Db.account, Db.recordSlash, Account.record, Pending.owes, paid_append, Db.column]

theorem Moves.all {moved : Account} {P : Account → Prop} (moves : Moves db t address moved)
    (before : ∀ other, P (db.account other)) (here : P moved) (other : String) : P (t.account other) := by
  by_cases same : other = address
  · rw [same, moves.here]
    exact here
  · rw [moves.elsewhere other same]
    exact before other

/-- Whatever is interleaved, and whatever has changed since it was read, the books add up. -/
theorem conserved_perform (conserved : ∀ address, (db.account address).Conserved) (pending : Pending) :
    ∀ address, ((db.perform env pending).1.account address).Conserved := by
  cases pending with
  | registerCreate address stakeAmount stakeAsset =>
    cases found : db.nodes address with
    | none => exact (moves_register stakeAmount stakeAsset found).all conserved (conserved address).deposit
    | some node =>
      rw [Db.perform, Db.register, found]
      exact conserved
  | stakeUpdate address amount asset =>
    cases found : db.nodes address with
    | none =>
      rw [Db.perform, Db.stake, Db.updateNode, found]
      exact conserved
    | some node => exact (moves_stake amount asset found).all conserved (conserved address).deposit
  | unstakeUpdate address amount =>
    cases found : db.nodes address with
    | none =>
      rw [Db.perform, Db.unstake, Db.updateNode, found]
      exact conserved
    | some node => exact (moves_unstake amount found).all conserved (conserved address).unstake
  | challengeCount id challenge =>
    cases found : db.nodes challenge.nodeId with
    | none =>
      rw [Db.perform, Db.countChallenge, Db.updateNode, found]
      exact conserved
    | some node => exact (moves_countChallenge id found).all conserved (conserved challenge.nodeId)
  | verifySettle id challenge read passed =>
    cases foundChallenge : db.challenges[id]? with
    | none =>
      rw [Db.perform, Db.settle, foundChallenge]
      exact conserved
    | some stored =>
      cases found : db.nodes challenge.nodeId with
      | none =>
        rw [Db.perform, Db.settle, foundChallenge, found]
        exact conserved
      | some node =>
        exact (moves_settle env read passed foundChallenge found).all conserved (conserved challenge.nodeId).settle
  | slashCreate slash reply =>
    intro address
    rw [Db.perform, account_recordSlash]
    exact conserved address
  | respondUpdate id responseData =>
    rw [Db.perform, Db.respond, Db.updateChallenge]
    split
    · exact conserved
    · exact conserved
  | zkUpdate id responseData =>
    rw [Db.perform, Db.proveZk, Db.updateChallenge]
    split
    · exact conserved
    · exact conserved
  | challengeEpoch | challengeCreate | ended => exact conserved

/-- A write that moves one account, and no challenge. -/
theorem Kept.move {moved : Account} (kept : Kept db owed) (moves : Moves db t address moved)
    (balanced : moved.Balanced (owed address)) (challenges : t.challenges = db.challenges)
    (settled : t.settled = db.settled) (counted : ∀ entry ∈ db.counted, entry ∈ t.counted)
    (finals : t.finals = db.finals) : Kept t owed where
  accounts other := by
    by_cases same : other = address
    · rw [same, moves.here]
      exact balanced
    · rw [moves.elsewhere other same]
      exact kept.accounts other
  finals id member := by
    rw [finals] at member
    rw [Db.isFinal, challenges]
    exact kept.finals id member
  settledFinal entry member := by
    rw [settled] at member
    rw [finals]
    exact kept.settledFinal entry member
  covered entry member := by
    rw [settled] at member
    exact counted entry (kept.covered entry member)
  settledOnce := by
    rw [settled]
    exact kept.settledOnce
  finalOnce := by
    rw [finals]
    exact kept.finalOnce

theorem Kept.register {stakeAsset : String} (kept : Kept db owed) (positive : 0 ≤ amount) :
    Keeps owed (db.register address amount stakeAsset) := by
  cases found : db.nodes address with
  | some node =>
    rw [Db.register, found]
    exact kept.ended
  | none =>
    have moves := moves_register amount stakeAsset found
    rw [Db.register, found] at moves ⊢
    exact (kept.move moves ((kept.accounts address).deposit positive) rfl rfl (fun _ => id) rfl).ended

theorem Kept.stake {asset : String} (kept : Kept db owed) (positive : 0 ≤ amount) :
    Keeps owed (db.stake address amount asset) := by
  cases found : db.nodes address with
  | none =>
    rw [Db.stake, Db.updateNode, found]
    exact kept.ended
  | some node =>
    have moves := moves_stake amount asset found
    rw [Db.stake, Db.updateNode, found] at moves ⊢
    exact (kept.move moves ((kept.accounts address).deposit positive) rfl rfl (fun _ => id) rfl).ended

theorem Kept.unstake (kept : Kept db owed) (covered : amount ≤ (db.account address).staked) :
    Keeps owed (db.unstake address amount) := by
  cases found : db.nodes address with
  | none =>
    rw [Db.unstake, Db.updateNode, found]
    exact kept.ended
  | some node =>
    have moves := moves_unstake amount found
    rw [Db.unstake, Db.updateNode, found] at moves ⊢
    exact (kept.move moves ((kept.accounts address).unstake covered) rfl rfl (fun _ => id) rfl).ended

theorem Kept.count (kept : Kept db owed) : Keeps owed (db.countChallenge id challenge) := by
  cases found : db.nodes challenge.nodeId with
  | none =>
    rw [Db.countChallenge, Db.updateNode, found]
    exact kept.ended
  | some node =>
    have moves := moves_countChallenge id found
    rw [Db.countChallenge, Db.updateNode, found] at moves ⊢
    exact (kept.move moves (kept.accounts challenge.nodeId).count rfl rfl (fun _ => List.mem_append_left _) rfl).ended

theorem isFinal_set_ne {another : Nat} (challenges : t.challenges = db.challenges.set id challenge)
    (differs : another ≠ id) : t.isFinal another = db.isFinal another := by
  rw [Db.isFinal, Db.isFinal, challenges, List.getElem?_set_ne (Ne.symm differs)]

theorem isFinal_set_self (challenges : t.challenges = db.challenges.set id challenge)
    (found : db.challenges[id]? = some stored) (final : challenge.status = .verified ∨ challenge.status = .failed) :
    t.isFinal id = true := by
  have within : id < db.challenges.length := (List.getElem?_eq_some_iff.mp found).1
  rw [Db.isFinal, challenges, List.getElem?_set_self within, Option.any_some, decide_eq_true_eq]
  exact final

theorem Kept.notMem_finals (kept : Kept db owed) (open_ : db.isFinal id = false) : id ∉ db.finals := by
  intro member
  rw [kept.finals id member] at open_
  cases open_

theorem Kept.nodup_finals (kept : Kept db owed) (open_ : db.isFinal id = false) : (db.finals ++ [id]).Nodup := by
  rw [← List.concat_eq_append]
  exact kept.finalOnce.concat (kept.notMem_finals open_)

/-- A challenge that is not final may be written to, and may become final. -/
theorem Kept.finals_set (kept : Kept db owed) (open_ : db.isFinal id = false)
    (challenges : t.challenges = db.challenges.set id challenge) : ∀ another ∈ db.finals, t.isFinal another = true := by
  intro another member
  have differs : another ≠ id := by
    rintro rfl
    exact kept.notMem_finals open_ member
  rw [isFinal_set_ne challenges differs]
  exact kept.finals another member

theorem final_verdict (passed : Bool) : (if passed then ChallengeStatus.verified else .failed) = .verified ∨
    (if passed then ChallengeStatus.verified else .failed) = .failed := by
  cases passed with
  | false => exact .inr rfl
  | true => exact .inl rfl

/-- A final status is given to a challenge that had none. -/
theorem Kept.finals_append (kept : Kept db owed) (open_ : db.isFinal id = false)
    (found : db.challenges[id]? = some stored) (challenges : t.challenges = db.challenges.set id challenge)
    (final : challenge.status = .verified ∨ challenge.status = .failed) :
    ∀ another ∈ db.finals ++ [id], t.isFinal another = true := by
  intro another member
  rcases List.mem_append.mp member with old | new
  · exact kept.finals_set open_ challenges another old
  · obtain rfl := List.mem_singleton.mp new
    exact isFinal_set_self challenges found final

theorem Kept.createChallenge {epochId nodeId : String} {type : ChallengeType} {challengeData : Value}
    (kept : Kept db owed) : Keeps owed (db.createChallenge epochId nodeId type challengeData) := by
  refine Kept.quiet ?_ ⟨trivial, fun _ => rfl⟩
  refine ⟨kept.accounts, fun id member => ?_, kept.settledFinal, kept.covered, kept.settledOnce, kept.finalOnce⟩
  have final := kept.finals id member
  unfold Db.isFinal at final ⊢
  obtain ⟨challenge, found, status⟩ := (Option.any_eq_true _ _).mp final
  have within : id < db.challenges.length := (List.getElem?_eq_some_iff.mp found).1
  rw [List.getElem?_append_left within, found, Option.any_some]
  exact status

theorem Kept.respond {responseData : Value} (kept : Kept db owed) (open_ : db.isFinal id = false) :
    Keeps owed (db.respond id responseData) := by
  unfold Db.respond Db.updateChallenge
  cases found : db.challenges[id]? with
  | none => exact kept.ended
  | some stored =>
    exact Kept.ended
      ⟨kept.accounts, kept.finals_set open_ rfl, kept.settledFinal, kept.covered, kept.settledOnce, kept.finalOnce⟩

theorem Kept.proveZk {responseData : Value} (kept : Kept db owed) (open_ : db.isFinal id = false) :
    Keeps owed (db.proveZk env id responseData) := by
  unfold Db.proveZk Db.updateChallenge
  cases found : db.challenges[id]? with
  | none => exact kept.ended
  | some stored =>
    refine Kept.ended ⟨kept.accounts, ?_, fun entry member => ?_, kept.covered, kept.settledOnce, ?_⟩
    · exact kept.finals_append open_ found rfl (final_verdict (verifyZkProof env responseData))
    · exact List.mem_append_left _ (kept.settledFinal entry member)
    · exact kept.nodup_finals open_

/-- A slash that is taken off is to be recorded. -/
theorem owes_settle (relies : 0 ≤ slashAmount read passed) (reply : Reply) (reason : String) :
    (if ¬ passed ∧ slashAmount read passed > 0 then
      Pending.slashCreate ⟨challenge.nodeId, id, slashAmount read passed, reason⟩ reply
    else .ended reply).owes address = if challenge.nodeId = address then slashAmount read passed else 0 := by
  by_cases taken : ¬ passed ∧ slashAmount read passed > 0
  · rw [if_pos taken]
    rfl
  · have nothing : slashAmount read passed = 0 := by
      cases passed with
      | true => rfl
      | false => exact le_antisymm (not_lt.mp fun positive => taken ⟨Bool.false_ne_true, positive⟩) relies
    rw [if_neg taken, nothing, ite_self]
    rfl

theorem Kept.settle (kept : Kept db owed) (relies : 0 ≤ slashAmount read passed) (open_ : db.isFinal id = false)
    (counted : (id, challenge.nodeId) ∈ db.counted)
    (covered : slashAmount read passed ≤ (db.account challenge.nodeId).staked) :
    Keeps owed (db.settle env id challenge read passed) := by
  cases foundChallenge : db.challenges[id]? with
  | none =>
    rw [Db.settle, foundChallenge]
    exact kept.ended
  | some stored =>
    cases found : db.nodes challenge.nodeId with
    | none =>
      rw [Db.settle, foundChallenge, found]
      exact kept.ended
    | some node =>
      have moves := moves_settle env read passed foundChallenge found
      rw [Db.settle, foundChallenge, found] at moves ⊢
      refine ⟨⟨fun address => ?_, ?_, fun entry member => ?_, fun entry member => ?_, ?_, ?_⟩, ?_⟩
      · dsimp only
        rw [owes_settle relies]
        by_cases same : challenge.nodeId = address
        · subst same
          rw [if_pos rfl, moves.here]
          exact (kept.accounts challenge.nodeId).settle covered
        · rw [if_neg same, add_zero, moves.elsewhere address (Ne.symm same)]
          exact kept.accounts address
      · exact kept.finals_append open_ foundChallenge rfl (final_verdict passed)
      · rcases List.mem_append.mp member with old | new
        · exact List.mem_append_left _ (kept.settledFinal entry old)
        · obtain rfl := List.mem_singleton.mp new
          exact List.mem_append_right _ (List.mem_singleton_self id)
      · rcases List.mem_append.mp member with old | new
        · exact kept.covered entry old
        · obtain rfl := List.mem_singleton.mp new
          exact counted
      · have new : id ∉ db.settled.map Prod.fst := by
          intro member
          obtain ⟨entry, among, rfl⟩ := List.mem_map.mp member
          exact kept.notMem_finals open_ (kept.settledFinal entry among)
        rw [List.map_append, List.map_singleton, ← List.concat_eq_append]
        exact kept.settledOnce.concat new
      · exact kept.nodup_finals open_
      · dsimp only
        split
        · trivial
        · trivial

theorem Kept.recordSlash {slash : ArchivalSlash} {reply : Reply}
    (kept : Kept db fun address => owed address + (Pending.slashCreate slash reply).owes address) :
    Keeps owed (db.recordSlash slash reply) := by
  refine Kept.ended ⟨fun address => ?_, kept.finals, kept.settledFinal, kept.covered, kept.settledOnce, kept.finalOnce⟩
  convert (kept.accounts address).record using 1
  exact account_recordSlash slash reply address

theorem quiet_reject {p : Prop} [Decidable p] {reply : Reply} {next : Pending} (accepted : ¬ p → Quiet next) :
    Quiet (if p then .ended reply else next) := by
  split
  · exact quiet_ended reply
  · rename_i valid
    exact accepted valid

theorem quiet_readEpoch (nodeAddress epochId : String) (type : ChallengeType) (drawn : Drawn) :
    Quiet (readEpoch env nodeAddress epochId type drawn) := by
  unfold readEpoch
  split
  · exact quiet_ended _
  · split
    · exact quiet_ended _
    · exact ⟨trivial, fun _ => rfl⟩

theorem Kept.unowed {pending : Pending} (kept : Kept db fun address => owed address + pending.owes address)
    (nothing : ∀ address, pending.owes address = 0) : Kept db owed := by
  simpa only [nothing, add_zero] using kept

theorem Kept.perform (env : Environment) {pending : Pending}
    (kept : Kept db fun address => owed address + pending.owes address) (relies : pending.Relies)
    (allowed : upholds db pending = true) : Keeps owed (db.perform env pending) := by
  cases pending with
  | slashCreate slash reply => exact kept.recordSlash
  | ended reply => exact ⟨kept, trivial⟩
  | registerCreate address stakeAmount stakeAsset =>
    exact (kept.unowed fun _ => rfl).register relies
  | stakeUpdate address amount asset =>
    exact (kept.unowed fun _ => rfl).stake relies
  | unstakeUpdate address amount =>
    exact (kept.unowed fun _ => rfl).unstake (of_decide_eq_true allowed)
  | challengeEpoch nodeAddress epochId type drawn =>
    exact (kept.unowed fun _ => rfl).quiet (quiet_readEpoch ..)
  | challengeCreate epochId nodeId type challengeData =>
    exact (kept.unowed fun _ => rfl).createChallenge
  | challengeCount id challenge =>
    exact (kept.unowed fun _ => rfl).count
  | respondUpdate id responseData =>
    exact (kept.unowed fun _ => rfl).respond (Bool.not_eq_true' _ |>.mp allowed)
  | verifySettle id challenge node passed =>
    rw [upholds, Bool.and_eq_true_iff, Bool.and_eq_true_iff] at allowed
    obtain ⟨⟨open_, counted⟩, covered⟩ := allowed
    exact (kept.unowed fun _ => rfl).settle relies (Bool.not_eq_true' _ |>.mp open_) (of_decide_eq_true counted)
      (of_decide_eq_true covered)
  | zkUpdate id responseData =>
    exact (kept.unowed fun _ => rfl).proveZk (Bool.not_eq_true' _ |>.mp allowed)

theorem slashRates_nonneg (n : Nat) : 0 ≤ slashRates.getD n 0 := by
  have all : ∀ rate ∈ slashRates, 0 ≤ rate := by decide +kernel
  rw [List.getD_eq_getElem?_getD]
  cases found : slashRates[n]? with
  | none => exact le_refl 0
  | some rate => exact all rate (List.mem_of_getElem? found)

theorem slashAmount_nonneg (solvent : 0 ≤ node.stakedAmount) : 0 ≤ slashAmount node passed := by
  unfold slashAmount
  split
  · exact le_refl 0
  · exact mul_nonneg solvent (slashRates_nonneg _)

theorem staked_nonneg (solvent : ∀ address, 0 ≤ (db.account address).staked) (found : db.nodes address = some node) :
    0 ≤ node.stakedAmount := by
  have staked := solvent address
  rw [account_found found] at staked
  exact staked

/-- After the first read nothing is owed, and amounts are not negative. -/
theorem quiet_start (solvent : ∀ address, 0 ≤ (db.account address).staked) (request : Request) :
    Quiet (start env db request) := by
  cases request with
  | register address stakeAmount stakeAsset =>
    refine quiet_reject fun valid => ?_
    have enough : minStake ≤ stakeAmount := not_lt.mp fun small => valid (.inr small)
    split
    · exact quiet_ended _
    · exact ⟨le_trans (by decide : (0 : ℚ) ≤ minStake) enough, fun _ => rfl⟩
  | stake address amount asset =>
    refine quiet_reject fun valid => ?_
    have positive : 0 < amount := not_le.mp fun small => valid (.inr small)
    split
    · exact quiet_ended _
    · exact quiet_reject fun _ => ⟨le_of_lt positive, fun _ => rfl⟩
  | unstake address amount =>
    refine quiet_reject fun valid => ?_
    split
    · exact quiet_ended _
    · exact quiet_reject fun _ => ⟨trivial, fun _ => rfl⟩
  | challenge nodeAddress epochId type drawn =>
    refine quiet_reject fun valid => ?_
    split
    · exact quiet_ended _
    · exact quiet_reject fun _ => ⟨trivial, fun _ => rfl⟩
  | respond id responseData =>
    rw [start]
    split
    · exact quiet_ended _
    · exact quiet_reject fun _ => ⟨trivial, fun _ => rfl⟩
  | verify id =>
    rw [start]
    split
    · exact quiet_ended _
    · refine quiet_reject fun responded => ?_
      split
      · rename_i epoch node _ found
        exact ⟨slashAmount_nonneg (staked_nonneg solvent found), fun _ => rfl⟩
      · exact quiet_ended _
  | zkProof challengeId proof publicSignals =>
    refine quiet_reject fun valid => ?_
    split
    · exact quiet_ended _
    · exact quiet_reject fun _ => ⟨trivial, fun _ => rfl⟩

variable {s : State} {call : Nat} {pending : Pending}

theorem owed_goto (found : s.calls[call]? = some pending) (moved : Db × Pending) (address : String) :
    (s.goto call moved).owed address = s.owed address - pending.owes address + moved.2.owes address := by
  obtain ⟨within, rfl⟩ := List.getElem?_eq_some_iff.mp found
  unfold State.owed State.goto
  dsimp only
  rw [List.map_set, List.sum_set', dif_pos (by rw [List.length_map]; exact within), List.getElem_map]
  ring

theorem Sound.goto (sound : Sound s) (found : s.calls[call]? = some pending) {moved : Db × Pending}
    (keeps : Keeps (fun address => s.owed address - pending.owes address) moved) : Sound (s.goto call moved) where
  kept := by
    have owed : (s.goto call moved).owed =
        fun address => s.owed address - pending.owes address + moved.2.owes address :=
      funext (owed_goto found moved)
    rw [owed]
    exact keeps.kept
  replica := sound.replica
  calls other member := by
    rcases List.mem_or_eq_of_mem_set member with old | rfl
    · exact sound.calls other old
    · exact keeps.relies

theorem Sound.others (sound : Sound s) (pending : Pending) :
    Kept s.primary fun address => s.owed address - pending.owes address + pending.owes address := by
  simpa only [sub_add_cancel] using sound.kept

theorem step_resume {answered : Bool} {t : State} (found : s.calls[call]? = some pending)
    (stepped : step env s (.resume call answered) = some t) :
    t = s.goto call (if answered then s.primary.perform env pending else (s.primary, .ended .failed)) := by
  rw [step, found] at stepped
  cases pending with
  | ended reply => cases stepped
  | registerCreate | stakeUpdate | unstakeUpdate | challengeEpoch | challengeCreate | challengeCount | respondUpdate
    | verifySettle | slashCreate | zkUpdate => exact (Option.some.inj stepped).symm

/-- A call that fails owes nothing, where the record of a slash does not fail. -/
theorem owes_of_careful (found : s.calls[call]? = some pending) (allowed : careful s (.resume call false) = true)
    (address : String) : pending.owes address = 0 := by
  rw [careful, found, Option.all_some] at allowed
  cases pending with
  | slashCreate slash reply => cases allowed
  | registerCreate | stakeUpdate | unstakeUpdate | challengeEpoch | challengeCreate | challengeCount | respondUpdate
    | verifySettle | zkUpdate | ended => rfl

theorem Sound.step {act : Act} {t : State} (sound : Sound s) (allowed : careful s act = true)
    (stepped : step env s act = some t) : Sound t := by
  cases act with
  | request request =>
    obtain rfl := Option.some.inj stepped
    have quiet : Quiet (start env s.replica request) := quiet_start sound.replica request
    refine ⟨?_, sound.replica, fun pending member => ?_⟩
    · have owed : State.owed { s with calls := s.calls ++ [start env s.replica request] } = s.owed := by
        funext address
        simp [State.owed, quiet.owes]
      rw [owed]
      exact sound.kept
    · rcases List.mem_append.mp member with old | new
      · exact sound.calls pending old
      · obtain rfl := List.mem_singleton.mp new
        exact quiet.relies
  | replicate =>
    obtain rfl := Option.some.inj stepped
    exact ⟨sound.kept, fun address => (sound.kept.accounts address).solvent, sound.calls⟩
  | resume call answered =>
    cases found : s.calls[call]? with
    | none => rw [DataMarket.step, found] at stepped; cases stepped
    | some pending =>
      obtain rfl := step_resume found stepped
      apply sound.goto found
      cases answered with
      | true =>
        rw [careful, found, Option.all_some] at allowed
        exact (sound.others pending).perform env (sound.calls pending (List.mem_of_getElem? found)) allowed
      | false =>
        have quiet := owes_of_careful found allowed
        simp only [quiet, sub_zero]
        exact sound.kept.ended

theorem conserved_initial (address : String) : (Db.initial.account address).Conserved := by
  have zero : Db.initial.account address = ⟨0, 0, 0, 0, 0, 0, 0, 0, 0⟩ := rfl
  rw [zero, Account.Conserved]
  norm_num

def State.Conserved (s : State) : Prop := ∀ address, (s.primary.account address).Conserved

theorem State.Conserved.step {act : Act} {t : State} (conserved : s.Conserved) (stepped : step env s act = some t) :
    t.Conserved := by
  cases act with
  | request request =>
    obtain rfl := Option.some.inj stepped
    exact conserved
  | replicate =>
    obtain rfl := Option.some.inj stepped
    exact conserved
  | resume call answered =>
    cases found : s.calls[call]? with
    | none => rw [DataMarket.step, found] at stepped; cases stepped
    | some pending =>
      obtain rfl := step_resume found stepped
      cases answered with
      | true => exact conserved_perform conserved pending
      | false => exact conserved

theorem Sound.accounted (sound : Sound s) : Accounted s where
  solvent address := (sound.kept.accounts address).solvent
  conserved address := (sound.kept.accounts address).conserved
  slashes idle address := by
    have nothing : s.owed address = 0 := by
      apply List.sum_eq_zero
      intro owes member
      obtain ⟨pending, among, rfl⟩ := List.mem_map.mp member
      obtain ⟨reply, rfl⟩ := idle pending among
      rfl
    rw [(sound.kept.accounts address).slashes, nothing, add_zero]
  counters address := by
    have once : s.primary.settled.Nodup := sound.kept.settledOnce.of_map
    have covered : List.Subperm s.primary.settled s.primary.counted :=
      List.subperm_of_subset once sound.kept.covered
    rw [(sound.kept.accounts address).settlements, (sound.kept.accounts address).counts]
    exact covered.countP_le _
  settledOnce := sound.kept.settledOnce
  finalOnce := sound.kept.finalOnce

/-- Where what was read still holds when it is acted on, and no record of a slash fails, the books are in order. -/
theorem accounted_of_careful (env : Environment)
    (reached : (system env).ReachableWhen (fun s act => careful s act = true) s) : Accounted s := by
  have sound : Sound s := by
    refine reached.invariant ?_ ?_
    · rintro s rfl
      have empty : ∀ address, (Db.initial.account address).Balanced 0 := fun address =>
        ⟨le_refl 0, conserved_initial address, (add_zero 0).symm, rfl, rfl⟩
      refine ⟨⟨empty, ?_, ?_, ?_, List.nodup_nil, List.nodup_nil⟩, fun address => le_refl 0, List.forall_mem_nil _⟩
      all_goals exact List.forall_mem_nil _
    · intro s act t sound allowed stepped
      exact sound.step allowed stepped
  exact sound.accounted

/-- Byte ranges are asked of GA's epoch E1, with hashes that nobody finds. -/
def oneEpoch : Environment where
  epochs id := if id = "E1" then some ⟨"GA", some "9f", none⟩ else none
  mockData := false
  sha256 text := "sha256 of " ++ text
  stringify value := value.string

/-- GA deposits 150 XLM, takes 50 of them back, and is slashed by 10 for a wrong answer. -/
def slashedOnce : List Act :=
  [.request (.register "GA" 100 none), .resume 0 true, .replicate,
    .request (.stake "GA" 50 none), .resume 1 true, .replicate,
    .request (.unstake "GA" 50), .resume 2 true, .replicate,
    .request (.challenge "GA" "E1" none ⟨0, 64, 0, ""⟩), .resume 3 true, .resume 3 true, .resume 3 true, .replicate,
    .request (.respond 0 [("data", .text "00"), ("hash", .text "ff")]), .resume 4 true, .replicate,
    .request (.verify 0), .resume 5 true, .resume 5 true]

theorem slashed_once_accounted : ∃ s, (system oneEpoch).run ⟨.initial, .initial, []⟩ slashedOnce = some s ∧
    ((s.primary.account "GA").staked, (s.primary.account "GA").recorded) = (90, 10) ∧ Accounted s := by
  have amounts : ((system oneEpoch).run ⟨.initial, .initial, []⟩ slashedOnce).map (fun s =>
      ((s.primary.account "GA").staked, (s.primary.account "GA").recorded)) = some (90, 10) := by decide +kernel
  obtain ⟨s, executed, amounts⟩ := Option.map_eq_some_iff.mp amounts
  refine ⟨s, executed, amounts, accounted_of_careful oneEpoch ?_⟩
  refine Transition.System.reachableWhen_of_run (system oneEpoch) ⟨.initial, .initial, []⟩ slashedOnce rfl ?_ executed
  exact Transition.System.guarded_of_guardedBy careful (fun _ _ => id) (by decide +kernel)

/-- Both withdrawals find 100 at stake. -/
def withdrawnTwice : List Act :=
  [.request (.register "GA" 100 none), .resume 0 true, .replicate,
    .request (.unstake "GA" 60), .request (.unstake "GA" 60), .resume 1 true, .resume 2 true]

theorem withdrawn_twice_overdrawn : ∃ s, (system oneEpoch).Reachable s ∧ ¬ Accounted s := by
  have staked : ((system oneEpoch).run ⟨.initial, .initial, []⟩ withdrawnTwice).map (fun s =>
      (s.primary.account "GA").staked) = some (-20) := by decide +kernel
  obtain ⟨s, executed, staked⟩ := Option.map_eq_some_iff.mp staked
  refine ⟨s, ?_, fun accounted => ?_⟩
  · exact Transition.System.reachable_of_run (system oneEpoch) ⟨.initial, .initial, []⟩ withdrawnTwice rfl executed
  · have solvent := accounted.solvent "GA"
    rw [staked] at solvent
    exact absurd solvent (by decide)

end Octraban.DataMarket
