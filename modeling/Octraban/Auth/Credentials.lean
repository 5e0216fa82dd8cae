import Octraban.Auth.Handlers

/-! What is kept about one credential: its Redis entry or its rows, and what the
history says of it. A call changes only what is kept about the credentials it holds. -/
namespace Octraban.Auth

variable {P : Type*} {outside : Outside}

def Credential.value : Credential → Nat
  | .challenge challengeId => challengeId
  | .flow flowId => flowId
  | .code authorized => authorized
  | .refreshToken token => token

def Route.credential : Route → Option Credential
  | .verify body => some (.challenge body.challengeId)
  | .refresh refreshToken => some (.refreshToken refreshToken)
  | .contribute body => some (.flow body.authFlowId)
  | .complete authFlowId => some (.flow authFlowId)
  | .token body => some (.code body.code)
  | .challenge _ | .requireAuth .. | .initiate _ | .flows _ => none

/-- The credential a call works on, and the refresh token it is about to store. -/
def Pending.holds : Pending → List Credential
  | .challengeSet data => [.challenge data.challengeId]
  | .verifyGet body | .incrementGet body _ | .incrementSet body _ _ => [.challenge body.challengeId]
  | .dropGet id | .dropDelete id | .consumeGet id _ | .consumeDelete id _ => [.challenge id]
  | .findUser login _ | .createUser login _ | .updateUser login _ => [login.credential]
  | .sign grant => [grant.login.credential]
  | .createSession grant tokens => [grant.login.credential, .refreshToken tokens.refreshToken]
  | .refreshFind refreshToken | .refreshSign refreshToken _ => [.refreshToken refreshToken]
  | .refreshUpdate refreshToken _ tokens =>
    [.refreshToken refreshToken, .refreshToken tokens.refreshToken]
  | .authorizeCreate code => [.code code.code]
  | .flowSet flow => [.flow flow.flowId]
  | .contributeGet body | .contributeSet body _ => [.flow body.authFlowId]
  | .completeGet id | .completeSet id _ => [.flow id]
  | .tokenFindApp body | .tokenFindCode body => [.code body.code]
  | .tokenMarkUsed code | .tokenFindUser code => [.code code.code]
  | .rateGet _ | .rateSet .. | .verifyToken .. | .lookup .. | .act .. | .deleteFound _ |
    .deactivateUser _ | .flowGet _ => []

/-- What a log says about `key`. -/
def entriesOf {K V : Type*} [DecidableEq K] (key : K) (log : List (K × V)) : List V :=
  (log.filter fun entry => entry.1 = key).map Prod.snd

@[simp] theorem entriesOf_self {K V : Type*} [DecidableEq K] (key : K) (v : V) (log : List (K × V)) :
    entriesOf key ((key, v) :: log) = v :: entriesOf key log := by
  simp [entriesOf]

theorem entriesOf_ne {K V : Type*} [DecidableEq K] {key other : K} (v : V) (log : List (K × V))
    (different : other ≠ key) : entriesOf key ((other, v) :: log) = entriesOf key log := by
  simp [entriesOf, different]

theorem mem_entriesOf {K V : Type*} [DecidableEq K] {key : K} {v : V} {log : List (K × V)} :
    v ∈ entriesOf key log ↔ (key, v) ∈ log := by
  simp [entriesOf]

structure Usage where
  issued : Nat
  created : List Nat
  accepted : List Nat

def History.usage (h : History) (x : Credential) : Usage :=
  ⟨h.issues.countP fun issue => issue.credential = x, entriesOf x h.created, entriesOf x h.accepted⟩

structure ChallengeView where
  redis : Option (Entry ChallengeData)
  checks : Nat
  usage : Usage

structure FlowView where
  redis : Option (Entry MultiSigFlow)
  acknowledged : List String
  usage : Usage

structure CodeView where
  rows : List OAuthCode
  usage : Usage

/-- `holders` are the sessions whose row has the token. -/
structure TokenView where
  holders : List Nat
  rotations : Nat

abbrev View : Credential → Type
  | .challenge _ => ChallengeView
  | .flow _ => FlowView
  | .code _ => CodeView
  | .refreshToken _ => TokenView

def World.holders (w : World P) (refreshToken : Nat) : List Nat :=
  w.sessions.filterMap fun row =>
    if row.refreshTokenHash = refreshToken then some row.sessionId else none

def World.view (w : World P) : (x : Credential) → View x
  | .challenge id =>
    ⟨(w.challenges id).redis, w.history.checks.count id, w.history.usage (.challenge id)⟩
  | .flow id =>
    ⟨(w.flows id).redis, entriesOf id w.history.acknowledged, w.history.usage (.flow id)⟩
  | .code code => ⟨w.codes.filter fun row => row.code = code, w.history.usage (.code code)⟩
  | .refreshToken refreshToken => ⟨w.holders refreshToken, w.history.rotations.count refreshToken⟩

/-- The view of a credential that is yet to be drawn. -/
def View.untouched : (x : Credential) → View x
  | .challenge _ => (⟨none, 0, ⟨0, [], []⟩⟩ : ChallengeView)
  | .flow _ => (⟨none, [], ⟨0, [], []⟩⟩ : FlowView)
  | .code _ => (⟨[], ⟨0, [], []⟩⟩ : CodeView)
  | .refreshToken _ => (⟨[], 0⟩ : TokenView)

/-- Neither the records and rows nor what the history says of credentials differ. -/
structure Unchanged (w w' : World P) : Prop where
  challenges : ∀ id, (w'.challenges id).redis = (w.challenges id).redis
  flows : ∀ id, (w'.flows id).redis = (w.flows id).redis
  codes : w'.codes = w.codes
  holders : ∀ refreshToken, w'.holders refreshToken = w.holders refreshToken
  checks : w'.history.checks = w.history.checks
  acknowledged : w'.history.acknowledged = w.history.acknowledged
  usage : ∀ x, w'.history.usage x = w.history.usage x
  rotations : w'.history.rotations = w.history.rotations

theorem Unchanged.view {w w' : World P} (same : Unchanged w w') (x : Credential) :
    w'.view x = w.view x := by
  cases x with
  | challenge id => simp only [World.view, same.challenges, same.checks, same.usage]
  | flow id => simp only [World.view, same.flows, same.acknowledged, same.usage]
  | code code => simp only [World.view, same.codes, same.usage]
  | refreshToken token => simp only [World.view, same.holders, same.rotations]

theorem Unchanged.refl (w : World P) : Unchanged w w :=
  ⟨fun _ => rfl, fun _ => rfl, rfl, fun _ => rfl, rfl, rfl, fun _ => rfl, rfl⟩

theorem usage_created {h : History} {y x : Credential} (at_ : Nat) (other : x ≠ y) :
    ({ h with created := (y, at_) :: h.created } : History).usage x = h.usage x := by
  simp [History.usage, entriesOf_ne _ _ other.symm]

theorem usage_accepted {h : History} {y x : Credential} (at_ : Nat) (other : x ≠ y) :
    ({ h with accepted := (y, at_) :: h.accepted } : History).usage x = h.usage x := by
  simp [History.usage, entriesOf_ne _ _ other.symm]

/-- Only the cell, the checks and the usage of one challenge may differ. -/
theorem view_challenge_frame {w : World P} {id : Nat} {cell : Cell P ChallengeData} {h : History}
    (checks : ∀ j, j ≠ id → h.checks.count j = w.history.checks.count j)
    (acknowledged : h.acknowledged = w.history.acknowledged)
    (rotations : h.rotations = w.history.rotations)
    (usage : ∀ x, x ≠ .challenge id → h.usage x = w.history.usage x) {x : Credential}
    (other : x ≠ .challenge id) :
    ({ w.setChallenge id cell with history := h } : World P).view x = w.view x := by
  cases x with
  | challenge j =>
    have different : j ≠ id := fun same => other (congrArg _ same)
    simp only [World.view, World.setChallenge, Function.update_of_ne different, checks j different,
      usage _ other]
  | flow j => simp only [World.view, World.setChallenge, acknowledged, usage _ other]
  | code code => simp only [World.view, World.setChallenge, usage _ other]
  | refreshToken token => simp only [World.view, World.setChallenge, World.holders, rotations]

/-- Only the cell, the acknowledgements and the usage of one flow may differ. -/
theorem view_flow_frame {w : World P} {id : Nat} {cell : Cell P MultiSigFlow} {h : History}
    (checks : h.checks = w.history.checks)
    (acknowledged : ∀ j, j ≠ id → entriesOf j h.acknowledged = entriesOf j w.history.acknowledged)
    (rotations : h.rotations = w.history.rotations)
    (usage : ∀ x, x ≠ .flow id → h.usage x = w.history.usage x) {x : Credential}
    (other : x ≠ .flow id) : ({ w.setFlow id cell with history := h } : World P).view x = w.view x := by
  cases x with
  | challenge j => simp only [World.view, World.setFlow, checks, usage _ other]
  | flow j =>
    have different : j ≠ id := fun same => other (congrArg _ same)
    simp only [World.view, World.setFlow, Function.update_of_ne different, acknowledged j different,
      usage _ other]
  | code code => simp only [World.view, World.setFlow, usage _ other]
  | refreshToken token => simp only [World.view, World.setFlow, World.holders, rotations]

end Octraban.Auth
