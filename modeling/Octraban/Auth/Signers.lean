import Octraban.Auth.Handlers
import Mathlib.Data.List.Nodup

/-! Who a session belongs to. A challenge login needs the signature of the address
it is for; a multi-sig login trusts the signer list its flow was created with, so
it is sound where that list is the registered wallet's. -/
namespace Octraban.Auth
open Interleaving

variable {P : Type*} {outside : Outside} (Signed : String → String → Prop)

/-- Distinct listed signers of enough weight signed a flow challenge naming `sub`. -/
def MultiSigned (history : History) (sub : String) (wallet : MultiSigWallet) : Prop :=
  ∃ challenge, (sub, challenge) ∈ history.initiated ∧ ∃ signers : List (String × Int),
    (signers.map Prod.fst).Nodup ∧ wallet.threshold ≤ (signers.map Prod.snd).sum ∧
    ∀ s ∈ signers, (s.1, Weight.integer s.2) ∈ wallet.signers ∧ Signed s.1 challenge

/-- The session of a challenge or a flow belongs to whoever had to sign. -/
def Justified (history : History) (issue : Issue) : Prop :=
  match issue.credential with
  | .challenge _ | .flow _ =>
    (∃ message, (issue.sub, message) ∈ history.challenged ∧ Signed issue.sub message) ∨
      ∃ wallet, issue.wallet = some wallet ∧ MultiSigned Signed history issue.sub wallet
  | .code _ | .refreshToken _ => True

def Weight.isInteger : Weight → Bool
  | .integer _ => true
  | .other _ => false

def Weight.atLeast (threshold : Int) : Weight → Bool
  | .integer n => threshold ≤ n
  | .other _ => false

/-- The wallet row lists whoever has signed, with the same integer weight, and the
flow asks for no less than the row does. -/
def MultiSigFlow.isRegistered (flow : MultiSigFlow) (wallet : MultiSigWallet) : Bool :=
  (flow.signers.filter SignerStatus.signed).all (fun s =>
    s.weight.isInteger && decide ((s.address, s.weight) ∈ wallet.signers)) &&
    flow.threshold.atLeast wallet.threshold

/-- When `/complete` stores its session, the flow is as its address is registered. -/
def registered (c : Config (World P) (Call P)) : Act (Request P) Unit (Event P) → Bool
  | .resume k () =>
    match c.live k with
    | some ⟨_, .createSession ⟨.complete _ flow, _, _, _, _⟩ _⟩ =>
      (c.world.wallets flow.multisigAddress).any flow.isRegistered
    | _ => true
  | _ => true

/-- Of several entries for an address only the first can be signed. -/
def SignedFirst : List SignerStatus → Prop
  | [] => True
  | s :: rest => (∀ t ∈ rest, t.address = s.address → t.signed = false) ∧ SignedFirst rest

def Challenged (history : History) (ch : ChallengeData) : Prop :=
  (ch.address, ch.message) ∈ history.challenged

structure Initiated (history : History) (flow : MultiSigFlow) : Prop where
  created : (flow.multisigAddress, flow.challenge) ∈ history.initiated
  signed : ∀ s ∈ flow.signers, s.signed → Signed s.address flow.challenge
  first : SignedFirst flow.signers

/-- What a login has established by the time it looks its user up. -/
def Established (outside : Outside) (history : History) : Login → Prop
  | .verify _ ch => Challenged history ch ∧ Signed ch.address ch.message
  | .complete _ flow => Initiated Signed history flow ∧ thresholdNotMet outside flow = false
  | .token _ => True

def Login.sub? : Login → Option String
  | .verify _ ch => some ch.address
  | .complete _ flow => some flow.multisigAddress
  | .token _ => none

def Evident (outside : Outside) (history : History) : Pending → Prop
  | .incrementGet body ch => Challenged history ch ∧ ch.address = body.address
  | .incrementSet body ch data =>
    Challenged history ch ∧ ch.address = body.address ∧ Challenged history data
  | .consumeGet _ ch | .consumeDelete _ ch => Challenged history ch ∧ Signed ch.address ch.message
  | .findUser login _ | .createUser login _ | .updateUser login _ =>
    Established Signed outside history login
  | .sign grant | .createSession grant _ => Established Signed outside history grant.login ∧
    ∀ sub, grant.login.sub? = some sub → grant.sub = sub
  | .flowSet flow => flow.signers.all fun s => !s.signed
  | .contributeSet _ flow => Initiated Signed history flow
  | .completeSet _ flow => Initiated Signed history flow ∧ thresholdNotMet outside flow = false
  | _ => True

/-- Pending calls that claim nothing about signatures. -/
def Pending.plain : Pending → Bool
  | .incrementGet .. | .incrementSet .. | .consumeGet .. | .consumeDelete .. | .findUser .. |
    .createUser .. | .updateUser .. | .sign _ | .createSession .. | .flowSet _ | .contributeSet .. |
    .completeSet .. => false
  | _ => true

structure Sound (w : World P) : Prop where
  challenges : ∀ id entry, (w.challenges id).Copy entry → Challenged w.history entry.payload
  flows : ∀ id entry, (w.flows id).Copy entry → Initiated Signed w.history entry.payload
  issues : ∀ issue ∈ w.history.issues, Justified Signed w.history issue

structure Grows (h h' : History) : Prop where
  challenged : ∀ x ∈ h.challenged, x ∈ h'.challenged
  initiated : ∀ x ∈ h.initiated, x ∈ h'.initiated

variable {Signed}

theorem Grows.refl (h : History) : Grows h h := ⟨fun _ member => member, fun _ member => member⟩

theorem Initiated.grows {h h' : History} {flow : MultiSigFlow} (initiated : Initiated Signed h flow)
    (grows : Grows h h') : Initiated Signed h' flow :=
  ⟨grows.initiated _ initiated.created, initiated.signed, initiated.first⟩

theorem Established.grows {h h' : History} {login : Login}
    (established : Established Signed outside h login) (grows : Grows h h') :
    Established Signed outside h' login := by
  cases login with
  | verify _ ch => exact ⟨grows.challenged _ established.1, established.2⟩
  | complete _ flow => exact ⟨established.1.grows grows, established.2⟩
  | token => trivial

theorem Evident.grows {h h' : History} {pending : Pending}
    (evident : Evident Signed outside h pending) (grows : Grows h h') :
    Evident Signed outside h' pending := by
  cases pending with
  | incrementGet body ch => exact ⟨grows.challenged _ evident.1, evident.2⟩
  | incrementSet body ch data =>
    obtain ⟨known, same, also⟩ := evident
    exact ⟨grows.challenged _ known, same, grows.challenged _ also⟩
  | consumeGet | consumeDelete => exact ⟨grows.challenged _ evident.1, evident.2⟩
  | completeSet => exact ⟨Initiated.grows evident.1 grows, evident.2⟩
  | findUser | createUser | updateUser => exact Established.grows evident grows
  | sign | createSession => exact ⟨evident.1.grows grows, evident.2⟩
  | contributeSet => exact Initiated.grows evident grows
  | flowSet => exact evident
  | _ => trivial

theorem Justified.grows {h h' : History} {issue : Issue} (justified : Justified Signed h issue)
    (grows : Grows h h') : Justified Signed h' issue := by
  unfold Justified at justified ⊢
  split
  · rename_i credential
    rw [credential] at justified
    rcases justified with ⟨message, created, signed⟩ | ⟨wallet, row, challenge, created, enough⟩
    · exact .inl ⟨message, grows.challenged _ created, signed⟩
    · exact .inr ⟨wallet, row, challenge, grows.initiated _ created, enough⟩
  · rename_i credential
    rw [credential] at justified
    rcases justified with ⟨message, created, signed⟩ | ⟨wallet, row, challenge, created, enough⟩
    · exact .inl ⟨message, grows.challenged _ created, signed⟩
    · exact .inr ⟨wallet, row, challenge, grows.initiated _ created, enough⟩
  · trivial
  · trivial

/-- A signature is put on the first entry of its address. -/
theorem markSigned_unsigned {signature : String} {signers : List SignerStatus} {s : SignerStatus}
    (member : s ∈ markSigned a signature signers) (other : s.address ≠ a) : s ∈ signers := by
  induction signers with
  | nil => exact member
  | cons t rest ih =>
    unfold markSigned at member
    split at member
    · rename_i same
      rcases List.mem_cons.mp member with rfl | member
      · exact absurd same other
      · exact List.mem_cons_of_mem _ member
    · rcases List.mem_cons.mp member with rfl | member
      · exact List.mem_cons_self
      · exact List.mem_cons_of_mem _ (ih member)

theorem SignedFirst.markSigned {signers : List SignerStatus} (first : SignedFirst signers)
    (a signature : String) : SignedFirst (markSigned a signature signers) := by
  induction signers with
  | nil => exact first
  | cons s rest ih =>
    unfold Auth.markSigned
    split
    · exact first
    · rename_i other
      refine ⟨fun t member same => ?_, ih first.2⟩
      exact first.1 t (markSigned_unsigned member (same ▸ other)) same

theorem SignedFirst.nodup {signers : List SignerStatus} (first : SignedFirst signers) :
    ((signers.filter SignerStatus.signed).map SignerStatus.address).Nodup := by
  induction signers with
  | nil => exact List.nodup_nil
  | cons s rest ih =>
    by_cases signed : s.signed
    · rw [List.filter_cons_of_pos signed, List.map_cons, List.nodup_cons]
      refine ⟨fun member => ?_, ih first.2⟩
      obtain ⟨t, chosen, same⟩ := List.mem_map.mp member
      obtain ⟨stored, marked⟩ := List.mem_filter.mp chosen
      have unmarked := first.1 t stored same
      rw [marked] at unmarked
      contradiction
    · rw [List.filter_cons_of_neg signed]
      exact ih first.2

theorem signedFirst_of_unsigned {signers : List SignerStatus}
    (unsigned : signers.all fun s => !s.signed) : SignedFirst signers := by
  induction signers with
  | nil => trivial
  | cons s rest ih =>
    rw [List.all_cons, Bool.and_eq_true] at unsigned
    refine ⟨fun t member _ => ?_, ih unsigned.2⟩
    simpa using List.all_eq_true.mp unsigned.2 t member

def Weight.value : Weight → Int
  | .integer n => n
  | .other _ => 0

theorem Weight.integer_value {weight : Weight} (whole : weight.isInteger = true) :
    .integer weight.value = weight := by
  cases weight with
  | integer => rfl
  | other => contradiction

theorem integers_eq {signers : List SignerStatus} (whole : ∀ s ∈ signers, s.weight.isInteger = true) :
    integers (signers.map SignerStatus.weight) = some (signers.map fun s => s.weight.value) := by
  induction signers with
  | nil => rfl
  | cons s rest ih =>
    have tail := ih fun t member => whole t (List.mem_cons_of_mem _ member)
    unfold integers at tail ⊢
    rw [List.map_cons, List.mapM_cons, tail, ← Weight.integer_value (whole s List.mem_cons_self)]
    rfl

/-- A registered flow that meets its threshold is signed as the wallet asks. -/
theorem multiSigned_of_registered {history : History} {flow : MultiSigFlow} {wallet : MultiSigWallet}
    (initiated : Initiated Signed history flow) (met : thresholdNotMet outside flow = false)
    (registered : flow.isRegistered wallet = true) :
    MultiSigned Signed history flow.multisigAddress wallet := by
  rw [MultiSigFlow.isRegistered, Bool.and_eq_true, List.all_eq_true] at registered
  obtain ⟨rows, threshold⟩ := registered
  have listed (s : SignerStatus) (member : s ∈ flow.signers.filter SignerStatus.signed) :
      s.weight.isInteger = true ∧ (s.address, s.weight) ∈ wallet.signers := by
    simpa only [Bool.and_eq_true, decide_eq_true_eq] using rows s member
  refine ⟨flow.challenge, initiated.created,
    (flow.signers.filter SignerStatus.signed).map fun s => (s.address, s.weight.value), ?_, ?_, ?_⟩
  · rw [List.map_map]
    exact initiated.first.nodup
  · rw [thresholdNotMet, integers_eq fun s member => (listed s member).1] at met
    rw [List.map_map]
    cases bound : flow.threshold with
    | integer n =>
      rw [bound] at met threshold
      have enough := not_lt.mp (of_decide_eq_false met)
      exact le_trans (of_decide_eq_true threshold) enough
    | other json =>
      rw [bound] at threshold
      contradiction
  · intro s member
    obtain ⟨signer, marked, rfl⟩ := List.mem_map.mp member
    obtain ⟨whole, row⟩ := listed signer marked
    obtain ⟨stored, signed⟩ := List.mem_filter.mp marked
    rw [Weight.integer_value whole]
    exact ⟨row, initiated.signed signer stored signed⟩

theorem copy_update {V : Type*} {cells : Nat → Cell P V} {id j : Nat} {cell : Cell P V}
    {entry : Entry V} (copy : (Function.update cells id cell j).Copy entry) :
    cell.Copy entry ∨ (cells j).Copy entry := by
  rw [Function.update_apply] at copy
  split at copy
  · exact .inl copy
  · exact .inr copy

/-- The segment keeps the evidence: records and issues stay sound, and the next
call's claim holds. -/
structure Keeps (Signed : String → String → Prop) (outside : Outside) (w : World P)
    (segment : Segment P) : Prop where
  sound : Sound Signed segment.1
  grows : Grows w.history segment.1.history
  next : ∀ pending, segment.2 = some pending → Evident Signed outside segment.1.history pending

theorem Keeps.ends {w : World P} {segment : Segment P} (sound : Sound Signed segment.1)
    (grows : Grows w.history segment.1.history) (ended : segment.2 = none) :
    Keeps Signed outside w segment := by
  refine ⟨sound, grows, fun pending continued => ?_⟩
  rw [ended] at continued
  contradiction

theorem evident_of_plain (history : History) {next : Option Pending}
    (plain : next.all Pending.plain = true) :
    ∀ pending, next = some pending → Evident Signed outside history pending := by
  rintro pending rfl
  cases pending <;> trivial

/-- No record, and nothing in the history that the evidence rests on, changes. -/
theorem Sound.same {w w' : World P} (sound : Sound Signed w) (challenges : w'.challenges = w.challenges)
    (flows : w'.flows = w.flows) (grows : Grows w.history w'.history)
    (issues : w'.history.issues = w.history.issues) : Sound Signed w' := by
  refine ⟨fun id entry copy => ?_, fun id entry copy => ?_, fun issue member => ?_⟩
  · rw [challenges] at copy
    exact grows.challenged _ (sound.challenges id entry copy)
  · rw [flows] at copy
    exact (sound.flows id entry copy).grows grows
  · rw [issues] at member
    exact (sound.issues issue member).grows grows

theorem Keeps.plain {w : World P} {segment : Segment P} (sound : Sound Signed w)
    (challenges : segment.1.challenges = w.challenges) (flows : segment.1.flows = w.flows)
    (grows : Grows w.history segment.1.history)
    (issues : segment.1.history.issues = w.history.issues)
    (plain : segment.2.all Pending.plain = true) : Keeps Signed outside w segment :=
  ⟨sound.same challenges flows grows issues, grows, evident_of_plain _ plain⟩

theorem Sound.setChallenge {w : World P} (sound : Sound Signed w) {id : Nat} {cell : Cell P ChallengeData}
    {h : History} (grows : Grows w.history h) (issues : h.issues = w.history.issues)
    (copies : ∀ entry, cell.Copy entry → (w.challenges id).Copy entry ∨ Challenged h entry.payload) :
    Sound Signed ({ w.setChallenge id cell with history := h } : World P) := by
  refine ⟨fun j entry copy => ?_, fun j entry copy => (sound.flows j entry copy).grows grows,
    fun issue member => ?_⟩
  · rcases copy_update copy with new | old
    · rcases copies entry new with before | known
      · exact grows.challenged _ (sound.challenges id entry before)
      · exact known
    · exact grows.challenged _ (sound.challenges j entry old)
  · change issue ∈ h.issues at member
    rw [issues] at member
    exact (sound.issues issue member).grows grows

theorem Sound.setFlow {w : World P} (sound : Sound Signed w) {id : Nat} {cell : Cell P MultiSigFlow}
    {h : History} (grows : Grows w.history h) (issues : h.issues = w.history.issues)
    (copies : ∀ entry, cell.Copy entry → (w.flows id).Copy entry ∨ Initiated Signed h entry.payload) :
    Sound Signed ({ w.setFlow id cell with history := h } : World P) := by
  refine ⟨fun j entry copy => grows.challenged _ (sound.challenges j entry copy),
    fun j entry copy => ?_, fun issue member => ?_⟩
  · rcases copy_update copy with new | old
    · rcases copies entry new with before | known
      · exact (sound.flows id entry before).grows grows
      · exact known
    · exact (sound.flows j entry old).grows grows
  · change issue ∈ h.issues at member
    rw [issues] at member
    exact (sound.issues issue member).grows grows

variable [DecidableEq P]

theorem Sound.getChallenge {w : World P} (sound : Sound Signed w) (p : P) (id : Nat) :
    Sound Signed (w.getChallenge p id).2 ∧
      ∀ data, (w.getChallenge p id).1 = some data → Challenged w.history data := by
  refine ⟨sound.setChallenge (Grows.refl _) rfl fun entry copy => .inl (Cell.copy_cacheGet copy), ?_⟩
  intro data read
  obtain ⟨entry, copy, -, rfl⟩ := Cell.cacheGet_holds read
  exact sound.challenges id entry copy

theorem Sound.getFlow {w : World P} (sound : Sound Signed w) (p : P) (id : Nat) :
    Sound Signed (w.getFlow p id).2 ∧
      ∀ flow, (w.getFlow p id).1 = some flow → Initiated Signed w.history flow := by
  refine ⟨sound.setFlow (Grows.refl _) rfl fun entry copy => .inl (Cell.copy_cacheGet copy), ?_⟩
  intro flow read
  obtain ⟨entry, copy, -, rfl⟩ := Cell.cacheGet_holds read
  exact sound.flows id entry copy

theorem Sound.deleteChallenge {w : World P} (sound : Sound Signed w) (p : P) (id : Nat) :
    Sound Signed (w.deleteChallenge p id) := by
  refine sound.setChallenge (Grows.refl _) rfl fun entry copy => .inl ?_
  rcases copy with stored | stored
  · contradiction
  · exact (Cell.copy_lruSet (.inr stored)).resolve_left nofun

omit [DecidableEq P] in
theorem checkSignature_keeps {w w' : World P} {body : VerifyBody} {ch : ChallengeData}
    (unforgeable : ∀ address message signature,
      outside.verify address message signature = some true → Signed address message)
    (sound : Sound Signed w') (grows : Grows w.history w'.history)
    (known : Challenged w'.history ch) (same : ch.address = body.address) :
    Keeps Signed outside w (checkSignature outside w' body ch) := by
  unfold checkSignature
  split
  · rename_i valid
    refine ⟨sound.same rfl rfl ⟨fun _ x => x, fun _ x => x⟩ rfl, ⟨grows.challenged, grows.initiated⟩, ?_⟩
    rintro _ ⟨⟩
    exact ⟨known, unforgeable _ _ _ (same ▸ valid)⟩
  · exact .ends (sound.same rfl rfl ⟨fun _ x => x, fun _ x => x⟩ rfl) ⟨grows.challenged, grows.initiated⟩ rfl
  · exact .ends (sound.same rfl rfl ⟨fun _ x => x, fun _ x => x⟩ rfl) ⟨grows.challenged, grows.initiated⟩ rfl

omit [DecidableEq P] in
theorem proceed_keeps {w w' : World P} (login : Login) (user : WalletUser) (sound : Sound Signed w')
    (grows : Grows w.history w'.history) (established : Established Signed outside w'.history login) :
    Keeps Signed outside w (login.proceed w' user) := by
  have granted (sub appId : String) (named : ∀ named, login.sub? = some named → sub = named) :
      Keeps Signed outside w (grantTo w' login user sub appId) := by
    refine ⟨sound.same rfl rfl ⟨fun _ x => x, fun _ x => x⟩ rfl, grows, ?_⟩
    rintro _ ⟨⟩
    exact ⟨established, named⟩
  cases login with
  | verify _ ch => exact granted _ _ fun _ same => Option.some.inj same
  | complete _ flow => exact granted _ _ fun _ same => Option.some.inj same
  | token code => exact granted _ _ nofun

omit [DecidableEq P] in
theorem createSession_keeps {w : World P} {grant : Grant} {tokens : TokenPair} (sound : Sound Signed w)
    (established : Established Signed outside w.history grant.login)
    (named : ∀ sub, grant.login.sub? = some sub → grant.sub = sub)
    (registered : ∀ id flow, grant.login = .complete id flow →
      (w.wallets flow.multisigAddress).any flow.isRegistered = true) :
    Keeps Signed outside w (createSession w grant tokens) := by
  unfold createSession
  split
  · exact .ends sound (Grows.refl _) rfl
  · have grows : Grows w.history { w.history with
        issues := ⟨grant.login.credential, grant.sub, w.wallets grant.sub⟩ :: w.history.issues
        sessions := .opened grant.sessionId (w.now + REFRESH_TOKEN_TTL * 1000) :: w.history.sessions } :=
      ⟨fun _ member => member, fun _ member => member⟩
    refine .ends ⟨fun id entry copy => grows.challenged _ (sound.challenges id entry copy),
      fun id entry copy => (sound.flows id entry copy).grows grows, ?_⟩ grows rfl
    refine List.forall_mem_cons.mpr ⟨?_, fun issue member => (sound.issues issue member).grows grows⟩
    obtain ⟨login, sub, userId, sessionId, appId⟩ := grant
    cases login with
    | verify id ch =>
      obtain rfl := named _ rfl
      exact .inl ⟨ch.message, established.1, established.2⟩
    | complete id flow =>
      obtain rfl := named _ rfl
      obtain ⟨wallet, row, listed⟩ := Option.any_eq_true _ _ |>.mp (registered id flow rfl)
      exact .inr ⟨wallet, row, multiSigned_of_registered (established.1.grows grows) established.2 listed⟩
    | token code => trivial

theorem verifyStart_keeps {w : World P} (p : P) (body : VerifyBody) (sound : Sound Signed w) :
    Keeps Signed outside w (verifyStart w p body) := by
  obtain ⟨kept, known⟩ := sound.getChallenge p body.challengeId
  unfold verifyStart World.getChallenge
  dsimp only
  split
  · exact .ends kept (Grows.refl _) rfl
  · rename_i ch read
    refine ⟨kept, Grows.refl _, fun pending continued => ?_⟩
    dsimp only at continued
    split at continued
    · contradiction
    · rename_i same
      cases continued
      exact ⟨known ch read, not_not.mp same⟩

theorem incrementAttempts_keeps {w : World P} (p : P) {body : VerifyBody} {ch : ChallengeData}
    (unforgeable : ∀ address message signature,
      outside.verify address message signature = some true → Signed address message)
    (sound : Sound Signed w) (known : Challenged w.history ch) (same : ch.address = body.address) :
    Keeps Signed outside w (incrementAttempts outside w p body ch) := by
  obtain ⟨kept, stored⟩ := sound.getChallenge p body.challengeId
  unfold incrementAttempts World.getChallenge
  dsimp only
  split
  · exact checkSignature_keeps unforgeable kept (Grows.refl _) known same
  · rename_i data read
    refine ⟨kept, Grows.refl _, ?_⟩
    rintro _ ⟨⟩
    exact ⟨known, same, stored data read⟩

theorem Sound.storeChallenge {w : World P} (sound : Sound Signed w) (p : P) (id : Nat)
    {data : ChallengeData} {h : History} (grows : Grows w.history h)
    (issues : h.issues = w.history.issues) (known : Challenged h data) :
    Sound Signed { w.storeChallenge p id data with history := h } := by
  refine sound.setChallenge grows issues fun entry copy => ?_
  rcases Cell.copy_cacheSet copy with rfl | before
  · exact .inr known
  · exact .inl before

theorem Sound.storeFlow {w : World P} (sound : Sound Signed w) (p : P) (id ttlSeconds : Nat)
    {flow : MultiSigFlow} {h : History} (grows : Grows w.history h)
    (issues : h.issues = w.history.issues) (initiated : Initiated Signed h flow) :
    Sound Signed { w.storeFlow p id flow ttlSeconds with history := h } := by
  refine sound.setFlow grows issues fun entry copy => ?_
  rcases Cell.copy_cacheSet copy with rfl | before
  · exact .inr initiated
  · exact .inl before

theorem countAttempt_keeps {w : World P} (p : P) {body : VerifyBody} {ch data : ChallengeData}
    (unforgeable : ∀ address message signature,
      outside.verify address message signature = some true → Signed address message)
    (sound : Sound Signed w) (known : Challenged w.history ch) (same : ch.address = body.address)
    (also : Challenged w.history data) :
    Keeps Signed outside w (countAttempt outside w p body ch data) := by
  have kept : Sound Signed (w.storeChallenge p body.challengeId data) :=
    sound.storeChallenge p body.challengeId (Grows.refl _) rfl also
  unfold countAttempt
  dsimp only
  split
  · refine ⟨kept, Grows.refl _, ?_⟩
    rintro _ ⟨⟩
    trivial
  · exact checkSignature_keeps unforgeable kept (Grows.refl _) known same

theorem contribute_keeps {w : World P} (p : P) (body : ContributeBody)
    (unforgeable : ∀ address message signature,
      outside.verify address message signature = some true → Signed address message)
    (sound : Sound Signed w) : Keeps Signed outside w (contribute outside w p body) := by
  obtain ⟨kept, known⟩ := sound.getFlow p body.authFlowId
  unfold contribute World.getFlow
  dsimp only
  split
  · exact .ends kept (Grows.refl _) rfl
  · rename_i flow read
    have initiated := known flow read
    split
    · exact .ends kept (Grows.refl _) rfl
    · split
      · exact .ends kept (Grows.refl _) rfl
      · split
        · exact .ends kept (Grows.refl _) rfl
        · split
          · rename_i valid
            refine ⟨kept, Grows.refl _, ?_⟩
            rintro _ ⟨⟩
            refine ⟨initiated.created, fun s member marked => ?_, initiated.first.markSigned _ _⟩
            by_cases named : s.address = body.signerAddress
            · rw [named]
              exact unforgeable _ _ _ valid
            · exact initiated.signed s (markSigned_unsigned member named) marked
          · exact .ends kept (Grows.refl _) rfl
          · exact .ends kept (Grows.refl _) rfl

theorem complete_keeps {w : World P} (p : P) (authFlowId : Nat) (sound : Sound Signed w) :
    Keeps Signed outside w (complete outside w p authFlowId) := by
  obtain ⟨kept, known⟩ := sound.getFlow p authFlowId
  unfold complete World.getFlow
  dsimp only
  split
  · exact .ends kept (Grows.refl _) rfl
  · rename_i flow read
    have initiated := known flow read
    split
    · exact .ends kept (Grows.refl _) rfl
    · split
      · exact .ends kept (Grows.refl _) rfl
      · rename_i met
        refine ⟨kept.same rfl rfl ⟨fun _ x => x, fun _ x => x⟩ rfl, ⟨fun _ x => x, fun _ x => x⟩, ?_⟩
        rintro _ ⟨⟩
        exact ⟨⟨initiated.created, initiated.signed, initiated.first⟩, Bool.not_eq_true _ ▸ met⟩

omit [DecidableEq P] in
theorem findUser_keeps {w : World P} (login : Login) (address : String) (sound : Sound Signed w)
    (established : Established Signed outside w.history login) :
    Keeps Signed outside w (findUser w login address) := by
  unfold findUser
  split
  · refine ⟨sound, Grows.refl _, ?_⟩
    rintro _ ⟨⟩
    exact established
  · split
    · refine ⟨sound, Grows.refl _, ?_⟩
      rintro _ ⟨⟩
      exact established
    · exact proceed_keeps _ _ sound (Grows.refl _) established

omit [DecidableEq P] in
theorem createUser_keeps {w : World P} (login : Login) (address : String) (sound : Sound Signed w)
    (established : Established Signed outside w.history login) :
    Keeps Signed outside w (createUser w login address) := by
  unfold createUser
  split
  · exact .ends sound (Grows.refl _) rfl
  · have kept : Sound Signed { w.draw with users := ⟨w.draws, address, true⟩ :: w.users } :=
      sound.same rfl rfl (Grows.refl _) rfl
    exact proceed_keeps _ _ kept (Grows.refl _) established

omit [DecidableEq P] in
theorem lookup_keeps {w : World P} (token : Jwt) (action : Action) (sound : Sound Signed w) :
    Keeps Signed outside w (lookup w token action) := by
  unfold lookup
  split
  · exact .plain sound rfl rfl (Grows.refl _) rfl rfl
  · split
    · exact .plain sound rfl rfl ⟨fun _ x => x, fun _ x => x⟩ rfl rfl
    · exact .plain sound rfl rfl (Grows.refl _) rfl rfl

omit [DecidableEq P] in
theorem act_keeps {w : World P} (sessionId userId : Nat) (action : Action) (sound : Sound Signed w) :
    Keeps Signed outside w (act w sessionId userId action) := by
  cases action with
  | access => exact .plain sound rfl rfl (Grows.refl _) rfl rfl
  | logout | logoutAll | deleteMe =>
    exact .plain sound rfl rfl ⟨fun _ x => x, fun _ x => x⟩ rfl rfl
  | deleteSession chosen =>
    apply Keeps.plain sound rfl rfl (Grows.refl _) rfl
    dsimp only [act]
    split <;> rfl
  | wallets walletAddress wallet =>
    dsimp only [act]
    split <;> exact .plain sound rfl rfl (Grows.refl _) rfl rfl
  | authorize clientId redirectUri =>
    dsimp only [act]
    split
    · exact .plain sound rfl rfl (Grows.refl _) rfl rfl
    · split <;> exact .plain sound rfl rfl (Grows.refl _) rfl rfl

omit [DecidableEq P] in
theorem tokenFindUser_keeps {w : World P} (code : OAuthCode) (sound : Sound Signed w) :
    Keeps Signed outside w (tokenFindUser w code) := by
  unfold tokenFindUser
  split
  · exact .ends sound (Grows.refl _) rfl
  · exact proceed_keeps _ _ sound (Grows.refl _) trivial

/-- Every call keeps the evidence, the session of a flow as far as it is registered. -/
theorem resume_keeps {w : World P} (p : P) {pending : Pending}
    (unforgeable : ∀ address message signature,
      outside.verify address message signature = some true → Signed address message)
    (sound : Sound Signed w) (evident : Evident Signed outside w.history pending)
    (registered : ∀ grant tokens id flow, pending = .createSession grant tokens →
      grant.login = .complete id flow → (w.wallets flow.multisigAddress).any flow.isRegistered = true) :
    Keeps Signed outside w (resumePending outside w p pending) := by
  cases pending with
  | rateGet body =>
    simp only [resumePending, checkChallengeRateLimit]
    split <;> exact .plain sound rfl rfl (Grows.refl _) rfl rfl
  | rateSet body count => exact .plain sound rfl rfl (Grows.refl _) rfl rfl
  | challengeSet data =>
    have grows : Grows w.history { w.history with
        challenged := (data.address, data.message) :: w.history.challenged
        created := (.challenge data.challengeId, data.expiresAt) :: w.history.created } :=
      ⟨fun _ member => List.mem_cons_of_mem _ member, fun _ member => member⟩
    exact .ends (sound.storeChallenge p data.challengeId grows rfl List.mem_cons_self) grows rfl
  | verifyGet body => exact verifyStart_keeps p body sound
  | incrementGet body ch => exact incrementAttempts_keeps p unforgeable sound evident.1 evident.2
  | incrementSet body ch data =>
    exact countAttempt_keeps p unforgeable sound evident.1 evident.2.1 evident.2.2
  | dropGet id =>
    refine ⟨(sound.getChallenge p id).1, Grows.refl _, fun pending continued => ?_⟩
    obtain ⟨data, -, rfl⟩ := Option.map_eq_some_iff.mp continued
    trivial
  | dropDelete id => exact .ends (sound.deleteChallenge p id) (Grows.refl _) rfl
  | consumeGet id ch =>
    refine ⟨(sound.getChallenge p id).1, Grows.refl _, fun pending continued => ?_⟩
    dsimp only [resumePending] at continued
    split at continued
    · cases continued
      exact evident
    · cases continued
      exact evident
  | consumeDelete id ch =>
    refine ⟨sound.deleteChallenge p id, Grows.refl _, ?_⟩
    rintro _ ⟨⟩
    exact evident
  | findUser login address => exact findUser_keeps login address sound evident
  | createUser login address => exact createUser_keeps login address sound evident
  | updateUser login user => exact proceed_keeps login user sound (Grows.refl _) evident
  | sign grant =>
    refine ⟨sound.same rfl rfl (Grows.refl _) rfl, Grows.refl _, ?_⟩
    rintro _ ⟨⟩
    exact evident
  | createSession grant tokens =>
    exact createSession_keeps sound evident.1 evident.2 fun id flow => registered grant tokens id flow rfl
  | refreshFind refreshToken =>
    simp only [resumePending, refreshFind]
    split
    · exact .plain sound rfl rfl (Grows.refl _) rfl rfl
    · apply Keeps.plain sound rfl rfl (Grows.refl _) rfl
      dsimp only
      split <;> rfl
  | refreshSign refreshToken session =>
    simp only [resumePending, refreshSign]
    split <;> exact .plain sound rfl rfl (Grows.refl _) rfl rfl
  | refreshUpdate refreshToken session tokens =>
    exact .plain sound rfl rfl ⟨fun _ x => x, fun _ x => x⟩ rfl rfl
  | verifyToken token action =>
    apply Keeps.plain sound rfl rfl (Grows.refl _) rfl
    dsimp only [resumePending, verifyToken]
    split <;> rfl
  | lookup token action => exact lookup_keeps token action sound
  | act action sessionId userId => exact act_keeps sessionId userId action sound
  | deleteFound sessionId => exact .plain sound rfl rfl ⟨fun _ x => x, fun _ x => x⟩ rfl rfl
  | deactivateUser userId => exact .plain sound rfl rfl (Grows.refl _) rfl rfl
  | authorizeCreate code => exact .plain sound rfl rfl (Grows.refl _) rfl rfl
  | flowSet flow =>
    have grows : Grows w.history { w.history with
        initiated := (flow.multisigAddress, flow.challenge) :: w.history.initiated
        created := (.flow flow.flowId, flow.expiresAt) :: w.history.created } :=
      ⟨fun _ member => member, fun _ member => List.mem_cons_of_mem _ member⟩
    refine .ends (sound.storeFlow p flow.flowId FLOW_TTL grows rfl
      ⟨List.mem_cons_self, fun s member signed => ?_, signedFirst_of_unsigned evident⟩) grows rfl
    have unsigned := List.all_eq_true.mp evident s member
    rw [signed] at unsigned
    contradiction
  | flowGet id => exact .ends (sound.getFlow p id).1 (Grows.refl _) rfl
  | contributeGet body => exact contribute_keeps p body unforgeable sound
  | contributeSet body flow =>
    have grows : Grows w.history { w.history with
        acknowledged := (body.authFlowId, body.signerAddress) :: w.history.acknowledged } :=
      ⟨fun _ member => member, fun _ member => member⟩
    exact .ends (sound.storeFlow p body.authFlowId FLOW_TTL grows rfl (Initiated.grows evident grows)) grows rfl
  | completeGet id => exact complete_keeps p id sound
  | completeSet id flow =>
    refine ⟨sound.storeFlow p id 60 (Grows.refl _) rfl evident.1, Grows.refl _, ?_⟩
    rintro _ ⟨⟩
    exact evident
  | tokenFindApp body =>
    simp only [resumePending, tokenFindApp]
    split
    · exact .plain sound rfl rfl (Grows.refl _) rfl rfl
    · apply Keeps.plain sound rfl rfl (Grows.refl _) rfl
      dsimp only
      split <;> rfl
  | tokenFindCode body =>
    simp only [resumePending, tokenFindCode]
    split
    · exact .plain sound rfl rfl (Grows.refl _) rfl rfl
    · apply Keeps.plain sound rfl rfl (Grows.refl _) rfl
      dsimp only
      split <;> rfl
  | tokenMarkUsed code => exact .plain sound rfl rfl (Grows.refl _) rfl rfl
  | tokenFindUser code => exact tokenFindUser_keeps code sound

omit [DecidableEq P] in
theorem beginRoute_keeps {w : World P} (route : Route) (sound : Sound Signed w) :
    Keeps Signed outside w (beginRoute w route) := by
  cases route with
  | challenge | verify | contribute | token =>
    apply Keeps.plain sound rfl rfl (Grows.refl _) rfl
    dsimp only [beginRoute]
    split <;> rfl
  | initiate body =>
    dsimp only [beginRoute]
    split
    · exact .plain sound rfl rfl (Grows.refl _) rfl rfl
    · refine ⟨sound.same rfl rfl (Grows.refl _) rfl, Grows.refl _, ?_⟩
      rintro _ ⟨⟩
      simp [Evident]
  | refresh | requireAuth | complete | flows => exact .plain sound rfl rfl (Grows.refl _) rfl rfl

theorem registered_preserves {c c' : Config (World P) (Call P)} {a : Act (Request P) Unit (Event P)}
    (unforgeable : ∀ address message signature,
      outside.verify address message signature = some true → Signed address message)
    (holds : c.Holds (Sound Signed) fun w call => Evident Signed outside w.history call.pending)
    (guarded : registered c a = true) (stepped : (program outside).step c a = some c') :
    c'.Holds (Sound Signed) fun w call => Evident Signed outside w.history call.pending := by
  have put {k : Nat} {p : P} {segment : Segment P} (keeps : Keeps Signed outside c.world segment) :
      (c.put k segment.1 (segment.2.map fun pending => ⟨p, pending⟩)).Holds (Sound Signed)
        fun w call => Evident Signed outside w.history call.pending := by
    refine Config.holds_put keeps.sound (fun call continued => ?_)
      fun _ _ _ found => (holds.live found).grows keeps.grows
    obtain ⟨pending, next, rfl⟩ := Option.map_eq_some_iff.mp continued
    exact keeps.next pending next
  cases Program.step_cases stepped with
  | start idle begun =>
    rename_i k request w l
    simp only [program, start] at begun
    split at begun
    · cases begun
      exact put (beginRoute_keeps request.route holds.world)
    · contradiction
  | resume found resumed =>
    rename_i k call choice w l
    cases resumed
    refine put (resume_keeps call.self unforgeable holds.world (holds.live found) ?_)
    intro grant tokens id flow pending login
    obtain ⟨p, _⟩ := call
    obtain ⟨_, sub, userId, sessionId, appId⟩ := grant
    cases pending
    cases login
    simpa only [registered, found] using guarded
  | abort => exact holds.abort
  | environment moved =>
    rename_i event w
    cases event with
    | elapse ms =>
      cases moved
      exact ⟨holds.world.same rfl rfl (Grows.refl _) rfl, fun found => holds.live found⟩
    | evictChallenge p id =>
      cases moved
      refine ⟨holds.world.setChallenge (Grows.refl _) rfl fun entry copy => ?_, fun found => holds.live found⟩
      exact .inl (Cell.copy_evict copy)
    | evictFlow p id =>
      cases moved
      refine ⟨holds.world.setFlow (Grows.refl _) rfl fun entry copy => ?_, fun found => holds.live found⟩
      exact .inl (Cell.copy_evict copy)
    | evictAttempts p ip =>
      cases moved
      exact ⟨holds.world.same rfl rfl (Grows.refl _) rfl, fun found => holds.live found⟩

/-- Where flows are completed as their address is registered, sessions belong to
whoever had to sign. -/
theorem registered_issues_justified (outside : Outside) (Signed : String → String → Prop)
    (unforgeable : ∀ address message signature,
      outside.verify address message signature = some true → Signed address message)
    {c : Config (World P) (Call P)}
    (reached : (system outside).ReachableWhen (fun c a => registered c a = true) c) :
    ∀ issue ∈ c.world.history.issues, Justified Signed c.world.history issue := by
  have holds : c.Holds (Sound Signed) fun w call => Evident Signed outside w.history call.pending := by
    refine reached.invariant ?_ (registered_preserves unforgeable)
    rintro c ⟨⟨now, apps, world⟩, idle⟩
    refine Config.holds_idle ?_ idle
    rw [world]
    refine ⟨fun id entry copy => ?_, fun id entry copy => ?_, nofun⟩
    · rcases copy with stored | ⟨_, stored⟩ <;> contradiction
    · rcases copy with stored | ⟨_, stored⟩ <;> contradiction
  exact holds.world.issues

/-- Only the owner of `key` signs. -/
def signedBy (key : String) : Outside := ⟨fun address _ _ => some (address = key), fun _ _ => false⟩

/-- GA logs in by a challenge, registers itself as the signer of GM, and then
completes a flow for GM as registered. -/
def registeredFlow : Run :=
  alone 0 (.challenge ⟨"10.0.0.1", "GA", "testnet", "explorer-web"⟩) 3 ++
    alone 1 (.verify ⟨"GA", 1, "c2ln"⟩) 9 ++
    alone 2 (.requireAuth ⟨"GA", 2, 3, "explorer-web", 4, 86400⟩
      (.wallets "GM" ⟨[("GA", .integer 1)], 1⟩)) 3 ++
    alone 3 (.initiate ⟨"GM", [("GA", .integer 1)], .integer 1, "explorer-web"⟩) 1 ++
    alone 4 (.contribute ⟨7, "GA", "c2ln"⟩) 2 ++ alone 5 (.complete 7) 6

theorem registered_flow_issues : ∃ c, (system (signedBy "GA")).run idle registeredFlow = some c ∧
    c.world.history.issues.map Issue.sub = ["GM", "GA"] ∧
    ∀ issue ∈ c.world.history.issues, Justified (fun address _ => address = "GA") c.world.history issue :=
  ⟨_, rfl, rfl, registered_issues_justified (signedBy "GA") (fun address _ => address = "GA")
    (fun _ _ _ valid => of_decide_eq_true (Option.some.inj valid))
    (Transition.System.reachableWhen_of_run (system (signedBy "GA")) idle registeredFlow
      ⟨⟨0, [], rfl⟩, rfl⟩ (Transition.System.guarded_of_guardedBy registered (fun _ _ => id) rfl) rfl)⟩

/-- GB names GA's address in a flow whose only signer is GB. -/
def foreignFlow : Run :=
  alone 0 (.initiate ⟨"GA", [("GB", .integer 1)], .integer 1, "explorer-web"⟩) 1 ++
    alone 1 (.contribute ⟨1, "GB", "c2ln"⟩) 2 ++ alone 2 (.complete 1) 6

theorem foreign_flow_issues : ¬ ∀ (outside : Outside) (Signed : String → String → Prop),
    (∀ address message signature,
      outside.verify address message signature = some true → Signed address message) →
    ∀ c : Config (World Unit) (Call Unit), (system outside).Reachable c →
    ∀ issue ∈ c.world.history.issues, Justified Signed c.world.history issue := by
  intro claim
  have reached := Transition.System.reachable_of_run (system (signedBy "GB")) idle foreignFlow
    ⟨⟨0, [], rfl⟩, rfl⟩ rfl
  have justified := claim (signedBy "GB") (fun address _ => address = "GB")
    (fun _ _ _ valid => of_decide_eq_true (Option.some.inj valid)) _ reached
    ⟨.flow 1, "GA", none⟩ (List.mem_singleton.mpr rfl)
  rcases justified with ⟨message, created, -⟩ | ⟨wallet, row, -⟩
  · contradiction
  · contradiction

end Octraban.Auth
