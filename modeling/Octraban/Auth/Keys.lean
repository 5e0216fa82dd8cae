import Octraban.Core.Interleaving
import Octraban.Cache

/-! keys.ts and the token half of tokens.ts: each process memoises one key pair
for ever; it finds it by one cache call and stores a new one by another. -/
namespace Octraban.Keys
open Interleaving

/-- The parts of a key pair that signing, verifying and publishing use. -/
structure Key where
  kid : String
  privateKeyPem : String
  publicKeyPem : String
  deriving DecidableEq, Repr

structure KeyPair extends Key where
  createdAt : Nat
  deriving DecidableEq, Repr

/-- The environment of all processes; `""` is as good as unset. -/
structure Settings where
  isProduction : Bool
  JWT_PRIVATE_KEY : Option String
  JWT_PUBLIC_KEY : Option String
  JWT_KEY_ID : Option String

def present (value : Option String) : Option String := value.filter fun text => text ≠ ""

def Settings.envKey (settings : Settings) : Option Key :=
  match present settings.JWT_PRIVATE_KEY, present settings.JWT_PUBLIC_KEY with
  | some privateKey, some publicKey =>
    some ⟨settings.JWT_KEY_ID.getD "env_key", privateKey.replace "\\n" "\n", publicKey.replace "\\n" "\n"⟩
  | _, _ => none

/-- The checks of a start-up, but for the parsing of the keys. -/
def validateJwtKeysAtStartup (settings : Settings) : Bool :=
  let hasPrivateKey := (present settings.JWT_PRIVATE_KEY).isSome
  let hasPublicKey := (present settings.JWT_PUBLIC_KEY).isSome
  (!settings.isProduction || (hasPrivateKey && hasPublicKey)) && hasPrivateKey == hasPublicKey

/-- What a started process runs with. -/
structure Started extends Settings where
  validated : validateJwtKeysAtStartup toSettings

def KEY_TTL : Nat := 7 * 24 * 3600

def ACCESS_TOKEN_TTL : Nat := 24 * 3600

/-- The header's key id, the key that signed, and the claim `iat` in seconds. -/
structure Token where
  kid : String
  signedWith : String
  iat : Nat
  deriving DecidableEq, Repr

def Token.exp (token : Token) : Nat := token.iat + ACCESS_TOKEN_TTL

def Token.unexpired (token : Token) (now : Nat) : Bool := now / 1000 < token.exp

/-- What `forge` and the random kid add to a new pair. -/
structure Generated where
  kid : String
  privateKeyPem : String

inductive Response where
  | verified (token : Token) (accepted : Bool)
  | listed (keys : List (String × String))

/-- A response with the time it was made at and the tokens issued before it. -/
structure Answer where
  now : Nat
  issued : List Token
  response : Response

structure World (P : Type*) where
  now : Nat
  keys : Cell P KeyPair
  currentKeyPair : P → Option KeyPair
  issued : List Token
  answers : List Answer

inductive Purpose where
  | issueTokens
  | verifyToken (token : Token)
  | getJwks
  | rotateKeys
  deriving DecidableEq

inductive Request (P : Type*) where
  | use (self : P) (purpose : Purpose)
  | rotateKeys (self : P) (generated : Generated)

inductive Pending where
  | cacheGet
  | cacheSet (pair : KeyPair)
  deriving DecidableEq

structure Call (P : Type*) where
  self : P
  purpose : Purpose
  pending : Pending

inductive Event (P : Type*) where
  | tick
  | evict (p : P)

variable {P : Type*} [DecidableEq P] (publicOf : String → String) (started : Started)

def generateRsaKeyPair (now : Nat) (generated : Generated) : KeyPair :=
  ⟨⟨generated.kid, generated.privateKeyPem, publicOf generated.privateKeyPem⟩, now⟩

def jwtVerify (token : Token) (publicKeyPem : String) (now : Nat) : Bool :=
  publicOf token.signedWith = publicKeyPem && token.unexpired now

def World.answer (w : World P) (response : Response) : World P :=
  { w with answers := ⟨w.now, w.issued, response⟩ :: w.answers }

def World.memoise (w : World P) (p : P) (pair : KeyPair) : World P :=
  { w with currentKeyPair := Function.update w.currentKeyPair p (some pair) }

/-- The rest of the caller once it has its key pair. -/
def World.respond (w : World P) (pair : KeyPair) : Purpose → World P
  | .issueTokens => { w with issued := ⟨pair.kid, pair.privateKeyPem, w.now / 1000⟩ :: w.issued }
  | .verifyToken token =>
    w.answer (.verified token (jwtVerify publicOf token pair.publicKeyPem w.now))
  | .getJwks => w.answer (.listed [(pair.kid, pair.publicKeyPem)])
  | .rotateKeys => w

/-- The caller when `getOrCreateKeyPair` throws: `verifyToken` catches it. -/
def World.refuse (w : World P) : Purpose → World P
  | .verifyToken token => w.answer (.verified token false)
  | _ => w

def start (w : World P) : Request P → Option (World P × Option (Call P))
  | .use p purpose =>
    match w.currentKeyPair p with
    | some pair => some (w.respond publicOf pair purpose, none)
    | none => some (w, some ⟨p, purpose, .cacheGet⟩)
  | .rotateKeys p generated =>
    let pair := generateRsaKeyPair publicOf w.now generated
    some (w.memoise p pair, some ⟨p, .rotateKeys, .cacheSet pair⟩)

/-- The pair a process makes when the cache has none. -/
def createKeyPair (now : Nat) (generated : Generated) : Option KeyPair :=
  match started.envKey with
  | some key => some ⟨key, now⟩
  | none => if started.isProduction then none else some (generateRsaKeyPair publicOf now generated)

def resume (w : World P) (call : Call P) (generated : Generated) :
    Option (World P × Option (Call P)) :=
  let p := call.self
  match call.pending with
  | .cacheGet =>
    let (cached, keys) := w.keys.cacheGet p w.now
    let w := { w with keys := keys }
    match cached with
    | some pair => some ((w.memoise p pair).respond publicOf pair call.purpose, none)
    | none =>
      match createKeyPair publicOf started w.now generated with
      | some pair => some (w.memoise p pair, some { call with pending := .cacheSet pair })
      | none => some (w.refuse call.purpose, none)
  | .cacheSet pair =>
    let w := { w with keys := w.keys.cacheSet p w.now pair KEY_TTL }
    -- the module variable may have changed while the write was on its way
    some ((w.currentKeyPair p).elim w fun current => w.respond publicOf current call.purpose, none)

def environment (w : World P) : Event P → Option (World P)
  | .tick => some { w with now := w.now + 1 }
  | .evict p => some { w with keys := w.keys.evict p }

def program : Program (World P) (Call P) (Request P) Generated (Event P) where
  start := start publicOf
  resume := resume publicOf started
  environment := environment

/-- Redis may hold a pair that earlier processes have stored. -/
def system : Transition.System (Config (World P) (Call P)) (Act (Request P) Generated (Event P)) :=
  (program publicOf started).system fun w =>
    (∃ stored, w.keys = ⟨stored, fun _ => none⟩ ∧
      ∀ entry, stored = some entry → publicOf entry.payload.privateKeyPem = entry.payload.publicKeyPem) ∧
    w.currentKeyPair = (fun _ => none) ∧ w.issued = [] ∧ w.answers = []

/-- An unexpired token issued before is accepted, and its key is listed. -/
def Answer.Sound (answer : Answer) : Prop :=
  ∀ token ∈ answer.issued, token.unexpired answer.now →
    match answer.response with
    | .verified presented accepted => presented = token → accepted = true
    | .listed keys => (token.kid, publicOf token.signedWith) ∈ keys

def World.Served (w : World P) : Prop := ∀ answer ∈ w.answers, answer.Sound publicOf

/-- A process memoises the key, an unexpired cache copy holds it, or an unexpired
token was signed with it. -/
inductive World.Uses (w : World P) : Key → Prop where
  | memo : w.currentKeyPair p = some pair → w.Uses pair.toKey
  | cached : w.keys.Holds w.now pair → w.Uses pair.toKey
  | token : token ∈ w.issued → token.unexpired w.now →
      w.Uses ⟨token.kid, token.signedWith, publicOf token.signedWith⟩

/-- The step makes a key pair: a rotation, or a lookup that misses the cache. -/
inductive Creates (c : Config (World P) (Call P)) : Act (Request P) Generated (Event P) → Key → Prop where
  | rotation : Creates c (.start k (.rotateKeys p generated))
      (generateRsaKeyPair publicOf c.world.now generated).toKey
  | miss : c.live k = some call → call.pending = .cacheGet →
      (c.world.keys.cacheGet call.self c.world.now).1 = none →
      createKeyPair publicOf started c.world.now generated = some pair →
      Creates c (.resume k generated) pair.toKey

/-- A key pair is made only while no other key is in use. -/
def CreatesAlone (c : Config (World P) (Call P)) (a : Act (Request P) Generated (Event P)) : Prop :=
  ∀ key, Creates publicOf started c a key → ∀ used, c.world.Uses publicOf used → used = key

/-- All keys in use are one key, and it is a pair. -/
structure OneKey (w : World P) : Prop where
  agree : w.Uses publicOf a → w.Uses publicOf b → a = b
  paired : w.Uses publicOf a → publicOf a.privateKeyPem = a.publicKeyPem
  served : w.Served publicOf

/-- A pair on its way to the cache is still the memoised one. -/
def Memoised (w : World P) (call : Call P) : Prop :=
  ∀ pair, call.pending = .cacheSet pair →
    ∃ memo, w.currentKeyPair call.self = some memo ∧ memo.toKey = pair.toKey

variable {publicOf} {started}

omit [DecidableEq P] in
theorem OneKey.narrow {w w' : World P} (good : OneKey publicOf w)
    (fewer : ∀ key, w'.Uses publicOf key → w.Uses publicOf key) (answers : w'.answers = w.answers) :
    OneKey publicOf w' where
  agree first second := good.agree (fewer _ first) (fewer _ second)
  paired used := good.paired (fewer _ used)
  served := by
    unfold World.Served
    rw [answers]
    exact good.served

omit [DecidableEq P] in
/-- A new key joins when there is no other. -/
theorem OneKey.create {w w' : World P} {key : Key} (good : OneKey publicOf w)
    (alone : ∀ used, w.Uses publicOf used → used = key)
    (paired : publicOf key.privateKeyPem = key.publicKeyPem)
    (uses : ∀ used, w'.Uses publicOf used → w.Uses publicOf used ∨ used = key)
    (answers : w'.answers = w.answers) : OneKey publicOf w' := by
  have same : ∀ used, w'.Uses publicOf used → used = key := fun used found =>
    (uses used found).elim (alone used) fun eq => eq
  refine ⟨fun first second => (same _ first).trans (same _ second).symm, ?_, ?_⟩
  · intro used found
    rw [same used found]
    exact paired
  · unfold World.Served
    rw [answers]
    exact good.served

@[simp] theorem memoise_self (w : World P) (p : P) (pair : KeyPair) :
    (w.memoise p pair).currentKeyPair p = some pair := Function.update_self ..

theorem memoise_ne (w : World P) (pair : KeyPair) {p q : P} (other : q ≠ p) :
    (w.memoise p pair).currentKeyPair q = w.currentKeyPair q := Function.update_of_ne other ..

theorem uses_memoise {w : World P} {p : P} {pair : KeyPair} {key : Key}
    (used : (w.memoise p pair).Uses publicOf key) : w.Uses publicOf key ∨ key = pair.toKey := by
  cases used with
  | memo found =>
    simp only [World.memoise, Function.update_apply] at found
    split at found
    · cases found
      exact .inr rfl
    · exact .inl (.memo found)
  | cached holds => exact .inl (.cached holds)
  | token issued unexpired => exact .inl (.token issued unexpired)

omit [DecidableEq P] in
theorem uses_keys {w : World P} {keys : Cell P KeyPair} {key : Key}
    (used : ({ w with keys := keys } : World P).Uses publicOf key) :
    w.Uses publicOf key ∨ ∃ pair, keys.Holds w.now pair ∧ key = pair.toKey := by
  cases used with
  | memo found => exact .inl (.memo found)
  | cached holds => exact .inr ⟨_, holds, rfl⟩
  | token issued unexpired => exact .inl (.token issued unexpired)

omit [DecidableEq P] in
@[simp] theorem respond_currentKeyPair (w : World P) (pair : KeyPair) (purpose : Purpose) :
    (w.respond publicOf pair purpose).currentKeyPair = w.currentKeyPair := by
  cases purpose <;> rfl

omit [DecidableEq P] in
/-- Whoever responds with the key in use keeps the promise to all tokens. -/
theorem OneKey.respond {w : World P} {pair : KeyPair} (good : OneKey publicOf w)
    (inUse : w.Uses publicOf pair.toKey) (purpose : Purpose) :
    OneKey publicOf (w.respond publicOf pair purpose) := by
  have same : ∀ token ∈ w.issued, token.unexpired w.now →
      (⟨token.kid, token.signedWith, publicOf token.signedWith⟩ : Key) = pair.toKey :=
    fun token issued unexpired => good.agree (.token issued unexpired) inUse
  have answered (response : Response) (sound : Answer.Sound publicOf ⟨w.now, w.issued, response⟩) :
      OneKey publicOf (w.answer response) := by
    refine ⟨fun first second => ?_, fun used => ?_, List.forall_mem_cons.mpr ⟨sound, good.served⟩⟩
    · have unchanged : ∀ key, (w.answer response).Uses publicOf key → w.Uses publicOf key := by
        rintro _ (found | holds | ⟨issued, unexpired⟩)
        · exact .memo found
        · exact .cached holds
        · exact .token issued unexpired
      exact good.agree (unchanged _ first) (unchanged _ second)
    · cases used with
      | memo found => exact good.paired (.memo found)
      | cached holds => exact good.paired (.cached holds)
      | token issued unexpired => rfl
  cases purpose with
  | issueTokens =>
    refine good.narrow (fun key used => ?_) rfl
    cases used with
    | memo found => exact .memo found
    | cached holds => exact .cached holds
    | token issued unexpired =>
      rcases List.mem_cons.mp issued with rfl | issued
      · have paired := good.paired inUse
        dsimp only at paired ⊢
        rw [paired]
        exact inUse
      · exact .token issued unexpired
  | verifyToken token =>
    apply answered
    rintro issued member unexpired rfl
    have key := congrArg Key.publicKeyPem (same token member unexpired)
    simpa only [jwtVerify, Bool.and_eq_true, decide_eq_true_eq] using And.intro key unexpired
  | getJwks =>
    apply answered
    intro token member unexpired
    have key := same token member unexpired
    have kid := congrArg Key.kid key
    have publicKey := congrArg Key.publicKeyPem key
    exact List.mem_singleton.mpr (Prod.ext kid publicKey)
  | rotateKeys => exact good

theorem Memoised.memoise {w : World P} {p : P} {pair : KeyPair} {other : Call P}
    (memoised : Memoised w other)
    (same : ∀ memo, w.currentKeyPair p = some memo → memo.toKey = pair.toKey) :
    Memoised (w.memoise p pair) other := by
  intro written pending
  obtain ⟨memo, found, eq⟩ := memoised written pending
  by_cases self : other.self = p
  · refine ⟨pair, ?_, (same memo (self ▸ found)).symm.trans eq⟩
    rw [self, memoise_self]
  · exact ⟨memo, (memoise_ne w pair self).trans found, eq⟩

theorem createKeyPair_paired (paired : ∀ key, started.envKey = some key →
    publicOf key.privateKeyPem = key.publicKeyPem) {now : Nat} {generated : Generated} {pair : KeyPair}
    (created : createKeyPair publicOf started now generated = some pair) :
    publicOf pair.privateKeyPem = pair.publicKeyPem := by
  unfold createKeyPair at created
  split at created
  · rename_i key found
    cases created
    exact paired key found
  · split at created
    · contradiction
    · cases created
      rfl

/-- A started process never throws for want of keys. -/
theorem createKeyPair_ne_none (now : Nat) (generated : Generated) :
    createKeyPair publicOf started now generated ≠ none := by
  have validated := started.validated
  unfold createKeyPair Settings.envKey
  unfold validateJwtKeysAtStartup at validated
  cases production : started.isProduction <;>
    cases privateKey : present started.JWT_PRIVATE_KEY <;>
      cases publicKey : present started.JWT_PUBLIC_KEY <;> simp_all

theorem resume_preserves {w w' : World P} {call : Call P} {generated : Generated}
    {next : Option (Call P)} (good : OneKey publicOf w) (memoised : Memoised w call)
    (paired : ∀ key, started.envKey = some key → publicOf key.privateKeyPem = key.publicKeyPem)
    (alone : ∀ pair, call.pending = .cacheGet → (w.keys.cacheGet call.self w.now).1 = none →
      createKeyPair publicOf started w.now generated = some pair →
      ∀ used, w.Uses publicOf used → used = pair.toKey)
    (resumed : resume publicOf started w call generated = some (w', next)) :
    OneKey publicOf w' ∧ (∀ call, next = some call → Memoised w' call) ∧
      ∀ other, Memoised w other → Memoised w' other := by
  obtain ⟨p, purpose, pending⟩ := call
  cases pending with
  | cacheGet =>
    have kept (key : Key) (used : ({ w with keys := (w.keys.cacheGet p w.now).2 } : World P).Uses
        publicOf key) : w.Uses publicOf key := by
      rcases uses_keys used with used | ⟨pair, holds, rfl⟩
      · exact used
      · exact .cached (Cell.holds_cacheGet holds)
    simp only [resume] at resumed
    split at resumed
    · rename_i pair found
      cases resumed
      have inUse : w.Uses publicOf pair.toKey := .cached (Cell.cacheGet_holds found)
      have moved : OneKey publicOf
          (({ w with keys := (w.keys.cacheGet p w.now).2 } : World P).memoise p pair) := by
        refine good.narrow (fun key used => ?_) rfl
        rcases uses_memoise used with used | rfl
        · exact kept key used
        · exact inUse
      refine ⟨moved.respond (.memo (memoise_self _ p pair)) purpose, nofun, fun other waiting => ?_⟩
      · have later : Memoised (({ w with keys := (w.keys.cacheGet p w.now).2 } : World P).memoise p pair)
            other := Memoised.memoise waiting fun memo found => good.agree (.memo found) inUse
        simpa only [Memoised, respond_currentKeyPair] using later
    · rename_i missed
      split at resumed
      · rename_i pair created
        cases resumed
        have alone := alone pair rfl missed created
        refine ⟨good.create alone (createKeyPair_paired paired created) (fun used found => ?_) rfl,
          ?_, fun other waiting => ?_⟩
        · exact (uses_memoise found).imp_left (kept used)
        · rintro _ ⟨⟩ written ⟨⟩
          exact ⟨pair, memoise_self .., rfl⟩
        · exact Memoised.memoise waiting fun memo found => alone _ (.memo found)
      · rename_i failed
        exact absurd failed (createKeyPair_ne_none w.now generated)
  | cacheSet pair =>
    obtain ⟨memo, found, same⟩ := memoised pair rfl
    have inUse : w.Uses publicOf pair.toKey := same ▸ .memo found
    simp only [resume, found, Option.elim_some] at resumed
    cases resumed
    have moved : OneKey publicOf { w with keys := w.keys.cacheSet p w.now pair KEY_TTL } := by
      refine good.narrow (fun key used => ?_) rfl
      rcases uses_keys used with used | ⟨other, holds, rfl⟩
      · exact used
      · rcases Cell.holds_cacheSet holds with rfl | before
        · exact inUse
        · exact .cached before
    refine ⟨moved.respond (.memo found) purpose, nofun, fun other waiting => ?_⟩
    simpa only [Memoised, respond_currentKeyPair] using waiting

theorem start_preserves {w w' : World P} {request : Request P} {next : Option (Call P)}
    (good : OneKey publicOf w)
    (alone : ∀ p generated, request = .rotateKeys p generated →
      ∀ used, w.Uses publicOf used → used = (generateRsaKeyPair publicOf w.now generated).toKey)
    (begun : start publicOf w request = some (w', next)) :
    OneKey publicOf w' ∧ (∀ call, next = some call → Memoised w' call) ∧
      ∀ other, Memoised w other → Memoised w' other := by
  cases request with
  | use p purpose =>
    simp only [start] at begun
    split at begun
    · rename_i pair found
      cases begun
      refine ⟨good.respond (.memo found) purpose, nofun, fun other waiting => ?_⟩
      simpa only [Memoised, respond_currentKeyPair] using waiting
    · cases begun
      refine ⟨good, ?_, fun other waiting => waiting⟩
      rintro _ ⟨⟩ written pending
      contradiction
  | rotateKeys p generated =>
    cases begun
    have alone := alone p generated rfl
    refine ⟨good.create alone rfl (fun used found => uses_memoise found) rfl, ?_,
      fun other waiting => waiting.memoise fun memo found => alone _ (.memo found)⟩
    rintro _ ⟨⟩ written ⟨⟩
    exact ⟨_, memoise_self .., rfl⟩

theorem environment_preserves {w w' : World P} {event : Event P} (good : OneKey publicOf w)
    (moved : environment w event = some w') :
    OneKey publicOf w' ∧ w'.currentKeyPair = w.currentKeyPair := by
  cases event with
  | tick =>
    cases moved
    refine ⟨good.narrow (fun key used => ?_) rfl, rfl⟩
    cases used with
    | memo found => exact .memo found
    | cached holds => exact .cached (holds.earlier (Nat.le_succ _))
    | token issued unexpired =>
      refine .token issued ?_
      simp only [Token.unexpired, decide_eq_true_eq] at unexpired ⊢
      omega
  | evict p =>
    cases moved
    refine ⟨good.narrow (fun key used => ?_) rfl, rfl⟩
    rcases uses_keys used with used | ⟨pair, holds, rfl⟩
    · exact used
    · exact .cached (Cell.holds_evict holds)

theorem alone_preserves {c c' : Config (World P) (Call P)}
    {a : Act (Request P) Generated (Event P)}
    (paired : ∀ key, started.envKey = some key → publicOf key.privateKeyPem = key.publicKeyPem)
    (holds : c.Holds (OneKey publicOf) Memoised) (alone : CreatesAlone publicOf started c a)
    (stepped : (program publicOf started).step c a = some c') :
    c'.Holds (OneKey publicOf) Memoised := by
  cases Program.step_cases stepped with
  | start idle begun =>
    obtain ⟨good, own, others⟩ := start_preserves holds.world
      (by
        rintro p generated rfl
        exact alone _ .rotation) begun
    exact Config.holds_put good own fun j other _ found => others other (holds.live found)
  | @resume k call generated w l found resumed =>
    obtain ⟨good, own, others⟩ := resume_preserves holds.world (holds.live found) paired
      (fun pair pending missed created => alone _ (.miss found pending missed created)) resumed
    exact Config.holds_put good own fun j other _ found => others other (holds.live found)
  | abort => exact holds.abort
  | environment moved =>
    obtain ⟨good, same⟩ := environment_preserves holds.world moved
    refine ⟨good, fun {k call} found => ?_⟩
    have waiting := holds.live found
    simpa only [Memoised, same] using waiting

theorem initial_holds {c : Config (World P) (Call P)} (start : (system publicOf started).initial c) :
    c.Holds (OneKey publicOf) Memoised := by
  obtain ⟨⟨⟨stored, keys, pairs⟩, memos, issued, answers⟩, idle⟩ := start
  have uses : ∀ key, c.world.Uses publicOf key →
      ∃ entry, stored = some entry ∧ key = entry.payload.toKey := by
    rintro _ (found | ⟨entry, copy, live, rfl⟩ | ⟨member, -⟩)
    · rw [memos] at found
      contradiction
    · rw [keys] at copy
      rcases copy with held | ⟨p, held⟩
      · exact ⟨entry, held, rfl⟩
      · contradiction
    · rw [issued] at member
      contradiction
  refine Config.holds_idle ⟨?_, ?_, ?_⟩ idle
  · intro a b first second
    obtain ⟨entry, rfl, rfl⟩ := uses a first
    obtain ⟨_, ⟨⟩, rfl⟩ := uses b second
    rfl
  · intro a used
    obtain ⟨entry, held, rfl⟩ := uses a used
    exact pairs entry held
  · unfold World.Served
    rw [answers]
    nofun

/-- Where keys are only made alone, every unexpired token is accepted and its key
listed, whichever process answers. -/
theorem alone_served (publicOf : String → String) (started : Started)
    (paired : ∀ key, started.envKey = some key → publicOf key.privateKeyPem = key.publicKeyPem)
    {c : Config (World P) (Call P)}
    (reached : (system publicOf started).ReachableWhen (CreatesAlone publicOf started) c) :
    c.world.Served publicOf := by
  have holds : c.Holds (OneKey publicOf) Memoised := by
    exact reached.invariant initial_holds (alone_preserves paired)
  exact holds.world.served

/-- No key is set; the public half of `"a"` is `"a.pub"`. -/
def unset : Started := ⟨⟨false, none, none, none⟩, rfl⟩

def pem (privateKeyPem : String) : String := privateKeyPem ++ ".pub"

def fresh : Config (World Bool) (Call Bool) :=
  ⟨⟨0, .empty, fun _ => none, [], []⟩, fun _ => none⟩

/-- One process issues a token with a new key. -/
def firstIssue : List (Act (Request Bool) Generated (Event Bool)) :=
  [.start 0 (.use false .issueTokens), .resume 0 ⟨"key_1", "a"⟩, .resume 0 ⟨"", ""⟩]

/-- A second process looks the key up before the first has stored its own. -/
def startRace : List (Act (Request Bool) Generated (Event Bool)) :=
  [.start 0 (.use false .issueTokens), .resume 0 ⟨"key_1", "a"⟩,
    .start 1 (.use true .issueTokens), .resume 1 ⟨"key_2", "b"⟩,
    .resume 0 ⟨"", ""⟩, .resume 1 ⟨"", ""⟩,
    .start 2 (.use true (.verifyToken ⟨"key_1", "a", 0⟩))]

theorem first_issue_alone :
    (system pem unset).Guarded (CreatesAlone pem unset) fresh firstIssue := by
  simp only [firstIssue, Transition.System.Guarded]
  rintro _ ⟨⟩
  refine ⟨nofun, ?_⟩
  rintro _ ⟨⟩
  refine ⟨?_, ?_⟩
  · -- nothing is in use before the first key
    rintro key - used (found | ⟨entry, stored | ⟨p, stored⟩, -⟩ | ⟨member, -⟩)
    · cases found
    · cases stored
    · cases stored
    · cases member
  rintro _ ⟨⟩
  refine ⟨?_, trivial⟩
  rintro key (- | ⟨found, pending, -⟩)
  cases found
  contradiction

theorem first_issue_served : ∃ c, (system pem unset).run fresh firstIssue = some c ∧
    c.world.Served pem :=
  ⟨_, rfl, alone_served pem unset (by decide) (Transition.System.reachableWhen_of_run
    (system pem unset) fresh firstIssue ⟨⟨⟨none, rfl, nofun⟩, rfl, rfl, rfl⟩, rfl⟩
    first_issue_alone rfl)⟩

theorem start_race_rejects : ¬ ∀ c : Config (World Bool) (Call Bool),
    (system pem unset).Reachable c → c.world.Served pem := by
  intro claim
  have reached := Transition.System.reachable_of_run (system pem unset) fresh startRace
    ⟨⟨⟨none, rfl, nofun⟩, rfl, rfl, rfl⟩, rfl⟩ rfl
  have sound := claim _ reached _ List.mem_cons_self ⟨"key_1", "a", 0⟩ (by decide) (by decide)
  exact absurd (sound rfl) (by decide)

end Octraban.Keys
