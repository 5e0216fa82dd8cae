import Mathlib.Data.List.DropRight
import Octraban.Core.JavaScript
import Octraban.Core.OrderedMap

/-! score.ts: a link between identities is verified when its signature is one of the linked
address over the message that comes with it. -/
namespace Octraban.Reputation
open JavaScript

structure LinkedIdentityInput where
  chainId : String
  address : String
  message : String
  signature : String

structure VerifiedIdentityLink where
  chainId : String
  address : String
  canonicalAddress : String
  verified : Bool
  messageHash : String

/-- What is not in the repository: `verify address message signature` is
`Keypair.fromPublicKey(address).verify(Buffer.from(message), signature)`, none where it throws,
and `stringify` is that of a text. -/
structure Platform where
  verify : String → String → List Nat → Option Bool
  base64 : String → List Nat
  stringify : String → String
  sha256 : String → String
  localeCompare : String → String → Int

/-- The check of a signature that a caller may bring along. -/
abbrev Verifier := String → String → String → String → Bool

/-- `/^0x[a-fA-F0-9]{40}$/` -/
def isHexAddress (text : String) : Bool :=
  match text.toList with
  | '0' :: 'x' :: digits => digits.length = 40 && digits.all fun c => (hexDigit c).isSome
  | _ => false

def canonicalAddress (address : String) : String :=
  let trimmed := trim address
  if isHexAddress trimmed then String.ofList (trimmed.toList.map Char.toLower) else trimmed

def deterministicHash (platform : Platform) (value : String) : String := platform.sha256 (platform.stringify value)

/-- `/^[A-Za-z0-9+/=]+$/` -/
def isBase64 (text : String) : Bool :=
  text ≠ "" && text.toList.all fun c => ('A' ≤ c && c ≤ 'Z') || ('a' ≤ c && c ≤ 'z') || c.isDigit || c ∈ ['+', '/', '=']

/-- `Buffer.from(text, 'hex')`, which stops at what is no pair of hexadecimal digits. -/
def hexBytes : List Char → List Nat
  | high :: low :: rest =>
    match hexDigit high, hexDigit low with
    | some h, some l => (16 * h + l) :: hexBytes rest
    | _, _ => []
  | _ => []

def decodeSignature (platform : Platform) (signature : String) : List Nat :=
  if isBase64 signature ∧ length signature % 4 = 0 then platform.base64 signature
  else
    match signature.toList with
    | '0' :: 'x' :: digits => hexBytes digits
    | digits => hexBytes digits

def verifyStellarSignedMessage (platform : Platform) (address message signature : String) : Bool :=
  (platform.verify address message (decodeSignature platform signature)).getD false

/-- `/^stellar/i` -/
def isStellarChain (chainId : String) : Bool := (chainId.toList.take 7).map Char.toLower = "stellar".toList

/-- `/^G[A-Z0-9]{55}$/` -/
def isStellarAddress (address : String) : Bool :=
  match address.toList with
  | 'G' :: rest => rest.length = 55 && rest.all fun c => ('A' ≤ c && c ≤ 'Z') || c.isDigit
  | _ => false

def verifySignedMessage (platform : Platform) (chainId address message signature : String)
    (verifier : Option Verifier) : Bool :=
  match verifier with
  | some verifier => verifier chainId (canonicalAddress address) message signature
  | none =>
    if isStellarChain chainId || isStellarAddress address then
      verifyStellarSignedMessage platform address message signature
    else false

/-- What becomes of one link. -/
def verifyLink (platform : Platform) (canonical : String) (verifier : Option Verifier) (link : LinkedIdentityInput) :
    VerifiedIdentityLink where
  chainId := link.chainId
  address := canonicalAddress link.address
  canonicalAddress := canonical
  verified := verifySignedMessage platform link.chainId link.address link.message link.signature verifier
  messageHash := deterministicHash platform link.message

def verifyIdentityLinks (platform : Platform) (address : String) (links : List LinkedIdentityInput)
    (verifier : Option Verifier) : List VerifiedIdentityLink :=
  let canonical := canonicalAddress address
  let before (a b : VerifiedIdentityLink) : Bool :=
    let byChain := platform.localeCompare a.chainId b.chainId
    (if byChain ≠ 0 then byChain else platform.localeCompare a.address b.address) ≤ 0
  (links.map (verifyLink platform canonical verifier)).mergeSort before

/-- The addresses whose data `computeReputationScoreForIdentity` counts for the identity. -/
def linkedAddresses (verifiedLinks : List VerifiedIdentityLink) : List String :=
  Ordered.ofList ((verifiedLinks.filter VerifiedIdentityLink.verified).map fun link => canonicalAddress link.address)

/-- The text of a message names an address. -/
def Names (message address : String) : Prop := address.toList <:+: message.toList

/-- Of the messages that keys have signed: no signature verifies over another one, and a
signature of each verifies. -/
structure Signatures (platform : Platform) (signed : String → String → Prop) : Prop where
  unforgeable : ∀ address message signature,
    platform.verify address message signature = some true → signed address message
  verifies : ∀ address message, signed address message →
    ∃ signature, platform.verify address message (decodeSignature platform signature) = some true

variable {platform : Platform} {signed : String → String → Prop} {link : LinkedIdentityInput}

/-- The address of an account is its own canonical form. -/
theorem canonicalAddress_account (account : isStellarAddress address = true) : canonicalAddress address = address := by
  rw [isStellarAddress] at account
  split at account
  · rename_i rest spelled
    rw [Bool.and_eq_true, List.all_eq_true] at account
    have solid : ∀ c ∈ address.toList, isWhitespace c = false := by
      intro c member
      rcases List.mem_cons.mp (spelled ▸ member) with rfl | later
      · rfl
      · have letter := account.2 c later
        rw [Bool.or_eq_true, Bool.and_eq_true, decide_eq_true_eq, decide_eq_true_eq] at letter
        rcases letter with capital | digit
        · exact isWhitespace_of_capital capital
        · exact isWhitespace_of_isDigit digit
    have short : isHexAddress address = false := by
      rw [isHexAddress]
      rw [spelled]
      split
      · rename_i head
        cases head
      · rfl
    unfold canonicalAddress
    dsimp only
    rw [trim_eq solid, short]
    exact if_neg Bool.false_ne_true
  · cases account

theorem dropWhile_prefix {A : Type} {space : A → Bool} {front characters : List A}
    (starts : front <+: characters.dropWhile space) : front.dropWhile space = front := by
  obtain ⟨rest, parts⟩ := starts
  cases front with
  | nil => rfl
  | cons first front =>
    have solid := List.head?_dropWhile_not space characters
    rw [← parts] at solid
    have other : space first = false := by simpa using solid
    exact List.dropWhile_cons_of_neg (Bool.eq_false_iff.mp other)

theorem trim_trim (text : String) : trim (trim text) = trim text := by
  have whole (characters : List Char) :
      (characters.reverse.dropWhile isWhitespace).reverse = characters.rdropWhile isWhitespace := rfl
  rw [trim, trim, whole, whole, String.toList_ofList, dropWhile_prefix (List.rdropWhile_prefix _ _),
    List.rdropWhile_idempotent]

theorem lower_of_hexDigit {c : Char} (digit : (hexDigit c).isSome = true) :
    (hexDigit c.toLower).isSome = true ∧ isWhitespace c.toLower = false ∧ c.toLower.toLower = c.toLower := by
  obtain ⟨v, read⟩ := Option.isSome_iff_exists.mp digit
  have each : ∀ n < 103, (hexDigit (Char.ofNat n)).isSome = true →
      (hexDigit (Char.ofNat n).toLower).isSome = true ∧ isWhitespace (Char.ofNat n).toLower = false ∧
        (Char.ofNat n).toLower.toLower = (Char.ofNat n).toLower := by decide
  have same : Char.ofNat c.toNat = c := Char.ofNat_toNat c
  have here := each c.toNat (lt_of_hexDigit read)
  rw [same] at here
  exact here digit

theorem canonicalAddress_idem (address : String) : canonicalAddress (canonicalAddress address) = canonicalAddress address := by
  by_cases hex : isHexAddress (trim address) = true
  · have lowered : canonicalAddress address = String.ofList ((trim address).toList.map Char.toLower) := if_pos hex
    rw [lowered]
    rw [isHexAddress] at hex
    split at hex
    · rename_i digits spelled
      rw [Bool.and_eq_true, decide_eq_true_eq, List.all_eq_true] at hex
      have kept : (String.ofList ((trim address).toList.map Char.toLower)).toList = '0' :: 'x' :: digits.map Char.toLower := by
        rw [String.toList_ofList, spelled]
        rfl
      have solid : ∀ c ∈ (String.ofList ((trim address).toList.map Char.toLower)).toList, isWhitespace c = false := by
        intro c member
        rw [kept, List.mem_cons, List.mem_cons, List.mem_map] at member
        rcases member with rfl | rfl | ⟨digit, listed, rfl⟩
        · rfl
        · rfl
        · exact (lower_of_hexDigit (hex.2 digit listed)).2.1
      have again : isHexAddress (String.ofList ((trim address).toList.map Char.toLower)) = true := by
        rw [isHexAddress]
        rw [kept]
        simp only [List.length_map, hex.1, decide_true, Bool.true_and, List.all_eq_true, List.mem_map]
        rintro c ⟨digit, listed, rfl⟩
        exact (lower_of_hexDigit (hex.2 digit listed)).1
      rw [canonicalAddress, trim_eq solid]
      refine (if_pos again).trans ?_
      rw [kept, spelled, List.map_cons, List.map_cons, List.map_map, List.map_cons, List.map_cons]
      have twice : digits.map (Char.toLower ∘ Char.toLower) = digits.map Char.toLower :=
        List.map_congr_left fun digit listed => (lower_of_hexDigit (hex.2 digit listed)).2.2
      rw [twice]
    · cases hex
  · have plain (text : String) (other : ¬ isHexAddress (trim text) = true) : canonicalAddress text = trim text := if_neg other
    rw [plain address hex]
    rw [plain (trim address) (by rwa [trim_trim]), trim_trim]

/-- Sorting neither adds a link nor drops one. -/
theorem mem_verifyIdentityLinks {result : VerifiedIdentityLink} {links : List LinkedIdentityInput}
    {verifier : Option Verifier} : result ∈ verifyIdentityLinks platform address links verifier ↔
      ∃ link ∈ links, verifyLink platform (canonicalAddress address) verifier link = result := by
  rw [verifyIdentityLinks]
  rw [List.mem_mergeSort, List.mem_map]

@[simp] theorem verifyLink_address {verifier : Option Verifier} :
    (verifyLink platform canonical verifier link).address = canonicalAddress link.address := by
  simp only [verifyLink]

theorem mem_linkedAddresses {links : List LinkedIdentityInput} {verifier : Option Verifier} :
    other ∈ linkedAddresses (verifyIdentityLinks platform address links verifier) ↔
      ∃ link ∈ links, (verifyLink platform (canonicalAddress address) verifier link).verified = true ∧
        canonicalAddress (canonicalAddress link.address) = other := by
  rw [linkedAddresses]
  simp only [Ordered.mem_ofList, List.mem_map, List.mem_filter, mem_verifyIdentityLinks]
  constructor
  · rintro ⟨_, ⟨⟨link, member, rfl⟩, verified⟩, same⟩
    rw [verifyLink_address] at same
    exact ⟨link, member, verified, same⟩
  · rintro ⟨link, member, verified, same⟩
    refine ⟨verifyLink platform (canonicalAddress address) verifier link, ⟨⟨link, member, rfl⟩, verified⟩, ?_⟩
    rw [verifyLink_address]
    exact same

theorem signed_of_verified (signatures : Signatures platform signed)
    (verified : (verifyLink platform canonical none link).verified = true) : signed link.address link.message := by
  have accepted : verifySignedMessage platform link.chainId link.address link.message link.signature none = true :=
    verified
  unfold verifySignedMessage at accepted
  simp only at accepted
  split at accepted
  · rw [verifyStellarSignedMessage] at accepted
    cases checked : platform.verify link.address link.message (decodeSignature platform link.signature) with
    | none =>
      rw [checked] at accepted
      cases accepted
    | some valid =>
      rw [checked] at accepted
      exact signatures.unforgeable _ _ _ (checked.trans (congrArg some accepted))
  · cases accepted

/-- Whatever an address has signed makes a link to any identity. -/
theorem verified_of_signed (signatures : Signatures platform signed) (known : signed address message) :
    ∃ link : LinkedIdentityInput, link.address = address ∧ link.message = message ∧
      ∀ canonical, (verifyLink platform canonical none link).verified = true := by
  obtain ⟨signature, valid⟩ := signatures.verifies address message known
  refine ⟨⟨"stellar", address, message, signature⟩, rfl, rfl, fun canonical => ?_⟩
  have stellar : isStellarChain "stellar" = true := by decide
  simp only [verifyLink, verifySignedMessage, stellar, Bool.true_or, if_true, verifyStellarSignedMessage, valid,
    Option.getD_some]

/-- When every verified link of an address to an identity was signed by that address for
that identity, over all requests. -/
theorem identity_links_bound_iff (platform : Platform) (signed : String → String → Prop)
    (signatures : Signatures platform signed) (identity address : String) :
    (∀ (links : List LinkedIdentityInput), ∀ link ∈ links, link.address = address →
      verifyLink platform (canonicalAddress identity) none link ∈ verifyIdentityLinks platform identity links none ∧
      ((verifyLink platform (canonicalAddress identity) none link).verified = true →
        signed address link.message ∧ Names link.message (canonicalAddress identity))) ↔
    ∀ message, signed address message → Names message (canonicalAddress identity) := by
  constructor
  · intro bound message known
    obtain ⟨link, rfl, rfl, verified⟩ := verified_of_signed signatures known
    exact ((bound [link] link List.mem_cons_self rfl).2 (verified _)).2
  · rintro all links link member rfl
    refine ⟨mem_verifyIdentityLinks.mpr ⟨link, member, rfl⟩, fun verified => ?_⟩
    have known := signed_of_verified signatures verified
    exact ⟨known, all _ known⟩

/-! ### One signature -/

def linkedAccount : String := "GCFIRY65OQE7DFP5KLNS2PF2LVZMUZYJX4OZIEQ36N2IQANUB5XVYOJR"
def intendedAccount : String := "GCATS5YOVB6ROX2WUNKGNQ2MP3GMXDMKSG2O4N5CLX3A6W4PZGZZI55U"
def otherAccount : String := "GDWUSKGGFDI4FRXK5EBTRECZSVQSSWJHHJOGH6JWG3AUMFFMQ435DIAG"

def linkMessage : String := "link GCATS5YOVB6ROX2WUNKGNQ2MP3GMXDMKSG2O4N5CLX3A6W4PZGZZI55U"

/-- The signature of the linked account over the message. -/
def linkSignature : String :=
  "0xeacca593d5b5bd26d990c61ebeffaeebd99ac7aa2248971890b36f1cf8e199b34457af8d1294a1476ac2f197f92b2499a1d10e353b170a9ef97370d0dd7b5c08"

def onePlatform : Platform where
  verify address message signature :=
    if address = linkedAccount then some (message = linkMessage ∧ signature = hexBytes (linkSignature.toList.drop 2))
    else none
  base64 _ := []
  stringify text := text
  sha256 text := text
  localeCompare a b := if a < b then -1 else if a = b then 0 else 1

def OneSigned (address message : String) : Prop := address = linkedAccount ∧ message = linkMessage

theorem account_intended : isStellarAddress intendedAccount = true := by
  have spelled : intendedAccount.toList = _ := String.toList_ofList
  rw [isStellarAddress]
  rw [spelled]
  decide

theorem account_other : isStellarAddress otherAccount = true := by
  have spelled : otherAccount.toList = _ := String.toList_ofList
  rw [isStellarAddress]
  rw [spelled]
  decide

set_option maxRecDepth 2000 in
theorem signatures_one : Signatures onePlatform OneSigned where
  unforgeable address message signature valid := by
    rw [onePlatform] at valid
    simp only [Option.ite_none_right_eq_some, Option.some.injEq, decide_eq_true_eq] at valid
    exact ⟨valid.1, valid.2.1⟩
  verifies address message known := by
    obtain ⟨rfl, rfl⟩ := known
    have spelled : linkSignature.toList = _ := String.toList_ofList
    refine ⟨linkSignature, ?_⟩
    rw [onePlatform, decodeSignature, isBase64, length, utf16]
    simp only [spelled]
    decide

theorem identity_links_bound_intended :
    (∀ message, OneSigned linkedAccount message → Names message (canonicalAddress intendedAccount)) ∧
    (∀ (links : List LinkedIdentityInput), ∀ link ∈ links, link.address = linkedAccount →
      verifyLink onePlatform (canonicalAddress intendedAccount) none link ∈
        verifyIdentityLinks onePlatform intendedAccount links none ∧
      ((verifyLink onePlatform (canonicalAddress intendedAccount) none link).verified = true →
        OneSigned linkedAccount link.message ∧ Names link.message (canonicalAddress intendedAccount))) := by
  have all (message : String) (known : OneSigned linkedAccount message) :
      Names message (canonicalAddress intendedAccount) := by
    obtain ⟨_, rfl⟩ := known
    have spelled : linkMessage.toList = _ := String.toList_ofList
    have named : intendedAccount.toList = _ := String.toList_ofList
    rw [Names, canonicalAddress_account account_intended, spelled, named]
    exact ⟨['l', 'i', 'n', 'k', ' '], [], rfl⟩
  exact ⟨all, (identity_links_bound_iff onePlatform OneSigned signatures_one intendedAccount linkedAccount).mpr all⟩

/-- The signature for one identity verifies a link to another one. -/
theorem identity_link_replayed : ¬ ∀ (platform : Platform) (signed : String → String → Prop) (identity : String)
    (links : List LinkedIdentityInput), Signatures platform signed → ∀ link ∈ links,
    (verifyLink platform (canonicalAddress identity) none link).verified = true →
      signed link.address link.message ∧ Names link.message (canonicalAddress identity) := by
  intro claimed
  obtain ⟨link, _, message, verified⟩ := verified_of_signed signatures_one ⟨rfl, rfl⟩
  have named :=
    (claimed onePlatform OneSigned otherAccount [link] signatures_one link List.mem_cons_self (verified _)).2
  have spelled : linkMessage.toList = _ := String.toList_ofList
  have other : otherAccount.toList = _ := String.toList_ofList
  rw [message, Names, canonicalAddress_account account_other, spelled, other] at named
  revert named
  decide

end Octraban.Reputation
