import Octraban.Api.AllowList
import Octraban.Core.Value

/-! ssrf-guard.ts. Every lookup of a name is a question of its own: two by the validation of
a hop, one by the client that connects. -/
namespace Octraban.SsrfGuard
open JavaScript AllowList

structure Ipv4Range where
  base : BitVec 32
  mask : BitVec 32

def makeRange (cidr : String) : Ipv4Range :=
  let (addr, mask) := match split cidr '/' with
    | addr :: bits :: _ =>
      (addr, if bits = "" then BitVec.allOnes 32
        else BitVec.allOnes 32 <<< shiftCount ((parseInt bits).bind fun bits => roundInt (32 - bits)))
    | _ => (cidr, BitVec.allOnes 32)
  { base := ipv4ToInt addr &&& mask, mask := mask }

def BLOCKED_IPV4_RANGES : List Ipv4Range :=
  ["0.0.0.0/8", "10.0.0.0/8", "100.64.0.0/10", "127.0.0.0/8", "169.254.0.0/16", "172.16.0.0/12", "192.0.0.0/24",
    "192.168.0.0/16", "198.18.0.0/15", "198.51.100.0/24", "203.0.113.0/24", "224.0.0.0/4", "240.0.0.0/4",
    "255.255.255.255/32"].map makeRange

def isBlockedIpv4 (ip : String) : Bool :=
  let n := ipv4ToInt ip
  BLOCKED_IPV4_RANGES.any fun r => n &&& r.mask = r.base

def toLowerCase (text : String) : String := String.ofList (text.toList.map Char.toLower)

/-- Removes a bracket on either side. -/
def unbracket (text : String) : String :=
  let text := match text.toList with
    | '[' :: rest => rest
    | whole => whole
  String.ofList (if text.getLast? = some ']' then text.dropLast else text)

def ipv4Mapped (addr : String) : Option String :=
  match addr.toList with
  | ':' :: ':' :: 'f' :: 'f' :: 'f' :: 'f' :: ':' :: rest =>
    let parts := rest.splitOn '.'
    if parts.length = 4 ∧ ∀ part ∈ parts, part ≠ [] ∧ part.all Char.isDigit then some (String.ofList rest) else none
  | _ => none

def isHex (c : Char) : Bool := (hexDigit c).isSome

def isLinkLocal : List Char → Bool
  | 'f' :: 'e' :: a :: b :: ':' :: _ => ['8', '9', 'a', 'b'].contains a && isHex b
  | _ => false

def isUniqueLocal : List Char → Bool
  | 'f' :: a :: b :: c :: ':' :: _ => ['c', 'd'].contains a && isHex b && isHex c
  | _ => false

def isBlockedIpv6 (ip : String) : Bool :=
  let addr := toLowerCase (unbracket (if ip.toList.contains '%' then "" else ip))
  if addr = "::" ∨ addr = "::1" then true
  else match ipv4Mapped addr with
    | some mapped => isBlockedIpv4 mapped
    | none => isLinkLocal addr.toList || isUniqueLocal addr.toList || addr = "fd00:ec2::254" ||
        ['f', 'f'].isPrefixOf addr.toList

/-- `net.isIPv4` -/
def isIPv4 (text : String) : Bool := (parseV4 text).isSome

def isZoneChar (c : Char) : Bool := c.isAlphanum || ['-', '.', ':'].contains c

/-- `net.isIPv6`, which lets a zone follow the address -/
def isIPv6 (text : String) : Bool :=
  match split text '%' with
  | [addr] => (parseV6 addr).isSome
  | [addr, zone] => (parseV6 addr).isSome && zone ≠ "" && zone.toList.all isZoneChar
  | _ => false

/-- A literal address needs no lookup. -/
def isIP (host : String) : Bool := isIPv4 host || isIPv6 host

def isBlockedIp (ip : String) : Bool :=
  if isIPv4 ip then isBlockedIpv4 ip
  else if isIPv6 ip then isBlockedIpv6 ip
  else false

def endsWith (text ending : String) : Bool := ending.toList.isSuffixOf text.toList

structure Url where
  protocol : String
  hostname : String

/-- The environment of the process and its URL parser: `resolve location base` is
`new URL(location, base).toString()`. -/
structure Platform where
  NETWORK_PROFILE : Option String
  NODE_ENV : Option String
  parse : String → Option Url
  resolve : String → String → Option String

structure Response where
  status : Nat
  location : Option String
  data : Value

/-- What the environment answers on one hop. `v4` and `v6` answer the validation, `lookup` is
what the client gets for the host when it connects, in the order it tries the addresses. -/
structure Hop where
  v4 : Option (List String)
  v6 : Option (List String)
  lookup : List String
  response : Option Response

structure Request where
  url : String
  address : String
  body : String
  headers : List (String × String)
  deriving DecidableEq

inductive Failure where
  | SsrfBlockedError (reason : String)
  | invalidUrl
  | requestFailed

def ALLOWED_PROTOCOLS : List String := ["https:"]

def HTTP_ALLOWED_PROFILES : List String := ["local", "devnet", "test"]

def MAX_REDIRECTS : Nat := 5

variable (platform : Platform)

def isHttpAllowed : Bool :=
  let profile := toLowerCase ((platform.NETWORK_PROFILE <|> platform.NODE_ENV).getD "")
  HTTP_ALLOWED_PROFILES.contains profile

def assertHostnameResolvesToPublicIp (hop : Hop) (hostname : String) : Except Failure Unit :=
  if isIP hostname then
    if isBlockedIp hostname then
      .error (.SsrfBlockedError ("IP address " ++ hostname ++ " is in a blocked range"))
    else .ok ()
  else if hostname = "localhost" || endsWith hostname ".local" || endsWith hostname ".internal" then
    .error (.SsrfBlockedError ("Hostname \"" ++ hostname ++ "\" is reserved for internal use"))
  else
    let results := hop.v4.getD [] ++ hop.v6.getD []
    if results.isEmpty then
      .error (.SsrfBlockedError ("Hostname \"" ++ hostname ++ "\" did not resolve to any IP address"))
    else match results.find? isBlockedIp with
      | some ip => .error (.SsrfBlockedError ("Hostname \"" ++ hostname ++ "\" resolves to blocked IP " ++ ip))
      | none => .ok ()

def assertSafeUrl (hop : Hop) (rawUrl : String) : Except Failure Unit :=
  match platform.parse rawUrl with
  | none => .error (.SsrfBlockedError ("Malformed URL: " ++ rawUrl))
  | some parsed =>
    let proto := parsed.protocol
    if proto = "http:" ∧ ¬ isHttpAllowed platform then
      .error (.SsrfBlockedError
        "Plain HTTP is not permitted for webhook destinations outside dev/local profiles")
    else if ¬ ALLOWED_PROTOCOLS.contains proto ∧ ¬ (proto = "http:" ∧ isHttpAllowed platform) then
      .error (.SsrfBlockedError ("Protocol \"" ++ proto ++ "\" is not allowed for webhook destinations"))
    else assertHostnameResolvesToPublicIp hop parsed.hostname

/-- The client connects to an address as it stands, also from between the brackets of a URL, and
looks every other host up. -/
def Hop.addresses (hop : Hop) (hostname : String) : List String :=
  if isIP hostname then [hostname]
  else if isIP (unbracket hostname) then [unbracket hostname]
  else hop.lookup

def connections (hop : Hop) (url : String) : List String :=
  (platform.parse url).elim [] fun parsed => hop.addresses parsed.hostname

/-- `client.post`: where it connects, and what comes back. -/
def post (hop : Hop) (url body : String) (headers : List (String × String)) : List Request × Option Response :=
  ((connections platform hop url).map fun address => ⟨url, address, body, headers⟩,
    if (connections platform hop url).isEmpty then none else hop.response)

/-- What the loop does with a response: the next URL, or an end. -/
def next (currentUrl : String) (response : Response) : String ⊕ Except Failure (Nat × Value) :=
  if 300 ≤ response.status ∧ response.status < 400 then
    match response.location with
    | none | some "" => .inr (.error (.SsrfBlockedError "Redirect response missing Location header"))
    | some location =>
      match platform.resolve location currentUrl with
      | some target => .inl target
      | none => .inr (.error .invalidUrl)
  else .inr (.ok (response.status, response.data))

/-- The loop of `safePost` with a number of hops left; the answers of the environment start
with those of the next hop. The requests made are returned beside the result. -/
def follow (body : String) (headers : List (String × String)) :
    Nat → (Nat → Hop) → String → List Request × Except Failure (Nat × Value)
  | 0, _, _ => ([], .error (.SsrfBlockedError
      ("Exceeded maximum redirect limit (" ++ toString MAX_REDIRECTS ++ ")")))
  | left + 1, answers, currentUrl =>
    match assertSafeUrl platform (answers 0) currentUrl with
    | .error failure => ([], .error failure)
    | .ok () =>
      match post platform (answers 0) currentUrl body headers with
      | (requests, none) => (requests, .error .requestFailed)
      | (requests, some response) =>
        match next platform currentUrl response with
        | .inr result => (requests, result)
        | .inl target =>
          let (later, result) := follow body headers left (fun hop => answers (hop + 1)) target
          (requests ++ later, result)

def safePost (answers : Nat → Hop) (url body : String) (headers : List (String × String)) :
    List Request × Except Failure (Nat × Value) :=
  follow platform body headers (MAX_REDIRECTS + 1) answers url

/-- No request goes to a blocked address. -/
def Unblocked (answers : Nat → Hop) (url body : String) (headers : List (String × String)) : Prop :=
  ∀ request ∈ (safePost platform answers url body headers).1, isBlockedIp request.address = false

def Follows (hop : Hop) (url target : String) : Prop :=
  assertSafeUrl platform hop url = .ok () ∧ connections platform hop url ≠ [] ∧
    ∃ response ∈ hop.response, next platform url response = .inl target

/-- Hop number `hop` of a chain of redirects that starts at `url` is for `current`. -/
inductive Reached (answers : Nat → Hop) (url : String) : Nat → String → Prop where
  | first : Reached answers url 0 url
  | redirect : Reached answers url hop current → Follows platform (answers hop) current target →
      Reached answers url (hop + 1) target

/-- The host is a name to the validation. -/
def IsName (url : String) : Prop := ∃ parsed ∈ platform.parse url, isIP parsed.hostname = false

/-- On every hop for a name that passes the validation, the client gets no blocked address. -/
def Steadfast (answers : Nat → Hop) (url : String) : Prop :=
  ∀ hop ≤ MAX_REDIRECTS, ∀ current, Reached platform answers url hop current → IsName platform current →
    assertSafeUrl platform (answers hop) current = .ok () →
      ∀ address ∈ connections platform (answers hop) current, isBlockedIp address = false

variable {platform : Platform} {hop : Hop} {answers : Nat → Hop} {url current target body address : String}
  {headers : List (String × String)}

theorem Reached.later (redirected : Follows platform (answers 0) url target)
    (reached : Reached platform (fun hop => answers (hop + 1)) target k current) :
    Reached platform answers url (k + 1) current := by
  induction reached with
  | first => exact .redirect .first redirected
  | redirect _ followed ih => exact .redirect ih followed

theorem Reached.cases_later (reached : Reached platform answers url (k + 1) current) :
    ∃ target, Follows platform (answers 0) url target ∧
      Reached platform (fun hop => answers (hop + 1)) target k current := by
  induction k generalizing current with
  | zero =>
    cases reached with
    | redirect before followed =>
      cases before
      exact ⟨current, followed, .first⟩
  | succ k ih =>
    cases reached with
    | redirect before followed =>
      obtain ⟨target, start, rest⟩ := ih before
      exact ⟨target, start, .redirect rest followed⟩

/-- The first request of a hop that passes, and those of the hops after it. -/
theorem mem_follow_succ {left : Nat} {request : Request} :
    request ∈ (follow platform body headers (left + 1) answers url).1 ↔
      assertSafeUrl platform (answers 0) url = .ok () ∧
        ((∃ address ∈ connections platform (answers 0) url, ⟨url, address, body, headers⟩ = request) ∨
          ∃ target, Follows platform (answers 0) url target ∧
            request ∈ (follow platform body headers left (fun hop => answers (hop + 1)) target).1) := by
  rw [follow]
  cases safe : assertSafeUrl platform (answers 0) url with
  | error failure => simp
  | ok checked =>
    by_cases none_connects : connections platform (answers 0) url = []
    · simp [post, none_connects, Follows]
    · cases answered : (answers 0).response with
      | none => simp [post, answered, none_connects, Follows]
      | some response =>
        cases onward : next platform url response with
        | inr result => simp [post, answered, none_connects, onward, Follows]
        | inl target => simp [post, answered, none_connects, onward, Follows, safe]

/-- The requests of a chain are those of its hops. -/
theorem mem_follow {left : Nat} {request : Request} :
    request ∈ (follow platform body headers left answers url).1 ↔
      ∃ hop < left, ∃ current, Reached platform answers url hop current ∧
        assertSafeUrl platform (answers hop) current = .ok () ∧
        ∃ address ∈ connections platform (answers hop) current, ⟨current, address, body, headers⟩ = request := by
  induction left generalizing answers url with
  | zero => simp [follow]
  | succ left ih =>
    rw [mem_follow_succ]
    constructor
    · rintro ⟨safe, here | ⟨target, followed, later⟩⟩
      · exact ⟨0, Nat.succ_pos left, url, .first, safe, here⟩
      · obtain ⟨hop, less, current, reached, rest⟩ := ih.mp later
        exact ⟨hop + 1, Nat.succ_lt_succ less, current, reached.later followed, rest⟩
    · rintro ⟨hop, less, current, reached, safe, connects⟩
      cases hop with
      | zero =>
        cases reached
        exact ⟨safe, .inl connects⟩
      | succ hop =>
        obtain ⟨target, followed, rest⟩ := reached.cases_later
        have later := ih.mpr ⟨hop, Nat.lt_of_succ_lt_succ less, current, rest, safe, connects⟩
        exact ⟨followed.1, .inr ⟨target, followed, later⟩⟩

theorem hostname_of_safe {parsed : Url} (found : platform.parse url = some parsed)
    (safe : assertSafeUrl platform hop url = .ok ()) :
    assertHostnameResolvesToPublicIp hop parsed.hostname = .ok () := by
  simp only [assertSafeUrl, found] at safe
  split at safe
  · contradiction
  · split at safe
    · contradiction
    · exact safe

/-- A literal address is connected to only as it was checked. -/
theorem literal_unblocked {parsed : Url} (found : platform.parse url = some parsed)
    (literal : isIP parsed.hostname = true) (safe : assertSafeUrl platform hop url = .ok ())
    (connects : address ∈ connections platform hop url) : isBlockedIp address = false := by
  have checked := hostname_of_safe found safe
  rw [connections, found, Option.elim_some, Hop.addresses, if_pos literal, List.mem_singleton] at connects
  subst connects
  rw [assertHostnameResolvesToPublicIp, if_pos literal] at checked
  by_contra blocked
  rw [if_pos (by simpa using blocked)] at checked
  contradiction

theorem unblocked_iff (answers : Nat → Hop) (url body : String) (headers : List (String × String)) :
    Unblocked platform answers url body headers ↔ Steadfast platform answers url := by
  constructor
  · intro unblocked hop few current reached _ safe address connects
    exact unblocked ⟨current, address, body, headers⟩
      (mem_follow.mpr ⟨hop, Nat.lt_succ_of_le few, current, reached, safe, address, connects, rfl⟩)
  · intro steadfast request made
    obtain ⟨hop, less, current, reached, safe, address, connects, rfl⟩ := mem_follow.mp made
    cases found : platform.parse current with
    | none =>
      rw [assertSafeUrl, found] at safe
      contradiction
    | some parsed =>
      cases literal : isIP parsed.hostname with
      | true => exact literal_unblocked found literal safe connects
      | false =>
        exact steadfast hop (Nat.le_of_lt_succ less) current reached ⟨parsed, found, literal⟩ safe address connects

def hooks : Platform where
  NETWORK_PROFILE := some "mainnet"
  NODE_ENV := some "production"
  parse := fun url => if url = "https://hooks.example/" then some ⟨"https:", "hooks.example"⟩ else none
  resolve := fun location _ => some location

/-- The name server answers the validation with a public address and the client with the
loopback one. -/
def rebinding : Nat → Hop := fun _ =>
  ⟨some ["93.184.216.34"], none, ["127.0.0.1"], some ⟨200, none, .null⟩⟩

theorem rebinding_blocked : ¬ ∀ (platform : Platform) (answers : Nat → Hop) (url body : String)
    (headers : List (String × String)), Unblocked platform answers url body headers := by
  intro claimed
  have unblocked := claimed hooks rebinding "https://hooks.example/" "{}" []
  have safe : assertSafeUrl hooks (rebinding 0) "https://hooks.example/" = .ok () := rfl
  have made := unblocked ⟨"https://hooks.example/", "127.0.0.1", "{}", []⟩
    (mem_follow.mpr ⟨0, Nat.succ_pos MAX_REDIRECTS, "https://hooks.example/", .first, safe, "127.0.0.1",
      by decide, rfl⟩)
  exact absurd made (by decide)

end Octraban.SsrfGuard
