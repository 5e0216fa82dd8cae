import Octraban.Core.FirstWrite
import Octraban.Core.JavaScript
import Octraban.Core.OrderedMap

/-! sandwich-detector.ts: swaps of a ledger that surround the swap of another account. -/
namespace Octraban.SandwichDetector
open JavaScript (Number roundRat parseFloat utf16 lastField_inj)

structure LedgerTx where
  hash : String
  position : ℤ
  sourceAccount : String
  contractAddress : Option String
  functionName : Option String
  humanReadable : Option String
  ledgerSequence : ℕ
  ledgerCloseTime : ℤ
  amountIn : Option String
  amountOut : Option String
  tokenIn : Option String
  tokenOut : Option String

inductive PatternType where
  | simple_sandwich
  | multi_hop_sandwich
  | cross_pool_sandwich
  | frontrun_backrun
  deriving DecidableEq

structure SandwichPattern where
  type : PatternType
  frontrunTx : String
  victimTx : String
  backrunTx : String
  attacker : String
  victim : String
  protocol : String
  confidence : ℤ
  profitEstimateUsd : Number
  victimLossUsd : Number
  victimLossPct : Number
  tokensInvolved : List String
  poolsInvolved : List String
  ledgerSeq : ℕ
  timestamp : ℤ
  hops : Option ℕ

/-- The case mappings of the language, over all of Unicode. -/
structure Platform where
  toLowerCase : String → String
  toUpperCase : String → String

def SWAP_KEYWORDS : List String := ["swap", "exchange", "trade", "buy", "sell", "convert"]

def includes (text part : String) : Bool := part.toList <:+: text.toList

/-- `filter(Boolean)` of texts that may be missing. -/
def present (texts : List (Option String)) : List String := texts.filterMap fun text => text.filter (· ≠ "")

section
variable (platform : Platform)

def isSwapTx (tx : LedgerTx) : Bool :=
  let fn := platform.toLowerCase (tx.functionName.getD "")
  let hr := platform.toLowerCase (tx.humanReadable.getD "")
  SWAP_KEYWORDS.any fun k => includes fn k || includes hr k

/-- What is not a digit or a point is taken out first. -/
def amountToNumber (s : Option String) : Number :=
  match parseFloat (String.ofList ((s.getD "").toList.filter fun c => c.isDigit || c = '.')) with
  | .nan => .finite 0
  | n => n

def priceUsd (token : Option String) : Number :=
  let t := platform.toUpperCase (token.getD "")
  if token.getD "" = "" then .finite 1
  else if includes t "XLM" then roundRat (12 / 100)
  else if includes t "USDC" || includes t "USDT" then .finite 1
  else if includes t "BTC" || includes t "WBTC" then .finite 65000
  else if includes t "ETH" || includes t "WETH" then .finite 3500
  else .finite 1

def estimateAmountUsd (amount token : Option String) : Number := (amountToNumber amount).mul (priceUsd platform token)

/-- The parameters of a score that it reads. -/
structure Evidence where
  sameAttacker : Bool
  samePool : Bool
  oppositeDirections : Bool
  positionGap : ℤ
  profitRatio : Number

def computeConfidence (params : Evidence) : ℤ :=
  if ¬ params.sameAttacker then 0
  else
    let pool := if params.samePool then 20 else 0
    let directions := if params.oppositeDirections then 15 else 0
    let gap :=
      if params.positionGap ≤ 2 then 20 else if params.positionGap ≤ 5 then 10
      else if params.positionGap > 10 then -10 else 0
    let profit := if (roundRat (1 / 1000)).lt params.profitRatio then 10 else 0
    let clear := if (roundRat (1 / 100)).lt params.profitRatio then 5 else 0
    max 0 (min 100 (30 + pool + directions + gap + profit + clear))

def ratio (profitUsd victimAmtUsd : Number) : Number :=
  if (Number.finite 0).lt victimAmtUsd then profitUsd.div victimAmtUsd else .finite 0

def lossPct (victimLossUsd victimAmtUsd : Number) : Number :=
  if (Number.finite 0).lt victimAmtUsd then (victimLossUsd.div victimAmtUsd).mul (.finite 100) else .finite 0

/-! ### One pool -/

def simplePattern (front victim back : LedgerTx) : SandwichPattern :=
  let posGap := back.position - front.position
  let frontAmtUsd := estimateAmountUsd platform front.amountIn front.tokenIn
  let victimAmtUsd := estimateAmountUsd platform victim.amountIn victim.tokenIn
  let backAmtUsd := estimateAmountUsd platform back.amountOut back.tokenOut
  let profitUsd := Number.max (.finite 0) (backAmtUsd.sub frontAmtUsd)
  let profitRatio := ratio profitUsd victimAmtUsd
  let victimLossUsd := (victimAmtUsd.mul (roundRat (5 / 1000))).mul
    ((Number.finite 1).add (profitRatio.mul (.finite 10)))
  { type := .simple_sandwich
    frontrunTx := front.hash
    victimTx := victim.hash
    backrunTx := back.hash
    attacker := front.sourceAccount
    victim := victim.sourceAccount
    protocol := front.contractAddress.getD ""
    confidence := computeConfidence
      { sameAttacker := true
        samePool := true
        oppositeDirections := front.tokenIn ≠ back.tokenIn ∨ front.tokenOut ≠ back.tokenOut
        positionGap := posGap
        profitRatio }
    profitEstimateUsd := profitUsd
    victimLossUsd
    victimLossPct := lossPct victimLossUsd victimAmtUsd
    tokensInvolved := Ordered.ofList (present [front.tokenIn, front.tokenOut, victim.tokenIn])
    poolsInvolved := present [front.contractAddress]
    ledgerSeq := front.ledgerSequence
    timestamp := front.ledgerCloseTime
    hops := none }

/-- The innermost loop; the first transaction of the attacker on the contract that is too far away ends it. -/
def backsOf (front victim : LedgerTx) : List LedgerTx → List SandwichPattern
  | [] => []
  | back :: rest =>
    if back.sourceAccount ≠ front.sourceAccount then backsOf front victim rest
    else if front.contractAddress.getD "" = "" ∨ front.contractAddress ≠ back.contractAddress then
      backsOf front victim rest
    else if 20 < back.position - front.position then []
    else if (simplePattern platform front victim back).confidence < 30 then backsOf front victim rest
    else simplePattern platform front victim back :: backsOf front victim rest

def victimsOf (front : LedgerTx) : List LedgerTx → List SandwichPattern
  | [] => []
  | victim :: rest =>
    (if victim.sourceAccount = front.sourceAccount then [] else backsOf platform front victim rest) ++
      victimsOf front rest

def frontsOf : List LedgerTx → List SandwichPattern
  | [] => []
  | front :: rest => victimsOf platform front rest ++ frontsOf rest

def detectSimpleSandwiches (txs : List LedgerTx) : List SandwichPattern :=
  frontsOf platform (txs.filter (isSwapTx platform))

/-! ### Several hops, several pools, pairs -/

def byAttacker (swaps : List LedgerTx) : OrderedMap String (List LedgerTx) :=
  swaps.foldl (fun groups tx => groups.update tx.sourceAccount [] (· ++ [tx])) .empty

def multiHopPattern (attacker : String) (front mainVictim mainBack : LedgerTx) (backChain : List LedgerTx) :
    Option SandwichPattern :=
  let hops := backChain.length
  let profitUsd := (estimateAmountUsd platform mainBack.amountOut mainBack.tokenOut).sub
    (estimateAmountUsd platform front.amountIn front.tokenIn)
  let victimAmtUsd := estimateAmountUsd platform mainVictim.amountIn mainVictim.tokenIn
  let victimLossUsd := Number.max (.finite 0) ((victimAmtUsd.mul (roundRat (8 / 1000))).mul (.finite hops))
  let confidence := computeConfidence
    { sameAttacker := true
      samePool := front.contractAddress = mainBack.contractAddress
      oppositeDirections := true
      positionGap := mainBack.position - front.position
      profitRatio := ratio profitUsd victimAmtUsd } + min 15 (hops * 5)
  if confidence < 35 then none
  else some
    { type := .multi_hop_sandwich
      frontrunTx := front.hash
      victimTx := mainVictim.hash
      backrunTx := mainBack.hash
      attacker
      victim := mainVictim.sourceAccount
      protocol := front.contractAddress.getD ""
      confidence := min 100 confidence
      profitEstimateUsd := Number.max (.finite 0) profitUsd
      victimLossUsd
      victimLossPct := lossPct victimLossUsd victimAmtUsd
      tokensInvolved := Ordered.ofList (present ([front, mainVictim, mainBack].flatMap fun t => [t.tokenIn, t.tokenOut]))
      poolsInvolved := Ordered.ofList (present ((front :: backChain).map LedgerTx.contractAddress))
      ledgerSeq := front.ledgerSequence
      timestamp := front.ledgerCloseTime
      hops := some hops }

def multiHops (swaps : List LedgerTx) (attacker : String) : List LedgerTx → List SandwichPattern
  | front :: next :: rest =>
    let victims := swaps.filter fun tx =>
      tx.sourceAccount ≠ attacker ∧ front.position < tx.position ∧ tx.position < next.position
    let lastVictim := (victims.getLast?.map LedgerTx.position).getD 0
    let backChain := (next :: rest).filter fun tx => lastVictim < tx.position
    let found := match victims, backChain with
      | mainVictim :: _, mainBack :: _ =>
        (multiHopPattern platform attacker front mainVictim mainBack backChain).toList
      | _, _ => []
    found ++ multiHops swaps attacker (next :: rest)
  | _ => []

def detectMultiHopSandwiches (txs : List LedgerTx) : List SandwichPattern :=
  let swaps := txs.filter (isSwapTx platform)
  (byAttacker swaps).entries.flatMap fun group => multiHops platform swaps group.1 group.2

/-- `[tx.tokenIn, tx.tokenOut].sort().join(':')`: a missing token comes last and is joined as nothing. -/
def tokenKey (tx : LedgerTx) : String :=
  match tx.tokenIn, tx.tokenOut with
  | some a, some b => if utf16 b < utf16 a then b ++ ":" ++ a else a ++ ":" ++ b
  | some a, none | none, some a => a ++ ":"
  | none, none => ":"

def crossPoolPattern (front victim back : LedgerTx) : Option SandwichPattern :=
  let victimAmtUsd := estimateAmountUsd platform victim.amountIn victim.tokenIn
  let profitUsd := (estimateAmountUsd platform back.amountOut back.tokenOut).sub
    (estimateAmountUsd platform front.amountIn front.tokenIn)
  let victimLossUsd := victimAmtUsd.mul (roundRat (7 / 1000))
  let confidence := computeConfidence
    { sameAttacker := true
      samePool := false
      oppositeDirections := true
      positionGap := back.position - front.position
      profitRatio := ratio profitUsd victimAmtUsd } + 10
  if confidence < 35 then none
  else some
    { type := .cross_pool_sandwich
      frontrunTx := front.hash
      victimTx := victim.hash
      backrunTx := back.hash
      attacker := front.sourceAccount
      victim := victim.sourceAccount
      protocol := (victim.contractAddress.or front.contractAddress).getD ""
      confidence := min 100 confidence
      profitEstimateUsd := Number.max (.finite 0) profitUsd
      victimLossUsd
      victimLossPct := lossPct victimLossUsd victimAmtUsd
      tokensInvolved := Ordered.ofList (present [front.tokenIn, front.tokenOut, victim.tokenIn])
      poolsInvolved := present [front.contractAddress, back.contractAddress]
      ledgerSeq := front.ledgerSequence
      timestamp := front.ledgerCloseTime
      hops := none }

def crossPools : List LedgerTx → List SandwichPattern
  | front :: victim :: back :: rest =>
    (if front.sourceAccount ≠ back.sourceAccount ∨ victim.sourceAccount = front.sourceAccount ∨
        front.contractAddress = back.contractAddress then []
      else (crossPoolPattern platform front victim back).toList) ++ crossPools (victim :: back :: rest)
  | _ => []

def detectCrossPoolSandwiches (txs : List LedgerTx) : List SandwichPattern :=
  let byToken := (txs.filter (isSwapTx platform)).foldl
    (fun groups tx =>
      if includes (tokenKey tx) "undefined" then groups else groups.update (tokenKey tx) [] (· ++ [tx]))
    (.empty : OrderedMap String (List LedgerTx))
  byToken.entries.flatMap fun group => crossPools platform group.2

def pairPattern (attacker : String) (front victim back : LedgerTx) : Option SandwichPattern :=
  let gap := back.position - front.position
  let victimAmtUsd := estimateAmountUsd platform victim.amountIn victim.tokenIn
  let profitUsd := (estimateAmountUsd platform back.amountOut back.tokenOut).sub
    (estimateAmountUsd platform front.amountIn front.tokenIn)
  let victimLossUsd := victimAmtUsd.mul (roundRat (4 / 1000))
  let confidence := computeConfidence
    { sameAttacker := true
      samePool := front.contractAddress = back.contractAddress
      oppositeDirections := front.tokenIn ≠ back.tokenIn
      positionGap := gap
      profitRatio := ratio profitUsd victimAmtUsd }
  if confidence < 25 then none
  else some
    { type := .frontrun_backrun
      frontrunTx := front.hash
      victimTx := victim.hash
      backrunTx := back.hash
      attacker
      victim := victim.sourceAccount
      protocol := front.contractAddress.getD ""
      confidence
      profitEstimateUsd := Number.max (.finite 0) profitUsd
      victimLossUsd
      victimLossPct := lossPct victimLossUsd victimAmtUsd
      tokensInvolved := present [front.tokenIn, front.tokenOut]
      poolsInvolved := Ordered.ofList (present [front.contractAddress, back.contractAddress])
      ledgerSeq := front.ledgerSequence
      timestamp := front.ledgerCloseTime
      hops := none }

def pairs (swaps : List LedgerTx) (attacker : String) : List LedgerTx → List SandwichPattern
  | front :: back :: rest =>
    let gap := back.position - front.position
    let victims := swaps.filter fun tx =>
      tx.sourceAccount ≠ attacker ∧ front.position < tx.position ∧ tx.position < back.position
    (if gap < 2 ∨ 15 < gap then []
      else match victims with
        | victim :: _ => (pairPattern platform attacker front victim back).toList
        | [] => []) ++ pairs swaps attacker (back :: rest)
  | _ => []

def detectFrontrunBackrunPairs (txs : List LedgerTx) : List SandwichPattern :=
  let swaps := txs.filter (isSwapTx platform)
  (byAttacker swaps).entries.flatMap fun group => pairs platform swaps group.1 group.2

/-! ### All of them -/

def SandwichPattern.key (p : SandwichPattern) : String := p.frontrunTx ++ ":" ++ p.victimTx ++ ":" ++ p.backrunTx

/-- Of the patterns with one key, the first stays. -/
def detectAllSandwiches (txs : List LedgerTx) : List SandwichPattern :=
  Sql.firsts SandwichPattern.key [] (detectSimpleSandwiches platform txs ++ (detectMultiHopSandwiches platform txs ++
    (detectCrossPoolSandwiches platform txs ++ detectFrontrunBackrunPairs platform txs)))

end

/-! ### What is reported -/

/-- Two swaps of one account on one contract, at most 20 positions apart, around the swap of another account. -/
structure Brackets (platform : Platform) (txs : List LedgerTx) (front victim back : LedgerTx) : Prop where
  members : front ∈ txs ∧ victim ∈ txs ∧ back ∈ txs
  swaps : isSwapTx platform front ∧ isSwapTx platform victim ∧ isSwapTx platform back
  order : front.position < victim.position ∧ victim.position < back.position
  accounts : back.sourceAccount = front.sourceAccount ∧ victim.sourceAccount ≠ front.sourceAccount
  contract : front.contractAddress.getD "" ≠ "" ∧ front.contractAddress = back.contractAddress
  near : back.position - front.position ≤ 20

/-- All three on the one contract. -/
def Sandwiches (platform : Platform) (txs : List LedgerTx) (front victim back : LedgerTx) : Prop :=
  Brackets platform txs front victim back ∧ victim.contractAddress = front.contractAddress

def SandwichPattern.hashes (p : SandwichPattern) : String × String × String := (p.frontrunTx, p.victimTx, p.backrunTx)

/-- The transactions of the simple patterns among all that are reported. -/
def reported (platform : Platform) (txs : List LedgerTx) : List (String × String × String) :=
  ((detectAllSandwiches platform txs).filter fun p => p.type = .simple_sandwich).map SandwichPattern.hashes

/-- The simple patterns are the sandwiches, each once. -/
def ExactlyReported (platform : Platform) (txs : List LedgerTx) : Prop :=
  (reported platform txs).Nodup ∧ ∀ hashes, hashes ∈ reported platform txs ↔
    ∃ front victim back, Sandwiches platform txs front victim back ∧ hashes = (front.hash, victim.hash, back.hash)

abbrev Sorted (txs : List LedgerTx) : Prop := txs.Pairwise fun a b => a.position < b.position

variable {platform : Platform} {txs rest others : List LedgerTx} {front victim back : LedgerTx} {p : SandwichPattern}

/-- The score of a simple pattern: the same account and the same pool outweigh the distance. -/
theorem confidence_of_samePool (params : Evidence) (attacker : params.sameAttacker = true)
    (pool : params.samePool = true) : 30 ≤ computeConfidence params := by
  rw [computeConfidence, attacker, pool]
  simp only [not_true_eq_false, if_false, if_true]
  split <;> split <;> split <;> (try split) <;> (try split) <;> (try split) <;> omega

theorem confidence_simplePattern (front victim back : LedgerTx) :
    30 ≤ (simplePattern platform front victim back).confidence := by
  unfold simplePattern
  dsimp only
  apply confidence_of_samePool <;> rfl

theorem mem_backsOf (sorted : Sorted rest) : p ∈ backsOf platform front victim rest ↔
    ∃ back ∈ rest, back.sourceAccount = front.sourceAccount ∧
      (front.contractAddress.getD "" ≠ "" ∧ front.contractAddress = back.contractAddress) ∧
      back.position - front.position ≤ 20 ∧ p = simplePattern platform front victim back := by
  induction rest with
  | nil => simp [backsOf]
  | cons back rest ih =>
    obtain ⟨first, sorted⟩ := List.pairwise_cons.mp sorted
    have passed (fails : ¬ (back.sourceAccount = front.sourceAccount ∧
        (front.contractAddress.getD "" ≠ "" ∧ front.contractAddress = back.contractAddress))) :
        p ∈ backsOf platform front victim rest ↔ ∃ other ∈ back :: rest, other.sourceAccount = front.sourceAccount ∧
          (front.contractAddress.getD "" ≠ "" ∧ front.contractAddress = other.contractAddress) ∧
          other.position - front.position ≤ 20 ∧ p = simplePattern platform front victim other := by
      rw [ih sorted]
      constructor
      · rintro ⟨other, member, found⟩
        exact ⟨other, List.mem_cons_of_mem _ member, found⟩
      · rintro ⟨other, member, account, contract, found⟩
        rcases List.mem_cons.mp member with rfl | member
        · exact absurd ⟨account, contract⟩ fails
        · exact ⟨other, member, account, contract, found⟩
    have strong : ¬ (simplePattern platform front victim back).confidence < 30 :=
      not_lt.mpr (confidence_simplePattern front victim back)
    rw [backsOf]
    split
    · rename_i other
      exact passed fun both => other both.1
    · rename_i account
      split
      · rename_i elsewhere
        exact passed fun both => elsewhere.elim both.2.1 fun differ => differ both.2.2
      · rename_i contract
        rw [not_or, not_not] at contract
        split
        · rename_i far
          -- the positions increase, so all that follow are too far away as well
          refine iff_of_false List.not_mem_nil ?_
          rintro ⟨other, member, -, -, near, -⟩
          rcases List.mem_cons.mp member with rfl | member
          · omega
          · have := first other member
            omega
        · rename_i near
          rw [List.mem_cons, ih sorted, List.exists_mem_cons_iff]
          refine or_congr_left ?_
          exact ⟨fun found => ⟨not_not.mp account, contract, not_lt.mp near, found⟩, fun found => found.2.2.2⟩

theorem mem_victimsOf (sorted : Sorted rest) : p ∈ victimsOf platform front rest ↔
    ∃ victim ∈ rest, victim.sourceAccount ≠ front.sourceAccount ∧ ∃ back ∈ rest, victim.position < back.position ∧
      back.sourceAccount = front.sourceAccount ∧
      (front.contractAddress.getD "" ≠ "" ∧ front.contractAddress = back.contractAddress) ∧
      back.position - front.position ≤ 20 ∧ p = simplePattern platform front victim back := by
  induction rest with
  | nil => simp [victimsOf]
  | cons victim rest ih =>
    obtain ⟨first, sorted⟩ := List.pairwise_cons.mp sorted
    rw [victimsOf, List.mem_append, ih sorted, List.exists_mem_cons_iff]
    refine or_congr ?_ ?_
    · by_cases same : victim.sourceAccount = front.sourceAccount
      · rw [if_pos same]
        exact iff_of_false List.not_mem_nil fun found => found.1 same
      · rw [if_neg same, mem_backsOf sorted]
        constructor
        · rintro ⟨back, member, found⟩
          exact ⟨same, back, List.mem_cons_of_mem _ member, first back member, found⟩
        · rintro ⟨-, back, member, later, found⟩
          rcases List.mem_cons.mp member with rfl | member
          · exact absurd later (lt_irrefl _)
          · exact ⟨back, member, found⟩
    · refine exists_congr fun other => and_congr_right fun member => and_congr_right fun _ => ?_
      constructor
      · rintro ⟨back, inside, found⟩
        exact ⟨back, List.mem_cons_of_mem _ inside, found⟩
      · rintro ⟨back, inside, later, found⟩
        rcases List.mem_cons.mp inside with rfl | inside
        · exact absurd (later.trans (first other member)) (lt_irrefl _)
        · exact ⟨back, inside, later, found⟩

theorem mem_frontsOf (sorted : Sorted rest) : p ∈ frontsOf platform rest ↔
    ∃ front ∈ rest, ∃ victim ∈ rest, ∃ back ∈ rest,
      (front.position < victim.position ∧ victim.position < back.position) ∧
      (back.sourceAccount = front.sourceAccount ∧ victim.sourceAccount ≠ front.sourceAccount) ∧
      (front.contractAddress.getD "" ≠ "" ∧ front.contractAddress = back.contractAddress) ∧
      back.position - front.position ≤ 20 ∧ p = simplePattern platform front victim back := by
  induction rest with
  | nil => simp [frontsOf]
  | cons front rest ih =>
    obtain ⟨first, sorted⟩ := List.pairwise_cons.mp sorted
    rw [frontsOf, List.mem_append, mem_victimsOf sorted, ih sorted, List.exists_mem_cons_iff]
    refine or_congr ?_ ?_
    · constructor
      · rintro ⟨victim, inside, other, back, member, later, account, contract, near, found⟩
        exact ⟨victim, List.mem_cons_of_mem _ inside, back, List.mem_cons_of_mem _ member,
          ⟨first victim inside, later⟩, ⟨account, other⟩, contract, near, found⟩
      · rintro ⟨victim, inside, back, member, ⟨before, later⟩, ⟨account, other⟩, contract, near, found⟩
        rcases List.mem_cons.mp inside with rfl | inside
        · exact absurd before (lt_irrefl _)
        · rcases List.mem_cons.mp member with rfl | member
          · exact absurd (before.trans later) (lt_irrefl _)
          · exact ⟨victim, inside, other, back, member, later, account, contract, near, found⟩
    · refine exists_congr fun other => and_congr_right fun among => ?_
      constructor
      · rintro ⟨victim, inside, back, member, found⟩
        exact ⟨victim, List.mem_cons_of_mem _ inside, back, List.mem_cons_of_mem _ member, found⟩
      · rintro ⟨victim, inside, back, member, ⟨before, later⟩, found⟩
        have after := first other among
        rcases List.mem_cons.mp inside with rfl | inside
        · exact absurd (after.trans before) (lt_irrefl _)
        · rcases List.mem_cons.mp member with rfl | member
          · exact absurd ((after.trans before).trans later) (lt_irrefl _)
          · exact ⟨victim, inside, back, member, ⟨before, later⟩, found⟩

/-- One pattern for each pair of swaps around another's, whatever contract that one is on. -/
theorem mem_detectSimpleSandwiches (sorted : Sorted txs) : p ∈ detectSimpleSandwiches platform txs ↔
    ∃ front victim back, Brackets platform txs front victim back ∧ p = simplePattern platform front victim back := by
  rw [detectSimpleSandwiches, mem_frontsOf (sorted.filter _)]
  constructor
  · rintro ⟨front, inFront, victim, inVictim, back, inBack, order, accounts, contract, near, found⟩
    rw [List.mem_filter] at inFront inVictim inBack
    exact ⟨front, victim, back, ⟨⟨inFront.1, inVictim.1, inBack.1⟩, ⟨inFront.2, inVictim.2, inBack.2⟩, order, accounts,
      contract, near⟩, found⟩
  · rintro ⟨front, victim, back, ⟨members, swaps, order, accounts, contract, near⟩, found⟩
    exact ⟨front, List.mem_filter.mpr ⟨members.1, swaps.1⟩, victim, List.mem_filter.mpr ⟨members.2.1, swaps.2.1⟩,
      back, List.mem_filter.mpr ⟨members.2.2, swaps.2.2⟩, order, accounts, contract, near, found⟩

theorem type_multiHopPattern {attacker : String} {chain : List LedgerTx}
    (made : multiHopPattern platform attacker front victim back chain = some p) : p.type = .multi_hop_sandwich := by
  unfold multiHopPattern at made
  dsimp only at made
  split at made
  · cases made
  · rw [← Option.some.inj made]

theorem type_multiHops {swaps : List LedgerTx} {attacker : String}
    (member : p ∈ multiHops platform swaps attacker rest) : p.type = .multi_hop_sandwich := by
  induction rest with
  | nil => cases member
  | cons front rest ih =>
    cases rest with
    | nil => cases member
    | cons next rest =>
      rw [multiHops] at member
      rcases List.mem_append.mp member with found | later
      · split at found
        · exact type_multiHopPattern (Option.mem_toList.mp found)
        · cases found
      · exact ih later

theorem type_crossPoolPattern (made : crossPoolPattern platform front victim back = some p) :
    p.type = .cross_pool_sandwich := by
  unfold crossPoolPattern at made
  dsimp only at made
  split at made
  · cases made
  · rw [← Option.some.inj made]

theorem type_crossPools (member : p ∈ crossPools platform rest) : p.type = .cross_pool_sandwich := by
  induction rest with
  | nil => cases member
  | cons front rest ih =>
    match rest, ih with
    | [], _ | [_], _ => cases member
    | victim :: back :: rest, ih =>
      rw [crossPools] at member
      rcases List.mem_append.mp member with found | later
      · split at found
        · cases found
        · exact type_crossPoolPattern (Option.mem_toList.mp found)
      · exact ih later

theorem type_pairPattern {attacker : String} (made : pairPattern platform attacker front victim back = some p) :
    p.type = .frontrun_backrun := by
  unfold pairPattern at made
  dsimp only at made
  split at made
  · cases made
  · rw [← Option.some.inj made]

theorem type_pairs {swaps : List LedgerTx} {attacker : String} (member : p ∈ pairs platform swaps attacker rest) :
    p.type = .frontrun_backrun := by
  induction rest with
  | nil => cases member
  | cons front rest ih =>
    cases rest with
    | nil => cases member
    | cons back rest =>
      rw [pairs] at member
      rcases List.mem_append.mp member with found | later
      · split at found
        · cases found
        · split at found
          · exact type_pairPattern (Option.mem_toList.mp found)
          · cases found
      · exact ih later

/-- The other detectors make patterns of other types. -/
theorem type_of_others (member : p ∈ detectMultiHopSandwiches platform txs ++
    (detectCrossPoolSandwiches platform txs ++ detectFrontrunBackrunPairs platform txs)) :
    p.type ≠ .simple_sandwich := by
  rcases List.mem_append.mp member with multi | rest
  · obtain ⟨group, -, inside⟩ := List.mem_flatMap.mp multi
    rw [type_multiHops inside]
    decide
  · rcases List.mem_append.mp rest with cross | pair
    · obtain ⟨group, -, inside⟩ := List.mem_flatMap.mp cross
      rw [type_crossPools inside]
      decide
    · obtain ⟨group, -, inside⟩ := List.mem_flatMap.mp pair
      rw [type_pairs inside]
      decide

/-- Hashes without a colon can be told from the key. -/
theorem hashes_of_key {p q : SandwichPattern}
    (plain : ':' ∉ p.victimTx.toList ∧ ':' ∉ q.victimTx.toList) (last : ':' ∉ p.backrunTx.toList ∧ ':' ∉ q.backrunTx.toList)
    (same : p.key = q.key) : p.hashes = q.hashes := by
  have texts := String.toList_inj.mpr same
  simp only [SandwichPattern.key, String.toList_append] at texts
  obtain ⟨front, backs⟩ := lastField_inj last texts
  obtain ⟨fronts, victims⟩ := lastField_inj plain front
  rw [SandwichPattern.hashes, SandwichPattern.hashes, String.toList_inj.mp fronts, String.toList_inj.mp victims,
    String.toList_inj.mp backs]

theorem nodup_reported (platform : Platform) (txs : List LedgerTx) : (reported platform txs).Nodup := by
  have all : ((detectAllSandwiches platform txs).map SandwichPattern.key).Nodup := Sql.nodup_keys_firsts
  have keys : (((detectAllSandwiches platform txs).filter fun p => p.type = .simple_sandwich).map
      SandwichPattern.key).Nodup := all.sublist (List.filter_sublist.map _)
  have spelled : SandwichPattern.key = (fun h : String × String × String => h.1 ++ ":" ++ h.2.1 ++ ":" ++ h.2.2) ∘
      SandwichPattern.hashes := rfl
  rw [spelled, ← List.map_map] at keys
  exact keys.of_map _

/-- The simple patterns come first, so no other pattern takes the place of one. -/
theorem mem_reported (sorted : Sorted txs) (plain : ∀ tx ∈ txs, ':' ∉ tx.hash.toList)
    {hashes : String × String × String} : hashes ∈ reported platform txs ↔
      ∃ front victim back, Brackets platform txs front victim back ∧ hashes = (front.hash, victim.hash, back.hash) := by
  constructor
  · intro member
    obtain ⟨p, kept, rfl⟩ := List.mem_map.mp member
    obtain ⟨among, simple⟩ := List.mem_filter.mp kept
    rcases List.mem_append.mp (Sql.mem_of_mem_firsts among) with found | other
    · obtain ⟨front, victim, back, brackets, rfl⟩ := (mem_detectSimpleSandwiches sorted).mp found
      exact ⟨front, victim, back, brackets, rfl⟩
    · exact absurd (of_decide_eq_true simple) (type_of_others other)
  · rintro ⟨front, victim, back, brackets, rfl⟩
    have found := (mem_detectSimpleSandwiches sorted).mpr ⟨front, victim, back, brackets, rfl⟩
    have known := Sql.mem_keys_firsts.mpr ⟨List.mem_map_of_mem (f := SandwichPattern.key) found, List.not_mem_nil⟩
    obtain ⟨q, kept, sameKey⟩ := List.mem_map.mp known
    obtain ⟨front', victim', back', brackets', rfl⟩ :=
      (mem_detectSimpleSandwiches sorted).mp (Sql.mem_of_mem_firsts kept)
    have same := hashes_of_key (p := simplePattern platform front' victim' back')
      (q := simplePattern platform front victim back)
      ⟨plain _ brackets'.members.2.1, plain _ brackets.members.2.1⟩
      ⟨plain _ brackets'.members.2.2, plain _ brackets.members.2.2⟩ sameKey
    refine List.mem_map.mpr ⟨_, List.mem_filter.mpr ⟨Sql.mem_firsts_append kept _, rfl⟩, same⟩

theorem contract_of_exactlyReported (sorted : Sorted txs) (distinct : (txs.map LedgerTx.hash).Nodup)
    (plain : ∀ tx ∈ txs, ':' ∉ tx.hash.toList) (exact : ExactlyReported platform txs)
    (brackets : Brackets platform txs front victim back) : victim.contractAddress = front.contractAddress := by
  have known := (mem_reported sorted plain).mpr ⟨front, victim, back, brackets, rfl⟩
  obtain ⟨front', victim', back', ⟨brackets', one⟩, same⟩ := (exact.2 _).mp known
  obtain ⟨fronts, victims, -⟩ : front.hash = front'.hash ∧ victim.hash = victim'.hash ∧ back.hash = back'.hash := by
    simpa only [Prod.mk.injEq] using same
  have told := List.inj_on_of_nodup_map distinct
  rw [told brackets.members.1 brackets'.members.1 fronts, told brackets.members.2.1 brackets'.members.2.1 victims]
  exact one

/-- The single-pool sandwiches are reported exactly if and only if every swap of another account that is
bracketed by two swaps of one account on one contract is on that contract, too. -/
theorem sandwiches_reported_iff (platform : Platform) (txs : List LedgerTx) (sorted : Sorted txs)
    (distinct : (txs.map LedgerTx.hash).Nodup) (plain : ∀ tx ∈ txs, ':' ∉ tx.hash.toList) :
    ExactlyReported platform txs ↔
      ∀ front victim back, Brackets platform txs front victim back → victim.contractAddress = front.contractAddress := by
  constructor
  · intro exact front victim back
    exact contract_of_exactlyReported sorted distinct plain exact
  · intro one
    refine ⟨nodup_reported platform txs, fun hashes => (mem_reported sorted plain).trans ?_⟩
    refine exists_congr fun front => exists_congr fun victim => exists_congr fun back => and_congr_left fun _ => ?_
    exact ⟨fun brackets => ⟨brackets, one front victim back brackets⟩, And.left⟩

/-! ### A victim on another contract -/

def asciiCase : Platform where
  toLowerCase text := String.ofList (text.toList.map Char.toLower)
  toUpperCase text := String.ofList (text.toList.map Char.toUpper)

def swapOf (hash : String) (position : ℤ) (sourceAccount contractAddress : String) : LedgerTx where
  hash := hash
  position := position
  sourceAccount := sourceAccount
  contractAddress := some contractAddress
  functionName := some "swap"
  humanReadable := none
  ledgerSequence := 7
  ledgerCloseTime := 0
  amountIn := none
  amountOut := none
  tokenIn := none
  tokenOut := none

theorem sandwiches_reported_onePool : ExactlyReported asciiCase
    [swapOf "a1" 0 "GBOT" "CAMM", swapOf "b2" 1 "GUSER" "CAMM", swapOf "c3" 2 "GBOT" "CAMM"] := by
  refine (sandwiches_reported_iff asciiCase _ (by decide) (by decide) (by decide)).mpr ?_
  intro front victim back brackets
  have one : ∀ tx ∈ [swapOf "a1" 0 "GBOT" "CAMM", swapOf "b2" 1 "GUSER" "CAMM", swapOf "c3" 2 "GBOT" "CAMM"],
      tx.contractAddress = some "CAMM" := by simp [swapOf]
  rw [one _ brackets.members.1, one _ brackets.members.2.1]

theorem foreign_victim_reported : ¬ ∀ (platform : Platform) (txs : List LedgerTx), Sorted txs →
    (txs.map LedgerTx.hash).Nodup → (∀ tx ∈ txs, ':' ∉ tx.hash.toList) → ExactlyReported platform txs := by
  intro claimed
  set txs := [swapOf "a1" 0 "GBOT" "CAMM", swapOf "b2" 1 "GUSER" "COTHER", swapOf "c3" 2 "GBOT" "CAMM"] with listed
  have sorted : Sorted txs := by decide
  have distinct : (txs.map LedgerTx.hash).Nodup := by decide
  have plain : ∀ tx ∈ txs, ':' ∉ tx.hash.toList := by decide
  have brackets : Brackets asciiCase txs (swapOf "a1" 0 "GBOT" "CAMM") (swapOf "b2" 1 "GUSER" "COTHER")
      (swapOf "c3" 2 "GBOT" "CAMM") :=
    ⟨by simp [listed], by decide, by decide, by decide, by decide, by decide⟩
  have same := contract_of_exactlyReported sorted distinct plain (claimed asciiCase txs sorted distinct plain) brackets
  exact absurd same (by decide)

end Octraban.SandwichDetector
