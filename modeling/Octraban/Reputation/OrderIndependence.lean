import Octraban.Core.BigInt
import Octraban.Reputation.Score

/-! A score and its proof do not depend on the order of the data just where items that tie have the
same text. -/
namespace Octraban.Scoring
open JavaScript Reputation StableText

variable (runtime : Runtime)

/-- The items of an address. -/
def itemsOf (address : String) (chainData : List ChainReputationData) : List ChainReputationData :=
  chainData.filter fun item => canonicalAddress item.address = canonicalAddress address

/-- Items of the address on chains that compare equal have the same text. -/
def TiesAgree (address : String) (chainData : List ChainReputationData) : Prop :=
  ∀ a ∈ itemsOf address chainData, ∀ b ∈ itemsOf address chainData,
    runtime.localeCompare a.chainId b.chainId = .eq → a.text = b.text

/-- Items that tie in the sort have the same text. -/
def AllTiesAgree (chainData : List ChainReputationData) : Prop :=
  ∀ a ∈ chainData, ∀ b ∈ chainData, compareItems runtime a b = .eq → a.text = b.text

/-- The score, its breakdown and its proof are the same. -/
def Agree (r s : ScoreResult) : Prop := r.score = s.score ∧ r.breakdown = s.breakdown ∧ r.proof = s.proof

/-- No two orders of the same items have one hash. -/
def CollisionFree (chainData : List ChainReputationData) : Prop :=
  ∀ xs ys : List ChainReputationData, xs.Subperm chainData → ys.Perm xs →
    deterministicHash runtime (xs.map ChainReputationData.text) = deterministicHash runtime (ys.map ChainReputationData.text) →
    arrayText (xs.map ChainReputationData.text) = arrayText (ys.map ChainReputationData.text)

variable {runtime} {address : String} {data permuted : List Json}

instance [Std.TransCmp runtime.localeCompare] : Std.TransCmp (compareItems runtime) :=
  have := Sorting.transCmp_on runtime.localeCompare ChainReputationData.chainId
  have := Sorting.transCmp_on runtime.localeCompare fun item : ChainReputationData =>
    canonicalAddress item.address
  inferInstanceAs (Std.TransCmp (compareLex
    (fun a b : ChainReputationData => runtime.localeCompare a.chainId b.chainId)
    fun a b => runtime.localeCompare (canonicalAddress a.address) (canonicalAddress b.address)))

/-! ### The items of an address -/

theorem foldl_group (c : String) (grouped : OrderedMap String (List ChainReputationData)) (items : List ChainReputationData) :
    ((items.foldl (group [c]) grouped).get c).getD [] =
      (grouped.get c).getD [] ++ items.filter fun item => canonicalAddress item.address = c := by
  induction items generalizing grouped with
  | nil => exact (List.append_nil _).symm
  | cons item rest ih =>
    rw [List.foldl_cons, ih, group]
    by_cases same : canonicalAddress item.address = c
    · rw [if_neg fun skipped => skipped.2 (List.mem_singleton.mpr same), OrderedMap.getD_update, if_pos same.symm,
        List.filter_cons_of_pos (by simpa using same), List.append_assoc]
      rfl
    · rw [if_pos ⟨List.cons_ne_nil _ _, fun known => same (List.mem_singleton.mp known)⟩,
        List.filter_cons_of_neg (by simpa using same)]

theorem get_groupByAddress (address : String) (chainData : List ChainReputationData) :
    ((groupByAddress runtime chainData [canonicalAddress address]).get (canonicalAddress address)).getD [] =
      itemsOf address (sortItems runtime chainData) := by
  have wanted : Ordered.ofList ([canonicalAddress address].map canonicalAddress) = [canonicalAddress address] := by
    rw [List.map_singleton, canonicalAddress_idem]
    rfl
  rw [groupByAddress]
  rw [wanted, foldl_group, itemsOf]
  rfl

theorem computeReputationScore_eq (address : String) (chainData : List ChainReputationData) :
    computeReputationScore runtime address chainData =
      buildScoreResult runtime (canonicalAddress address) (itemsOf address (sortItems runtime chainData)) [] := by
  rw [computeReputationScore]
  rw [get_groupByAddress]

theorem inputHash_computeReputationScore (address : String) (chainData : List ChainReputationData) :
    (computeReputationScore runtime address chainData).proof.inputHash = deterministicHash runtime
      ((sortItems runtime (itemsOf address (sortItems runtime chainData))).map ChainReputationData.text) := by
  rw [computeReputationScore_eq]
  rfl

/-! ### Orders that agree -/

theorem eq_of_text (collation : Std.TransCmp runtime.localeCompare) {x y : ChainReputationData}
    (left : x ∈ parseChainData runtime data) (right : y ∈ parseChainData runtime permuted) (same : x.text = y.text) : x = y := by
  obtain ⟨v, -, rfl⟩ := List.mem_map.mp left
  obtain ⟨w, -, rfl⟩ := List.mem_map.mp right
  exact reads_readChainData collation (some v) (some w) same

theorem perm_sortItems (runtime : Runtime) (perm : permuted.Perm data) :
    (sortItems runtime (parseChainData runtime permuted)).Perm (parseChainData runtime data) :=
  (List.mergeSort_perm _ _).trans (perm.map _)

/-- Where the ties among them agree, every order of the data leaves the chosen items in one order. -/
theorem filter_sortItems_eq (collation : Std.TransCmp runtime.localeCompare) (perm : permuted.Perm data)
    (chosen : ChainReputationData → Bool)
    (ties : ∀ a ∈ (parseChainData runtime data).filter chosen, ∀ b ∈ (parseChainData runtime data).filter chosen,
      compareItems runtime a b = .eq → a.text = b.text) :
    (sortItems runtime (parseChainData runtime permuted)).filter chosen =
      (sortItems runtime (parseChainData runtime data)).filter chosen := by
  have sorted (items : List ChainReputationData) : ((sortItems runtime items).filter chosen).Pairwise
      fun a b => (compareItems runtime a b).isLE = true := (Sorting.pairwise_isLE items).filter chosen
  have arranged := (perm_sortItems runtime perm).filter chosen
  have original := (perm_sortItems runtime (List.Perm.refl data)).filter chosen
  refine Sorting.eq_of_perm_of_pairwise (arranged.trans original.symm) (sorted _) (sorted _) ?_
  intro a left b right tied
  have known_a := arranged.mem_iff.mp left
  have known_b := arranged.mem_iff.mp right
  exact eq_of_text collation (List.mem_of_mem_filter known_a) (List.mem_of_mem_filter known_b) (ties a known_a b known_b tied)

theorem agree_of_tiesAgree (collation : Std.TransCmp runtime.localeCompare) (perm : permuted.Perm data)
    (ties : TiesAgree runtime address (parseChainData runtime data)) :
    Agree (computeReputationScore runtime address (parseChainData runtime permuted))
      (computeReputationScore runtime address (parseChainData runtime data)) := by
  have items : itemsOf address (sortItems runtime (parseChainData runtime permuted)) =
      itemsOf address (sortItems runtime (parseChainData runtime data)) :=
    filter_sortItems_eq collation perm _ fun a left b right tied => ties a left b right (Ordering.then_eq_eq.mp tied).1
  rw [computeReputationScore_eq, computeReputationScore_eq, items]
  exact ⟨rfl, rfl, rfl⟩

theorem createLeaderboard_eq (collation : Std.TransCmp runtime.localeCompare) (perm : permuted.Perm data)
    (ties : AllTiesAgree runtime (parseChainData runtime data)) (category : String) (limit : Number) :
    createLeaderboard runtime (parseChainData runtime permuted) category limit =
      createLeaderboard runtime (parseChainData runtime data) category limit := by
  have sorted := filter_sortItems_eq collation perm (fun _ => true) fun a left b right =>
    ties a (List.mem_of_mem_filter left) b (List.mem_of_mem_filter right)
  rw [List.filter_true, List.filter_true] at sorted
  rw [createLeaderboard, createLeaderboard, groupByAddress, groupByAddress, sorted]

/-! ### Orders that a proof tells apart -/

/-- What ties with an item keeps the order of the data in the input of the proof. -/
theorem tied_of_input [Std.TransCmp runtime.localeCompare] (a : ChainReputationData) (items : List ChainReputationData) :
    (sortItems runtime (itemsOf address (sortItems runtime items))).filter (fun x => compareItems runtime x a = .eq) =
      itemsOf address (items.filter fun x => compareItems runtime x a = .eq) := by
  rw [sortItems, Sorting.filter_tied, itemsOf, List.filter_comm, sortItems, Sorting.filter_tied]
  rfl

theorem exists_perm_cons_cons {A : Type} {a b : A} {items : List A} (left : a ∈ items) (right : b ∈ items) (other : a ≠ b) :
    ∃ rest, items.Perm (a :: b :: rest) := by
  classical
  have later : b ∈ items.erase a := (List.mem_erase_of_ne other.symm).mpr right
  exact ⟨(items.erase a).erase b, (List.perm_cons_erase left).trans ((List.perm_cons_erase later).cons a)⟩

theorem eq_of_texts (collation : Std.TransCmp runtime.localeCompare) {xs ys : List ChainReputationData}
    (left : ∀ x ∈ xs, x ∈ parseChainData runtime data) (right : ∀ y ∈ ys, y ∈ parseChainData runtime data)
    (same : xs.map ChainReputationData.text = ys.map ChainReputationData.text) : xs = ys := by
  induction xs generalizing ys with
  | nil => exact (List.map_eq_nil_iff.mp same.symm).symm
  | cons x xs ih =>
    obtain ⟨y, rest, rfl, first, others⟩ := List.map_eq_cons_iff.mp same.symm
    have head := eq_of_text collation (left x List.mem_cons_self) (right y List.mem_cons_self) first.symm
    have tail := ih (fun x member => left x (List.mem_cons_of_mem _ member))
      (fun y member => right y (List.mem_cons_of_mem _ member)) others.symm
    rw [head, tail]

/-- Two orders of the data with one proof have one input. -/
theorem input_eq (collation : Std.TransCmp runtime.localeCompare) (collisionFree : CollisionFree runtime (parseChainData runtime data))
    {left right : List Json} (perm_left : left.Perm data) (perm_right : right.Perm data)
    (same : (computeReputationScore runtime address (parseChainData runtime left)).proof =
      (computeReputationScore runtime address (parseChainData runtime right)).proof) :
    sortItems runtime (itemsOf address (sortItems runtime (parseChainData runtime left))) =
      sortItems runtime (itemsOf address (sortItems runtime (parseChainData runtime right))) := by
  have arranged (values : List Json) (perm : values.Perm data) :
      (sortItems runtime (itemsOf address (sortItems runtime (parseChainData runtime values)))).Perm
        (itemsOf address (parseChainData runtime data)) :=
    (List.mergeSort_perm _ _).trans ((perm_sortItems runtime perm).filter _)
  have inside (values : List Json) (perm : values.Perm data) :
      ∀ x ∈ sortItems runtime (itemsOf address (sortItems runtime (parseChainData runtime values))),
        x ∈ parseChainData runtime data :=
    fun x member => List.mem_of_mem_filter ((arranged values perm).mem_iff.mp member)
  have hashes := congrArg ReputationProof.inputHash same
  rw [inputHash_computeReputationScore, inputHash_computeReputationScore] at hashes
  have arrays := collisionFree _ _ ((arranged _ perm_left).subperm.trans List.filter_sublist.subperm)
    ((arranged _ perm_right).trans (arranged _ perm_left).symm) hashes
  have texts {items : List ChainReputationData} (read : ∀ x ∈ items, x ∈ parseChainData runtime data) :
      ∀ t ∈ items.map ChainReputationData.text, IsText runtime.numerals (keyBefore runtime) t := by
    intro t listed
    obtain ⟨x, member, rfl⟩ := List.mem_map.mp listed
    obtain ⟨v, -, rfl⟩ := List.mem_map.mp (read x member)
    exact ⟨some v, rfl⟩
  exact eq_of_texts collation (inside _ perm_left) (inside _ perm_right)
    (arrayText_inj (texts (inside _ perm_left)) (texts (inside _ perm_right)) arrays)

/-- Two items of the address that tie have the same text, if swapping them leaves the proof as it was. -/
theorem tiesAgree_of_agree (collation : Std.TransCmp runtime.localeCompare)
    (collisionFree : CollisionFree runtime (parseChainData runtime data))
    (agree : ∀ permuted, permuted.Perm data → Agree (computeReputationScore runtime address (parseChainData runtime permuted))
      (computeReputationScore runtime address (parseChainData runtime data))) :
    TiesAgree runtime address (parseChainData runtime data) := by
  intro a left b right tied
  obtain ⟨known_a, address_a⟩ := List.mem_filter.mp left
  obtain ⟨known_b, address_b⟩ := List.mem_filter.mp right
  obtain ⟨v, value_a, rfl⟩ := List.mem_map.mp known_a
  obtain ⟨w, value_b, rfl⟩ := List.mem_map.mp known_b
  by_cases same : v = w
  · rw [same]
  obtain ⟨rest, perm⟩ := exists_perm_cons_cons value_a value_b same
  have swapped : (w :: v :: rest).Perm data := (List.Perm.swap v w rest).trans perm.symm
  have proofs := (agree _ perm.symm).2.2.trans (agree _ swapped).2.2.symm
  have inputs := congrArg (List.filter fun x => compareItems runtime x (readChainData runtime (some v)) = .eq)
    (input_eq collation collisionFree perm.symm swapped proofs)
  rw [tied_of_input, tied_of_input] at inputs
  have tied_a : compareItems runtime (readChainData runtime (some v)) (readChainData runtime (some v)) = .eq :=
    Std.ReflCmp.compare_self
  have tied_b : compareItems runtime (readChainData runtime (some w)) (readChainData runtime (some v)) = .eq := by
    refine Ordering.then_eq_eq.mpr ⟨Std.OrientedCmp.eq_symm tied, ?_⟩
    rw [of_decide_eq_true address_a, of_decide_eq_true address_b]
    exact Std.ReflCmp.compare_self
  rw [parseChainData, parseChainData, List.map_cons, List.map_cons, List.map_cons, List.map_cons] at inputs
  simp only [List.filter_cons, tied_a, tied_b, itemsOf, address_a, address_b, if_true, decide_true] at inputs
  exact congrArg ChainReputationData.text (List.cons.inj inputs).1

/-- Every order of the data gives an address one score, breakdown and proof just where its ties
agree, and one leaderboard where all ties do. -/
theorem order_independent_iff (runtime : Runtime) (collation : Std.TransCmp runtime.localeCompare) (data : List Json)
    (collisionFree : CollisionFree runtime (parseChainData runtime data)) :
    (∀ address, (∀ permuted, permuted.Perm data →
        Agree (computeReputationScore runtime address (parseChainData runtime permuted))
          (computeReputationScore runtime address (parseChainData runtime data))) ↔
      TiesAgree runtime address (parseChainData runtime data)) ∧
    (AllTiesAgree runtime (parseChainData runtime data) → ∀ permuted, permuted.Perm data → ∀ category limit,
      createLeaderboard runtime (parseChainData runtime permuted) category limit =
        createLeaderboard runtime (parseChainData runtime data) category limit) := by
  refine ⟨fun address => ⟨tiesAgree_of_agree collation collisionFree, fun ties permuted perm => ?_⟩, ?_⟩
  · exact agree_of_tiesAgree collation perm ties
  · exact fun ties permuted perm category limit => createLeaderboard_eq collation perm ties category limit

/-! ### Two items of one account -/

/-- A rational number as a fraction, an integer without the denominator. -/
def fraction (x : ℚ) : List Char :=
  (if x.num < 0 then ['-'] else []) ++ decimal x.num.natAbs ++ if x.den = 1 then [] else '/' :: decimal x.den

theorem signed_inj {m n : Int} (same : (if m < 0 then ['-'] else []) ++ decimal m.natAbs =
    (if n < 0 then ['-'] else []) ++ decimal n.natAbs) : m = n := by
  have unsigned (a : Nat) : '-' ∉ decimal a := notMem_decimal rfl a
  by_cases left : m < 0 <;> by_cases right : n < 0
  · rw [if_pos left, if_pos right] at same
    have := decimal_inj (List.append_cancel_left same)
    omega
  · rw [if_pos left, if_neg right, List.nil_append] at same
    exact absurd (same ▸ List.mem_cons_self) (unsigned n.natAbs)
  · rw [if_neg left, if_pos right, List.nil_append] at same
    exact absurd (same.symm ▸ List.mem_cons_self) (unsigned m.natAbs)
  · rw [if_neg left, if_neg right, List.nil_append, List.nil_append] at same
    have := decimal_inj same
    omega

theorem fraction_chars {x : ℚ} {c : Char} (member : c ∈ fraction x) : c.isDigit = true ∨ c = '-' ∨ c = '/' := by
  rw [fraction, List.mem_append, List.mem_append] at member
  rcases member with (sign | digit) | rest
  · split at sign
    · exact .inr (.inl (List.mem_singleton.mp sign))
    · cases sign
  · exact .inl (isDigit_of_mem_decimal digit)
  · split at rest
    · cases rest
    · rcases List.mem_cons.mp rest with slash | digit
      · exact .inr (.inr slash)
      · exact .inl (isDigit_of_mem_decimal digit)

theorem fraction_inj {x y : ℚ} (same : fraction x = fraction y) : x = y := by
  have whole (x : ℚ) : ∀ c ∈ (if x.num < 0 then ['-'] else []) ++ decimal x.num.natAbs, (c != '/') = true := by
    intro c member
    rcases List.mem_append.mp member with sign | digit
    · split at sign
      · rw [List.mem_singleton.mp sign]
        rfl
      · cases sign
    · have digits := isDigit_of_mem_decimal digit
      rw [bne_iff_ne]
      rintro rfl
      cases digits
  have parts (x : ℚ) : (fraction x).span (· != '/') =
      ((if x.num < 0 then ['-'] else []) ++ decimal x.num.natAbs, if x.den = 1 then [] else '/' :: decimal x.den) := by
    rw [List.span_eq_takeWhile_dropWhile, fraction, List.takeWhile_append_of_pos (whole x), List.dropWhile_append_of_pos (whole x)]
    by_cases one : x.den = 1
    · rw [if_pos one, List.takeWhile_nil, List.dropWhile_nil, List.append_nil]
    · rw [if_neg one, List.takeWhile_cons_of_neg (by decide), List.dropWhile_cons_of_neg (by decide), List.append_nil]
  have pairs := (parts x).symm.trans ((congrArg _ same).trans (parts y))
  obtain ⟨signed, rest⟩ := Prod.mk.inj pairs
  have denominators : x.den = y.den := by
    split at rest <;> split at rest
    · omega
    · cases rest
    · cases rest
    · exact decimal_inj (List.cons.inj rest).2
  exact Rat.ext (signed_inj signed) denominators

def fractions : Numerals where
  numeral := fraction
  injective _ _ := fraction_inj
  starts x := by
    obtain ⟨digit, rest, spelled⟩ := List.exists_cons_of_ne_nil (decimal_ne_nil x.num.natAbs)
    have first : digit.isDigit = true := isDigit_of_mem_decimal (spelled ▸ List.mem_cons_self)
    rw [fraction, spelled]
    split
    · exact ⟨'-', _, rfl, .inr rfl⟩
    · exact ⟨digit, _, rfl, .inl first⟩
  bare x c member := by
    rcases fraction_chars member with digit | rfl | rfl
    · refine ⟨?_, ?_, ?_⟩ <;> rintro rfl <;> cases digit
    · decide
    · decide

def oneRuntime : Runtime where
  numerals := fractions
  localeCompare := compare
  parseDate _ := .nan
  sha256 text := text

def activityOn (chainId : String) (transactions : ℚ) : Json :=
  .object [("chainId", some (.text chainId)), ("address", some (.text "GA")), ("transactionCount", some (.number transactions))]

theorem collation_one : Std.TransCmp oneRuntime.localeCompare := inferInstanceAs (Std.TransOrd String)

theorem collisionFree_one (items : List ChainReputationData) : CollisionFree oneRuntime items := by
  intro xs ys _ _ same
  exact String.ofList_inj.mp same

/-- Items of an account on two chains never tie. -/
theorem two_chains : ∀ a ∈ parseChainData oneRuntime [activityOn "stellar" 1, activityOn "ethereum" 2],
    ∀ b ∈ parseChainData oneRuntime [activityOn "stellar" 1, activityOn "ethereum" 2],
    oneRuntime.localeCompare a.chainId b.chainId = .eq → a.text = b.text := by
  have apart {s t : String} (other : s ≠ t) : compare s t ≠ .eq := fun same => other (Std.LawfulEqOrd.eq_of_compare same)
  intro a left b right tied
  rcases List.mem_pair.mp left with rfl | rfl <;> rcases List.mem_pair.mp right with rfl | rfl
  · rfl
  · exact absurd tied (apart (by decide))
  · exact absurd tied (apart (by decide))
  · rfl

theorem two_chains_agree :
    (∀ permuted, permuted.Perm [activityOn "stellar" 1, activityOn "ethereum" 2] →
      Agree (computeReputationScore oneRuntime "GA" (parseChainData oneRuntime permuted))
        (computeReputationScore oneRuntime "GA" (parseChainData oneRuntime
          [activityOn "stellar" 1, activityOn "ethereum" 2]))) ∧
    ∀ permuted, permuted.Perm [activityOn "stellar" 1, activityOn "ethereum" 2] → ∀ category limit,
      createLeaderboard oneRuntime (parseChainData oneRuntime permuted) category limit =
        createLeaderboard oneRuntime (parseChainData oneRuntime [activityOn "stellar" 1, activityOn "ethereum" 2])
          category limit := by
  obtain ⟨scores, leaderboards⟩ := order_independent_iff oneRuntime collation_one
    [activityOn "stellar" 1, activityOn "ethereum" 2] (collisionFree_one _)
  constructor
  · refine (scores "GA").mpr fun a left b right tied => ?_
    exact two_chains a (List.mem_of_mem_filter left) b (List.mem_of_mem_filter right) tied
  · exact leaderboards fun a left b right tied => two_chains a left b right (Ordering.then_eq_eq.mp tied).1

/-- Swapping two items of an account on one chain changes the input hash. -/
theorem swapped_items_differ : ¬ ∀ (address : String) (data permuted : List Json), permuted.Perm data →
    Agree (computeReputationScore oneRuntime address (parseChainData oneRuntime permuted))
      (computeReputationScore oneRuntime address (parseChainData oneRuntime data)) ∧
    ∀ category limit, createLeaderboard oneRuntime (parseChainData oneRuntime permuted) category limit =
      createLeaderboard oneRuntime (parseChainData oneRuntime data) category limit := by
  intro claimed
  have ties := tiesAgree_of_agree collation_one (collisionFree_one _) fun permuted perm =>
    (claimed "GA" [activityOn "stellar" 1, activityOn "stellar" 2] permuted perm).1
  have listed (transactions : ℚ) (member : transactions ∈ [1, 2]) : readChainData oneRuntime (some (activityOn "stellar" transactions)) ∈
      itemsOf "GA" (parseChainData oneRuntime [activityOn "stellar" 1, activityOn "stellar" 2]) :=
    List.mem_filter.mpr ⟨List.mem_map.mpr ⟨_, List.mem_map_of_mem member, rfl⟩, decide_eq_true rfl⟩
  have chains : compare "stellar" "stellar" = .eq := Std.ReflCmp.compare_self
  have texts := ties _ (listed 1 (by simp)) _ (listed 2 (by simp)) chains
  have counts := reads_field collation_one "transactionCount" (some (activityOn "stellar" 1)) (some (activityOn "stellar" 2)) texts
  cases counts

end Octraban.Scoring
