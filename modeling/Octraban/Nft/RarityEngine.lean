import Octraban.Core.Doubles
import Octraban.Core.OrderedMap
import Octraban.Core.Partial
import Octraban.Core.StableText
import Octraban.Core.Upsert

/-! nft-rarity-engine.ts: how rare the items of a collection and their traits are. -/
namespace Octraban.NftRarity
open JavaScript StableText

structure NftItem where
  id : String
  collectionId : String
  tokenId : String
  metadata : Option Json
  rarityScore : Option Number
  rarityRank : Option Nat

/-- A row beside its key of collection, type and value. -/
structure NftTrait where
  count : Nat
  rarityScore : Option Number
  rarityTier : Option String

/-- The collection, the type and the value. -/
abbrev TraitKey := String × String × String

abbrev TraitTable := Sql.Table TraitKey NftTrait

abbrev TraitRow := Sigma fun _ : TraitKey => NftTrait

structure Database where
  nftCollection : List String
  nftItem : List NftItem
  nftTrait : TraitTable
  ids : (nftItem.map NftItem.id).Nodup
  tokens : (nftItem.map fun item => (item.collectionId, item.tokenId)).Nodup

@[ext]
structure Attribute where
  trait_type : String
  value : String
  deriving DecidableEq

structure TraitInfo where
  traitType : String
  value : String
  rarityScore : Number
  occurrence : Number
  rarityTier : String

structure ItemRarityResult where
  tokenId : String
  rarityScore : Number
  rarityRank : Nat
  rarityTier : String
  percentile : Number
  traitBreakdown : List TraitInfo

def TRAIT_RARITY_TIERS : List (String × ℚ) :=
  [("mythic", 200), ("legendary", 50), ("epic", 10), ("rare", 3), ("uncommon", 1), ("common", 0)]

def classifyTier (rarityScore : Number) : String :=
  ((TRAIT_RARITY_TIERS.find? fun tier => (Number.finite tier.2).le rarityScore).map Prod.fst).getD "common"

section
variable (numeral : ℚ → List Char)

mutual

/-- `String(value)`, where `numeral` is that of a number. -/
def string : Json → List Char
  | .null => "null".toList
  | .boolean value => if value then "true".toList else "false".toList
  | .number x => numeral x
  | .text content => content.toList
  | .array items => commas (strings items)
  | .object _ => "[object Object]".toList

def strings : List Json → List (List Char)
  | [] => []
  | .null :: rest => [] :: strings rest
  | item :: rest => string item :: strings rest

end

def truthy : Json → Bool
  | .null => false
  | .boolean value => value
  | .number x => x ≠ 0
  | .text content => content ≠ ""
  | .array _ | .object _ => true

def isNull : Json → Bool
  | .null => true
  | _ => false

/-- An entry with a type and a value. -/
def attributeOf (entry : Json) : Option Attribute :=
  match get "trait_type" (some entry), get "value" (some entry) with
  | some trait_type, some value =>
    if truthy trait_type ∧ ¬ isNull value then
      some { trait_type := String.ofList (string numeral trait_type), value := String.ofList (string numeral value) }
    else none
  | _, _ => none

/-- None where an entry is null, which has no fields. -/
def extractAttributes (metadata : Option Json) : Option (List Attribute) :=
  match get "attributes" metadata with
  | some (.array entries) => if entries.any isNull then none else some (entries.filterMap (attributeOf numeral))
  | _ => some []

/-- An item with its attributes. -/
abbrev Carrier := NftItem × List Attribute

def carry (item : NftItem) : Option Carrier := (extractAttributes numeral item.metadata).map fun attrs => (item, attrs)

def keyOf (attr : Attribute) : List Char := attr.trait_type.toList ++ ':' :: ':' :: attr.value.toList

def traitCounts (carriers : List Carrier) : OrderedMap (List Char) Nat :=
  (carriers.flatMap Prod.snd).foldl (fun m attr => m.update (keyOf attr) 0 (· + 1)) OrderedMap.empty

def traitRarity (totalSupply count : Nat) : Number := (Number.finite totalSupply).div (.finite count)

/-- A text up to its first two colons, and what follows them. -/
def cut : List Char → List Char × List Char
  | [] => ([], [])
  | ':' :: ':' :: rest => ([], rest)
  | c :: rest => (c :: (cut rest).1, (cut rest).2)

/-- `const [traitType, traitValue] = key.split('::')` -/
def splitKey (key : List Char) : String × String := (String.ofList (cut key).1, String.ofList (cut (cut key).2).1)

def traitUpdate (totalSupply count : Nat) : NftTrait where
  count := count
  rarityScore := some (traitRarity totalSupply count)
  rarityTier := some (classifyTier (traitRarity totalSupply count))

def upsertTraits (collectionId : String) (totalSupply : Nat) (counts : List (List Char × Nat))
    (table : TraitTable) : TraitTable :=
  counts.foldl (fun t entry =>
    t.upsert (collectionId, splitKey entry.1) (traitUpdate totalSupply entry.2) fun _ => traitUpdate totalSupply entry.2) table

def scoreOf (totalSupply : Nat) (counts : OrderedMap (List Char) Nat) (attrs : List Attribute) : Number :=
  if attrs = [] then .finite 1
  else
    attrs.foldl (fun score attr => score.add (((counts.get (keyOf attr)).map (traitRarity totalSupply)).getD (.finite 1)))
      (.finite 0)

/-- The order of `b.score - a.score`, where NaN is a tie. -/
def higherFirst (a b : String × Number) : Bool := b.2.sub a.2 = .nan ∨ (b.2.sub a.2).le (.finite 0)

def itemScores (totalSupply : Nat) (counts : OrderedMap (List Char) Nat) (carriers : List Carrier) : List (String × Number) :=
  (carriers.map fun carrier => (carrier.1.id, scoreOf totalSupply counts carrier.2)).mergeSort higherFirst

/-- An id with its score, and where it stands. -/
abbrev Place := (String × Number) × Nat

/-- One update of an item by its id. -/
def place (scored : Place) (item : NftItem) : NftItem :=
  if item.id = scored.1.1 then { item with rarityScore := some scored.1.2, rarityRank := some (scored.2 + 1) } else item

def persist (scores : List (String × Number)) (items : List NftItem) : List NftItem :=
  scores.zipIdx.foldl (fun items scored => items.map (place scored)) items

theorem id_place (scored : Place) (item : NftItem) : (place scored item).id = item.id := by
  rw [place]
  split <;> rfl

theorem token_place (scored : Place) (item : NftItem) :
    ((place scored item).collectionId, (place scored item).tokenId) = (item.collectionId, item.tokenId) := by
  rw [place]
  split <;> rfl

/-- What no update changes is as it was. -/
theorem map_persist {A : Type*} {f : NftItem → A} (kept : ∀ scored item, f (place scored item) = f item)
    (scores : List (String × Number)) (items : List NftItem) : (persist scores items).map f = items.map f := by
  rw [persist]
  induction scores.zipIdx generalizing items with
  | nil => rfl
  | cons scored rest ih =>
    rw [List.foldl_cons, ih, List.map_map]
    exact List.map_congr_left fun item _ => kept scored item

/-- None where it throws. -/
def computeCollectionRarity (collectionId : String) (db : Database) : Option Database :=
  let items := db.nftItem.filter fun item => item.collectionId = collectionId
  if collectionId ∈ db.nftCollection ∧ items ≠ [] then
    (items.mapM (carry numeral)).map fun carriers =>
      let counts := traitCounts carriers
      let scores := itemScores items.length counts carriers
      { db with
        nftItem := persist scores db.nftItem
        nftTrait := upsertTraits collectionId items.length counts.entries db.nftTrait
        ids := by
          rw [map_persist id_place]
          exact db.ids
        tokens := by
          rw [map_persist token_place]
          exact db.tokens }
  else some db

def traitInfo (totalItems : Nat) (traitMap : OrderedMap (List Char) NftTrait) (attr : Attribute) : TraitInfo :=
  let trait := traitMap.get (keyOf attr)
  { traitType := attr.trait_type
    value := attr.value
    rarityScore := (trait.bind NftTrait.rarityScore).getD (.finite 1)
    occurrence := (trait.map fun t => (Number.finite t.count).div (.finite totalItems)).getD (.finite 1)
    rarityTier := (trait.bind NftTrait.rarityTier).getD "common" }

/-- The rows of the types, by their keys. -/
def traitMapOf (collectionId : String) (types : List String) (table : TraitTable) :
    OrderedMap (List Char) NftTrait :=
  (table.entries.filter fun row => row.1.1 = collectionId ∧ row.1.2.1 ∈ types).foldl
    (fun m row => m.set (keyOf ⟨row.1.2.1, row.1.2.2⟩) row.2) OrderedMap.empty

/-- No result where it throws. -/
def getItemRarityDetail (collectionId tokenId : String) (db : Database) : Option (Option ItemRarityResult) :=
  match db.nftItem.find? fun item => item.collectionId = collectionId ∧ item.tokenId = tokenId with
  | none => some none
  | some item =>
    match item.rarityScore, item.rarityRank with
    | some rarityScore, some rarityRank =>
      (extractAttributes numeral item.metadata).map fun attrs =>
        let totalItems := (db.nftItem.filter fun item => item.collectionId = collectionId).length
        let percentile := ((Number.finite (totalItems - rarityRank)).div (.finite totalItems)).mul (.finite 100)
        let traitMap := traitMapOf collectionId (attrs.map Attribute.trait_type) db.nftTrait
        some
          { tokenId
            rarityScore
            rarityRank
            rarityTier := classifyTier rarityScore
            percentile := (percentile.mul (.finite 100)).round.div (.finite 100)
            traitBreakdown := attrs.map (traitInfo totalItems traitMap) }
    | _, _ => some none

end

/-! ### Keys -/

/-- A type and a value that their key keeps apart. -/
def Separable (attr : Attribute) : Prop :=
  ¬ [':', ':'] <:+: attr.trait_type.toList ++ [':'] ∧ ¬ [':', ':'] <:+: attr.value.toList

instance (attr : Attribute) : Decidable (Separable attr) := inferInstanceAs (Decidable (_ ∧ _))

theorem cut_cons {c : Char} {rest : List Char} (apart : ¬ [':', ':'] <+: c :: rest) :
    cut (c :: rest) = (c :: (cut rest).1, (cut rest).2) := by
  rw [cut]
  rintro tail rfl rfl
  exact apart ⟨tail, rfl⟩

theorem cut_append {front : List Char} (apart : ¬ [':', ':'] <:+: front ++ [':']) (rest : List Char) :
    cut (front ++ ':' :: ':' :: rest) = (front, rest) := by
  induction front with
  | nil => rfl
  | cons c front ih =>
    have later : ¬ [':', ':'] <:+: front ++ [':'] := fun inside => apart (inside.trans (List.suffix_cons c _).isInfix)
    have here : ¬ [':', ':'] <+: c :: (front ++ ':' :: ':' :: rest) := by
      intro starts
      refine apart (List.IsPrefix.isInfix (List.prefix_of_prefix_length_le starts ⟨':' :: rest, ?_⟩ ?_))
      · simp
      · simp
    rw [List.cons_append, cut_cons here, ih later]

theorem cut_plain {text : List Char} (apart : ¬ [':', ':'] <:+: text) : (cut text).1 = text := by
  induction text with
  | nil => rfl
  | cons c text ih =>
    rw [cut_cons fun starts => apart starts.isInfix, ih fun inside => apart (inside.trans (List.suffix_cons c _).isInfix)]

theorem cut_keyOf {attr : Attribute} (separable : Separable attr) : cut (keyOf attr) = (attr.trait_type.toList, attr.value.toList) :=
  cut_append separable.1 _

theorem splitKey_keyOf {attr : Attribute} (separable : Separable attr) : splitKey (keyOf attr) = (attr.trait_type, attr.value) := by
  rw [splitKey, cut_keyOf separable, cut_plain separable.2, String.ofList_toList, String.ofList_toList]

/-- Two types that keys keep apart have no key in common. -/
theorem keyOf_inj {a b : Attribute} (left : ¬ [':', ':'] <:+: a.trait_type.toList ++ [':'])
    (right : ¬ [':', ':'] <:+: b.trait_type.toList ++ [':']) (same : keyOf a = keyOf b) : a = b := by
  have parts := congrArg cut same
  rw [keyOf, keyOf, cut_append left, cut_append right] at parts
  obtain ⟨types, values⟩ := Prod.mk.inj parts
  exact Attribute.ext (String.toList_inj.mp types) (String.toList_inj.mp values)

/-! ### Traits -/

variable {numeral : ℚ → List Char} {collectionId : String} {carriers : List Carrier} {db after : Database}

/-- The attributes of an item, none where they cannot be read. -/
def attributesOf (numeral : ℚ → List Char) (item : NftItem) : List Attribute := (extractAttributes numeral item.metadata).getD []

def itemsOf (db : Database) (collectionId : String) : List NftItem := db.nftItem.filter fun item => item.collectionId = collectionId

/-- How many items carry an attribute. -/
def carrying (items : List NftItem) (numeral : ℚ → List Char) (attr : Attribute) : Nat :=
  items.countP fun item => attr ∈ attributesOf numeral item

/-- Every attribute of the carriers is kept apart, and an item has it once. -/
structure Plain (carriers : List Carrier) : Prop where
  separable : ∀ carrier ∈ carriers, ∀ attr ∈ carrier.2, Separable attr
  unrepeated : ∀ carrier ∈ carriers, carrier.2.Nodup

theorem mem_counts {key : List Char} {count : Nat} (member : (key, count) ∈ (traitCounts carriers).entries) :
    ∃ carrier ∈ carriers, ∃ attr ∈ carrier.2, keyOf attr = key := by
  have known : key ∈ (traitCounts carriers).keys := List.mem_map.mpr ⟨_, member, rfl⟩
  rw [traitCounts, OrderedMap.keys_foldl_update] at known
  rcases Ordered.mem_foldl_add.mp known with old | new
  · cases old
  · obtain ⟨attr, carried, same⟩ := List.mem_map.mp new
    obtain ⟨carrier, listed, has⟩ := List.mem_flatMap.mp carried
    exact ⟨carrier, listed, attr, has, same⟩

/-- A key counts the attributes that it stands for. -/
theorem getD_counts (key : List Char) :
    ((traitCounts carriers).get key).getD 0 = ((carriers.flatMap Prod.snd).filter fun attr => keyOf attr = key).length :=
  OrderedMap.getD_foldl_count _

theorem pos_of_get_counts {key : List Char} {count : Nat} (stored : (traitCounts carriers).get key = some count) : 0 < count := by
  obtain ⟨carrier, listed, attr, has, same⟩ := mem_counts (OrderedMap.mem_entries.mpr stored)
  have total : count = _ := (congrArg (Option.getD · 0) stored).symm.trans (getD_counts key)
  rw [total]
  apply List.length_pos_of_mem (a := attr)
  exact List.mem_filter.mpr ⟨List.mem_flatMap.mpr ⟨carrier, listed, has⟩, decide_eq_true same⟩

/-- A key counts the items that have its attribute. -/
theorem get_counts (plain : Plain carriers) {carrier : Carrier} (listed : carrier ∈ carriers) {attr : Attribute}
    (has : attr ∈ carrier.2) : (traitCounts carriers).get (keyOf attr) = some (carriers.countP fun c => attr ∈ c.2) := by
  have present : ((traitCounts carriers).get (keyOf attr)).isSome := by
    rw [OrderedMap.isSome_get, traitCounts, OrderedMap.keys_foldl_update]
    exact Ordered.mem_foldl_add.mpr (.inr (List.mem_map_of_mem (List.mem_flatMap.mpr ⟨carrier, listed, has⟩)))
  have once (part : List Carrier) (inside : part ⊆ carriers) :
      ((part.flatMap Prod.snd).filter fun other => keyOf other = keyOf attr).length = part.countP fun c => attr ∈ c.2 := by
    induction part with
    | nil => rfl
    | cons c part ih =>
      obtain ⟨member, others⟩ := List.cons_subset.mp inside
      rw [List.flatMap_cons, List.filter_append, List.length_append, ih others, List.countP_cons, Nat.add_comm]
      congr 1
      have same : (c.2.filter fun other => keyOf other = keyOf attr) = c.2.filter fun other => other == attr := by
        refine List.filter_congr fun other mine => ?_
        rw [Bool.beq_eq_decide_eq, decide_eq_decide]
        refine ⟨fun equal => ?_, fun equal => ?_⟩
        · exact keyOf_inj (plain.separable c member other mine).1 (plain.separable carrier listed attr has).1 equal
        · rw [equal]
      rw [same, ← List.countP_eq_length_filter]
      exact ((plain.unrepeated c member).count).trans (by simp)
  have total := (getD_counts (keyOf attr)).trans (once carriers (List.Subset.refl _))
  obtain ⟨count, stored⟩ := Option.isSome_iff_exists.mp present
  rw [stored] at total ⊢
  exact congrArg some total

/-- After the updates an attribute has its row. -/
theorem lookup_upsertTraits (plain : Plain carriers) (totalSupply : Nat) (table : TraitTable)
    {carrier : Carrier} (listed : carrier ∈ carriers) {attr : Attribute} (has : attr ∈ carrier.2) :
    (upsertTraits collectionId totalSupply (traitCounts carriers).entries table).lookup (collectionId, attr.trait_type, attr.value) =
      some (traitUpdate totalSupply (carriers.countP fun c => attr ∈ c.2)) := by
  have separable := plain.separable carrier listed attr has
  have stored := OrderedMap.mem_entries.mpr (get_counts plain listed has)
  have only : ∀ entry ∈ (traitCounts carriers).entries,
      (collectionId, splitKey entry.1) = (collectionId, splitKey (keyOf attr)) →
        entry = (keyOf attr, carriers.countP fun c => attr ∈ c.2) := by
    intro entry member same
    obtain ⟨c, among, a, mine, key⟩ := mem_counts member
    rw [← key, splitKey_keyOf (plain.separable c among a mine), splitKey_keyOf separable] at same
    obtain ⟨types, values⟩ := Prod.mk.inj (Prod.mk.inj same).2
    obtain rfl : a = attr := Attribute.ext types values
    have counted := OrderedMap.mem_entries.mp member
    rw [← key, OrderedMap.mem_entries.mp stored] at counted
    exact Prod.ext key.symm (Option.some.inj counted).symm
  rw [upsertTraits, show (attr.trait_type, attr.value) = splitKey (keyOf attr) from (splitKey_keyOf separable).symm]
  exact Sql.Table.lookup_foldl_upsert table stored only

/-- The rows of what no item has are as they were. -/
theorem lookup_upsertTraits_ne (plain : Plain carriers) (totalSupply : Nat) (table : TraitTable)
    {row : TraitKey} (other : ∀ carrier ∈ carriers, ∀ attr ∈ carrier.2, (collectionId, attr.trait_type, attr.value) ≠ row) :
    (upsertTraits collectionId totalSupply (traitCounts carriers).entries table).lookup row = table.lookup row := by
  rw [upsertTraits]
  refine Sql.Table.lookup_foldl_upsert_ne table fun entry member => ?_
  obtain ⟨c, among, a, mine, key⟩ := mem_counts member
  rw [← key, splitKey_keyOf (plain.separable c among a mine)]
  exact other c among a mine

/-- The row of an attribute is read back by its key. -/
theorem get_traitMapOf {types : List String} (apart : ∀ type ∈ types, ¬ [':', ':'] <:+: type.toList ++ [':'])
    {table : TraitTable} {attr : Attribute} (listed : attr.trait_type ∈ types) {row : NftTrait}
    (stored : table.lookup (collectionId, attr.trait_type, attr.value) = some row) :
    (traitMapOf collectionId types table).get (keyOf attr) = some row := by
  have constant {rows : List TraitRow} (all : ∀ r ∈ rows, r.2 = row) (start : Option NftTrait)
      (filled : rows ≠ [] ∨ start = some row) : rows.foldl (fun _ r => some r.2) start = some row := by
    induction rows generalizing start with
    | nil => exact filled.resolve_left fun empty => empty rfl
    | cons r rest ih =>
      obtain ⟨first, others⟩ := List.forall_mem_cons.mp all
      exact ih others _ (.inr (congrArg some first))
  have read : (traitMapOf collectionId types table).get (keyOf attr) =
      ((table.entries.filter fun r => r.1.1 = collectionId ∧ r.1.2.1 ∈ types).filter
        fun r => keyOf ⟨r.1.2.1, r.1.2.2⟩ = keyOf attr).foldl (fun _ r => some r.2) none := by
    rw [traitMapOf]
    exact @OrderedMap.get_foldl_merge _ _ _ OrderedMap.empty (keyOf attr) TraitRow
      (fun r => keyOf ⟨r.1.2.1, r.1.2.2⟩) (fun r _ => r.2) _
  rw [read]
  refine constant (fun r member => ?_) none (.inl (List.ne_nil_of_mem (a := ⟨(collectionId, attr.trait_type, attr.value), row⟩) ?_))
  · obtain ⟨chosen, key⟩ := List.mem_filter.mp member
    obtain ⟨inside, fields⟩ := List.mem_filter.mp chosen
    obtain ⟨collection, type⟩ := of_decide_eq_true fields
    have same := keyOf_inj (apart _ type) (apart _ listed) (of_decide_eq_true key)
    obtain ⟨⟨c, t, v⟩, content⟩ := r
    obtain rfl : c = collectionId := collection
    obtain rfl : t = attr.trait_type := congrArg Attribute.trait_type same
    obtain rfl : v = attr.value := congrArg Attribute.value same
    exact Option.some.inj ((AList.mem_lookup_iff.mpr inside).symm.trans stored)
  · refine List.mem_filter.mpr ⟨List.mem_filter.mpr ⟨AList.mem_lookup_iff.mp stored, ?_⟩, decide_eq_true rfl⟩
    exact decide_eq_true ⟨rfl, listed⟩

/-! ### Scores -/

theorem magnitude_traitRarity {totalSupply count : Nat} (positive : 0 < count) : (traitRarity totalSupply count).Magnitude := by
  have nonzero : (count : ℚ) ≠ 0 := by exact_mod_cast positive.ne'
  rw [traitRarity, Number.div, if_pos nonzero]
  exact magnitude_roundRat (by positivity)

theorem magnitude_natCast {n : Nat} (small : n < 2 ^ 53) : (Number.finite n).Magnitude := by
  rw [← roundRat_natCast small]
  exact magnitude_roundRat (Nat.cast_nonneg n)

theorem magnitude_scoreOf (totalSupply : Nat) {counts : OrderedMap (List Char) Nat}
    (positive : ∀ key count, counts.get key = some count → 0 < count) (attrs : List Attribute) :
    (scoreOf totalSupply counts attrs).Magnitude := by
  have one : (Number.finite 1).Magnitude := by exact_mod_cast magnitude_natCast (show 1 < 2 ^ 53 by norm_num)
  have zero : (Number.finite 0).Magnitude := by exact_mod_cast magnitude_natCast (show 0 < 2 ^ 53 by norm_num)
  have summed (start : Number) (magnitude : start.Magnitude) :
      (attrs.foldl (fun score attr => score.add (((counts.get (keyOf attr)).map (traitRarity totalSupply)).getD (.finite 1)))
        start).Magnitude := by
    induction attrs generalizing start with
    | nil => exact magnitude
    | cons attr rest ih =>
      refine ih _ (magnitude.add ?_)
      cases stored : counts.get (keyOf attr) with
      | none => exact one
      | some count => exact magnitude_traitRarity (positive _ count stored)
  rw [scoreOf]
  split
  · exact one
  · exact summed _ zero

/-- The scores from the highest down. -/
theorem pairwise_itemScores (totalSupply : Nat) :
    (itemScores totalSupply (traitCounts carriers) carriers).Pairwise fun a b => b.2.size ≤ a.2.size := by
  set scores := carriers.map fun carrier => (carrier.1.id, scoreOf totalSupply (traitCounts carriers) carrier.2) with scores_eq
  have magnitude (scored : String × Number) (member : scored ∈ scores) : scored.2.Magnitude := by
    obtain ⟨carrier, -, rfl⟩ := List.mem_map.mp member
    exact magnitude_scoreOf totalSupply (fun _ _ => pos_of_get_counts) carrier.2
  have bySize : scores.mergeSort higherFirst = scores.mergeSort fun a b => b.2.size ≤ a.2.size := by
    have same : (scores.mergeSort higherFirst).map id = (scores.map id).mergeSort fun a b => decide (b.2.size ≤ a.2.size) :=
      List.map_mergeSort fun a left b right => decide_eq_decide.mpr (le_size_iff (magnitude a left) (magnitude b right)).symm
    rwa [List.map_id, List.map_id] at same
  rw [itemScores, ← scores_eq, bySize]
  refine (List.pairwise_mergeSort (fun a b c => ?_) (fun a b => ?_) scores).imp of_decide_eq_true
  · simp only [decide_eq_true_eq]
    exact fun above below => below.trans above
  · simp only [Bool.or_eq_true, decide_eq_true_eq]
    exact le_total _ _

/-- The updates of one item, one after the other. -/
def placed (updates : List Place) (item : NftItem) : NftItem :=
  updates.foldl (fun item scored => place scored item) item

theorem persist_eq (scores : List (String × Number)) (items : List NftItem) : persist scores items = items.map (placed scores.zipIdx) := by
  rw [persist]
  induction scores.zipIdx generalizing items with
  | nil => exact (List.map_id items).symm
  | cons scored rest ih =>
    rw [List.foldl_cons, ih, List.map_map]
    rfl

theorem placed_kept {A : Type*} {f : NftItem → A} (kept : ∀ scored item, f (place scored item) = f item)
    (updates : List Place) (item : NftItem) : f (placed updates item) = f item := by
  rw [placed]
  induction updates generalizing item with
  | nil => rfl
  | cons scored rest ih => rw [List.foldl_cons, ih, kept]

theorem placed_of_other {updates : List Place} {item : NftItem} (other : ∀ scored ∈ updates, item.id ≠ scored.1.1) :
    placed updates item = item := by
  rw [placed]
  induction updates with
  | nil => rfl
  | cons scored rest ih =>
    obtain ⟨first, others⟩ := List.forall_mem_cons.mp other
    rw [List.foldl_cons, place, if_neg first, ih others]

/-- An item has the score and the place of its id. -/
theorem placed_of_mem {updates : List Place} (distinct : (updates.map fun scored => scored.1.1).Nodup)
    {scored : Place} (member : scored ∈ updates) {item : NftItem} (same : item.id = scored.1.1) :
    placed updates item = { item with rarityScore := some scored.1.2, rarityRank := some (scored.2 + 1) } := by
  induction updates with
  | nil => cases member
  | cons first rest ih =>
    obtain ⟨fresh, distinct⟩ := List.nodup_cons.mp distinct
    have unfolded : placed (first :: rest) item = placed rest (place first item) := rfl
    rw [unfolded]
    rcases List.mem_cons.mp member with rfl | later
    · rw [place, if_pos same]
      refine placed_of_other fun other among equal => fresh ?_
      exact List.mem_map.mpr ⟨other, among, equal.symm.trans same⟩
    · have different : item.id ≠ first.1.1 := fun equal => fresh (List.mem_map.mpr ⟨scored, later, same.symm.trans equal⟩)
      rw [place, if_neg different, ih distinct later]

/-! ### The collection -/

/-- What is read of the items. -/
def carriersOf (numeral : ℚ → List Char) (items : List NftItem) : List Carrier :=
  items.map fun item => (item, attributesOf numeral item)

def scoresOf (numeral : ℚ → List Char) (items : List NftItem) : List (String × Number) :=
  itemScores items.length (traitCounts (carriersOf numeral items)) (carriersOf numeral items)

theorem carriers_eq {items : List NftItem} (read : items.mapM (carry numeral) = some carriers) : carriers = carriersOf numeral items := by
  have one {item : NftItem} {carrier : Carrier} (carried : carry numeral item = some carrier) :
      carrier = (item, attributesOf numeral item) := by
    obtain ⟨attrs, extracted, rfl⟩ := Option.map_eq_some_iff.mp carried
    rw [attributesOf, extracted]
    rfl
  have pairs := Partial.mapM_eq_some_iff.mp read
  clear read
  induction pairs with
  | nil => rfl
  | cons first _ ih => rw [one first, ih, carriersOf, carriersOf, List.map_cons]

/-- The tables after the computation. -/
theorem computed (known : collectionId ∈ db.nftCollection) (ran : computeCollectionRarity numeral collectionId db = some after) :
    after.nftItem = persist (scoresOf numeral (itemsOf db collectionId)) db.nftItem ∧
      after.nftTrait = upsertTraits collectionId (itemsOf db collectionId).length
        (traitCounts (carriersOf numeral (itemsOf db collectionId))).entries db.nftTrait := by
  rw [computeCollectionRarity] at ran
  split at ran
  · obtain ⟨carriers, read, rfl⟩ := Option.map_eq_some_iff.mp ran
    rw [carriers_eq read]
    exact ⟨rfl, rfl⟩
  · rename_i skipped
    cases ran
    have empty : itemsOf db collectionId = [] := by
      by_contra filled
      exact skipped ⟨known, filled⟩
    have unscored : scoresOf numeral [] = [] := List.mergeSort_nil
    rw [empty, unscored]
    exact ⟨rfl, rfl⟩

/-- An item of the collection has its score and its place. -/
theorem item_computed (known : collectionId ∈ db.nftCollection) (ran : computeCollectionRarity numeral collectionId db = some after)
    {item : NftItem} (member : item ∈ itemsOf after collectionId) :
    ∃ old ∈ itemsOf db collectionId, ∃ i score,
      (scoresOf numeral (itemsOf db collectionId))[i]? = some (item.id, score) ∧
        score = scoreOf (itemsOf db collectionId).length (traitCounts (carriersOf numeral (itemsOf db collectionId)))
          (attributesOf numeral old) ∧
        item = { old with rarityScore := some score, rarityRank := some (i + 1) } := by
  obtain ⟨placedItem, belongs⟩ := List.mem_filter.mp member
  rw [(computed known ran).1, persist_eq] at placedItem
  obtain ⟨old, stored, rfl⟩ := List.mem_map.mp placedItem
  have inside : old ∈ itemsOf db collectionId := by
    refine List.mem_filter.mpr ⟨stored, ?_⟩
    rwa [placed_kept (f := NftItem.collectionId) fun scored item => congrArg Prod.fst (token_place scored item)] at belongs
  set items := itemsOf db collectionId
  set score := scoreOf items.length (traitCounts (carriersOf numeral items)) (attributesOf numeral old) with score_eq
  have scored : (old.id, score) ∈ scoresOf numeral items := by
    refine List.mem_mergeSort.mpr (List.mem_map.mpr ⟨(old, attributesOf numeral old), ?_, rfl⟩)
    exact List.mem_map_of_mem inside
  have distinct : ((scoresOf numeral items).zipIdx.map fun scored => scored.1.1).Nodup := by
    have names : ((scoresOf numeral items).zipIdx.map fun scored => scored.1.1) = (scoresOf numeral items).map Prod.fst := by
      have parts := congrArg (List.map Prod.fst) (List.zipIdx_map_fst 0 (scoresOf numeral items))
      rwa [List.map_map] at parts
    have perm : ((scoresOf numeral items).map Prod.fst).Perm (items.map NftItem.id) := by
      refine ((List.mergeSort_perm _ _).map Prod.fst).trans (List.Perm.of_eq ?_)
      rw [List.map_map, carriersOf, List.map_map]
      rfl
    rw [names, perm.nodup_iff]
    exact db.ids.sublist (List.filter_sublist.map _)
  obtain ⟨i, position, found⟩ := List.mem_iff_getElem.mp scored
  have entry : (scoresOf numeral items)[i]? = some (old.id, score) := by rw [List.getElem?_eq_getElem position, found]
  have updated := placed_of_mem distinct (List.mk_mem_zipIdx_iff_getElem?.mpr entry) rfl
  exact ⟨old, inside, i, score, by rw [updated]; exact entry, rfl, updated⟩

/-- The item with the greater score comes first. -/
theorem rank_computed (known : collectionId ∈ db.nftCollection) (ran : computeCollectionRarity numeral collectionId db = some after)
    {a b : NftItem} (left : a ∈ itemsOf after collectionId) (right : b ∈ itemsOf after collectionId) :
    ∃ x y m n, a.rarityScore = some x ∧ b.rarityScore = some y ∧ a.rarityRank = some m ∧ b.rarityRank = some n ∧
      (y.lt x = true → m < n) := by
  obtain ⟨oldA, -, i, x, atI, scoreA, rfl⟩ := item_computed known ran left
  obtain ⟨oldB, -, j, y, atJ, scoreB, rfl⟩ := item_computed known ran right
  refine ⟨x, y, i + 1, j + 1, rfl, rfl, rfl, rfl, fun greater => Nat.succ_lt_succ ?_⟩
  have sorted : (scoresOf numeral (itemsOf db collectionId)).Pairwise fun a b => b.2.size ≤ a.2.size := pairwise_itemScores _
  have magnitudes (old : NftItem) : (scoreOf (itemsOf db collectionId).length
      (traitCounts (carriersOf numeral (itemsOf db collectionId))) (attributesOf numeral old)).Magnitude :=
    magnitude_scoreOf _ (fun _ _ => pos_of_get_counts) _
  have less : y.size < x.size := by
    rw [scoreA, scoreB] at greater ⊢
    exact (lt_size_iff (magnitudes oldB) (magnitudes oldA)).mpr greater
  obtain ⟨boundA, foundA⟩ := List.getElem?_eq_some_iff.mp atI
  obtain ⟨boundB, foundB⟩ := List.getElem?_eq_some_iff.mp atJ
  by_contra later
  rcases Nat.lt_or_eq_of_le (Nat.le_of_not_lt later) with before | rfl
  · have ordered := List.pairwise_iff_getElem.mp sorted j i boundB boundA before
    rw [foundA, foundB] at ordered
    exact absurd less (not_lt.mpr ordered)
  · have same : x = y := congrArg Prod.snd (foundA.symm.trans foundB)
    rw [same] at less
    exact lt_irrefl _ less

/-- Every item of the collection could be read. -/
theorem extracted (known : collectionId ∈ db.nftCollection) (ran : computeCollectionRarity numeral collectionId db = some after)
    {old : NftItem} (member : old ∈ itemsOf db collectionId) :
    extractAttributes numeral old.metadata = some (attributesOf numeral old) := by
  rw [computeCollectionRarity] at ran
  split at ran
  · obtain ⟨carriers, read, -⟩ := Option.map_eq_some_iff.mp ran
    have pairs := Partial.mapM_eq_some_iff.mp read
    rw [carriers_eq read, carriersOf, List.forall₂_map_right_iff, List.forall₂_same] at pairs
    obtain ⟨attrs, found, same⟩ := Option.map_eq_some_iff.mp (pairs old member)
    rw [found]
    exact congrArg some (Prod.mk.inj same).2
  · rename_i skipped
    exact absurd ⟨known, List.ne_nil_of_mem member⟩ skipped

/-- The item of a token. -/
theorem find_token {item : NftItem} (member : item ∈ itemsOf db collectionId) :
    (db.nftItem.find? fun other => other.collectionId = collectionId ∧ other.tokenId = item.tokenId) = some item := by
  obtain ⟨stored, belongs⟩ := List.mem_filter.mp member
  have belongs := of_decide_eq_true belongs
  cases found : db.nftItem.find? fun other => other.collectionId = collectionId ∧ other.tokenId = item.tokenId with
  | none => exact absurd (List.find?_eq_none.mp found item stored) (by simp [belongs])
  | some other =>
    have matched := List.find?_some found
    obtain ⟨collection, token⟩ := of_decide_eq_true matched
    exact congrArg some (List.inj_on_of_nodup_map db.tokens (List.mem_of_find?_eq_some found) stored
      (Prod.ext (collection.trans belongs.symm) token))

/-- A row counts the items that carry its attribute. -/
theorem row_computed (known : collectionId ∈ db.nftCollection) (ran : computeCollectionRarity numeral collectionId db = some after)
    (plain : Plain (carriersOf numeral (itemsOf db collectionId))) {old : NftItem} (member : old ∈ itemsOf db collectionId)
    {attr : Attribute} (has : attr ∈ attributesOf numeral old) :
    after.nftTrait.lookup (collectionId, attr.trait_type, attr.value) =
      some (traitUpdate (itemsOf db collectionId).length (carrying (itemsOf db collectionId) numeral attr)) := by
  rw [(computed known ran).2, lookup_upsertTraits plain _ _ (List.mem_map_of_mem member) has, carriersOf, List.countP_map]
  rfl

/-- The scores of the traits of an item add up to its own. -/
theorem sum_traitBreakdown (known : collectionId ∈ db.nftCollection) (ran : computeCollectionRarity numeral collectionId db = some after)
    (plain : Plain (carriersOf numeral (itemsOf db collectionId))) {old : NftItem} (member : old ∈ itemsOf db collectionId)
    (filled : attributesOf numeral old ≠ []) (totalItems : Nat) :
    (((attributesOf numeral old).map (traitInfo totalItems
      (traitMapOf collectionId ((attributesOf numeral old).map Attribute.trait_type) after.nftTrait))).map
        TraitInfo.rarityScore).foldl Number.add (.finite 0) =
      scoreOf (itemsOf db collectionId).length (traitCounts (carriersOf numeral (itemsOf db collectionId))) (attributesOf numeral old) := by
  set items := itemsOf db collectionId
  have listed : (old, attributesOf numeral old) ∈ carriersOf numeral items := List.mem_map_of_mem member
  rw [scoreOf, if_neg filled, List.map_map, List.foldl_map]
  refine List.foldl_ext _ _ _ fun score attr has => congrArg score.add ?_
  have read := get_traitMapOf (fun type inside => ?_) (List.mem_map_of_mem has) (row_computed known ran plain member has)
  · rw [Function.comp_apply, traitInfo, read, get_counts plain listed has, carriersOf, List.countP_map]
    rfl
  · obtain ⟨other, carried, rfl⟩ := List.mem_map.mp inside
    exact (plain.separable _ listed other carried).1

theorem attributesOf_placed (updates : List Place) (item : NftItem) :
    attributesOf numeral (placed updates item) = attributesOf numeral item := by
  refine placed_kept (fun scored item => ?_) updates item
  rw [place]
  split <;> rfl

theorem itemsOf_computed (known : collectionId ∈ db.nftCollection) (ran : computeCollectionRarity numeral collectionId db = some after) :
    itemsOf after collectionId = (itemsOf db collectionId).map (placed (scoresOf numeral (itemsOf db collectionId)).zipIdx) := by
  have collection (updates : List Place) (item : NftItem) :
      (placed updates item).collectionId = item.collectionId :=
    placed_kept (fun scored item => congrArg Prod.fst (token_place scored item)) updates item
  rw [itemsOf, (computed known ran).1, persist_eq, List.filter_map]
  refine congrArg (List.map _) (List.filter_congr fun item _ => ?_)
  rw [Function.comp_apply, collection]

theorem carrying_computed (known : collectionId ∈ db.nftCollection) (ran : computeCollectionRarity numeral collectionId db = some after)
    (attr : Attribute) : carrying (itemsOf after collectionId) numeral attr = carrying (itemsOf db collectionId) numeral attr := by
  rw [itemsOf_computed known ran, carrying, carrying, List.countP_map]
  refine List.countP_congr fun item _ => ?_
  rw [Function.comp_apply, attributesOf_placed]

/-- The details of an item are those of its attributes. -/
theorem detail_computed (known : collectionId ∈ db.nftCollection) (ran : computeCollectionRarity numeral collectionId db = some after)
    (plain : Plain (carriersOf numeral (itemsOf db collectionId))) {item : NftItem} (member : item ∈ itemsOf after collectionId) :
    ∃ detail, getItemRarityDetail numeral collectionId item.tokenId after = some (some detail) ∧
      item.rarityScore = some detail.rarityScore ∧
      detail.traitBreakdown.map (fun info => (info.traitType, info.value)) =
        (attributesOf numeral item).map (fun attr => (attr.trait_type, attr.value)) ∧
      if attributesOf numeral item = [] then detail.rarityScore = .finite 1
      else (detail.traitBreakdown.map TraitInfo.rarityScore).foldl Number.add (.finite 0) = detail.rarityScore := by
  have found := find_token member
  obtain ⟨old, inside, i, score, -, scored, rfl⟩ := item_computed known ran member
  rw [getItemRarityDetail, found]
  simp only [extracted known ran inside, Option.map_some]
  refine ⟨_, rfl, rfl, ?_, ?_⟩
  · rw [List.map_map]
    rfl
  · change if attributesOf numeral old = [] then _ else _
    split
    · rename_i empty
      rw [scored, scoreOf, if_pos empty]
    · rename_i filled
      exact (sum_traitBreakdown known ran plain inside filled _).trans scored.symm

/-- Rows count the items that carry an attribute, the traits of an item add up to its score, and the
greater score has the smaller rank. -/
theorem rarity_exact (numeral : ℚ → List Char) (collectionId : String) (db after : Database) (known : collectionId ∈ db.nftCollection)
    (unrepeated : ∀ item ∈ itemsOf db collectionId, (attributesOf numeral item).Nodup)
    (ran : computeCollectionRarity numeral collectionId db = some after) :
    (∀ a ∈ itemsOf after collectionId, ∀ b ∈ itemsOf after collectionId, ∃ x y m n, a.rarityScore = some x ∧ b.rarityScore = some y ∧
        a.rarityRank = some m ∧ b.rarityRank = some n ∧ (y.lt x = true → m < n)) ∧
      ((∀ item ∈ itemsOf db collectionId, ∀ attr ∈ attributesOf numeral item, Separable attr) →
        (∀ item ∈ itemsOf after collectionId, ∀ attr ∈ attributesOf numeral item,
          (after.nftTrait.lookup (collectionId, attr.trait_type, attr.value)).map NftTrait.count =
            some (carrying (itemsOf after collectionId) numeral attr)) ∧
        (∀ row, (∀ item ∈ itemsOf after collectionId, ∀ attr ∈ attributesOf numeral item,
          (collectionId, attr.trait_type, attr.value) ≠ row) → after.nftTrait.lookup row = db.nftTrait.lookup row) ∧
        ∀ item ∈ itemsOf after collectionId, ∃ detail,
          getItemRarityDetail numeral collectionId item.tokenId after = some (some detail) ∧
            item.rarityScore = some detail.rarityScore ∧
            detail.traitBreakdown.map (fun info => (info.traitType, info.value)) =
              (attributesOf numeral item).map (fun attr => (attr.trait_type, attr.value)) ∧
            if attributesOf numeral item = [] then detail.rarityScore = .finite 1
            else (detail.traitBreakdown.map TraitInfo.rarityScore).foldl Number.add (.finite 0) = detail.rarityScore) := by
  refine ⟨fun a left b right => rank_computed known ran left right, fun separable => ?_⟩
  have plain : Plain (carriersOf numeral (itemsOf db collectionId)) := by
    constructor
    · intro carrier listed
      obtain ⟨item, member, rfl⟩ := List.mem_map.mp listed
      exact separable item member
    · intro carrier listed
      obtain ⟨item, member, rfl⟩ := List.mem_map.mp listed
      exact unrepeated item member
  refine ⟨fun item member attr has => ?_, fun row other => ?_, fun item member => ?_⟩
  · obtain ⟨old, inside, i, score, -, -, rfl⟩ := item_computed known ran member
    rw [row_computed known ran plain inside has, carrying_computed known ran]
    rfl
  · rw [(computed known ran).2]
    refine lookup_upsertTraits_ne plain _ _ fun carrier listed attr has => ?_
    obtain ⟨old, inside, rfl⟩ := List.mem_map.mp listed
    refine other (placed (scoresOf numeral (itemsOf db collectionId)).zipIdx old) ?_ attr ?_
    · rw [itemsOf_computed known ran]
      exact List.mem_map_of_mem inside
    · rw [attributesOf_placed]
      exact has
  · exact detail_computed known ran plain member

/-- `String(number)` -/
def numeralText (x : ℚ) : List Char := (Number.finite x).text.toList

/-- A collection with one item. -/
def single (metadata : Option Json) : Database where
  nftCollection := ["c"]
  nftItem := [⟨"i", "c", "1", metadata, none, none⟩]
  nftTrait := ∅
  ids := List.nodup_singleton _
  tokens := List.nodup_singleton _

/-- Blue eyes. -/
def eyes : Json := .object [("attributes", some (.array [.object [("trait_type", some (.text "eyes")), ("value", some (.text "blue"))]]))]

theorem rarity_exact_of_one : ∃ after, computeCollectionRarity numeralText "c" (single (some eyes)) = some after ∧
    (∀ item ∈ itemsOf after "c", ∀ attr ∈ attributesOf numeralText item,
      (after.nftTrait.lookup ("c", attr.trait_type, attr.value)).map NftTrait.count =
        some (carrying (itemsOf after "c") numeralText attr)) := by
  refine ⟨_, rfl, ?_⟩
  refine ((rarity_exact numeralText "c" (single (some eyes)) _ (by decide) ?_ rfl).2 ?_).1
  · decide
  · decide

/-- An item without attributes has a score of one. -/
theorem base_score_of_no_traits : ∃ after detail, computeCollectionRarity numeralText "c" (single none) = some after ∧
    getItemRarityDetail numeralText "c" "1" after = some (some detail) ∧ detail.rarityScore = .finite 1 ∧
      (detail.traitBreakdown.map TraitInfo.rarityScore).foldl Number.add (.finite 0) = .finite 0 := by
  have ran : ∃ after, computeCollectionRarity numeralText "c" (single none) = some after := ⟨_, rfl⟩
  obtain ⟨after, ran⟩ := ran
  have plain : Plain (carriersOf numeralText (itemsOf (single none) "c")) := by
    constructor <;> decide
  have listed := itemsOf_computed (by decide) ran
  set item := placed (scoresOf numeralText (itemsOf (single none) "c")).zipIdx ⟨"i", "c", "1", none, none, none⟩
  have member : item ∈ itemsOf after "c" := by
    rw [listed]
    exact List.mem_cons_self
  have unread : attributesOf numeralText item = [] := by
    rw [attributesOf_placed]
    rfl
  have token : item.tokenId = "1" := placed_kept (fun scored item => congrArg Prod.snd (token_place scored item)) _ _
  obtain ⟨detail, found, -, traits, score⟩ := detail_computed (by decide) ran plain member
  rw [unread] at traits score
  rw [token] at found
  have unlisted : detail.traitBreakdown = [] := List.map_eq_nil_iff.mp traits
  refine ⟨after, detail, ran, found, score, ?_⟩
  rw [unlisted]
  rfl

end Octraban.NftRarity
