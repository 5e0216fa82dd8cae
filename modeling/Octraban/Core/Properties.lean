import Octraban.Core.CodeUnits
import Octraban.Core.Objects

/-! Objects that are filled by assignments to their properties: the order of the own ones, the
prototype, and the setter that the name `__proto__` reaches. -/
namespace Properties

open CodeUnits

/-- An object has its own entries in their order, and a prototype where it is not `Object.prototype`. -/
inductive Value where
  | null
  | boolean (value : Bool)
  | number (x : JavaScript.Number)
  | text (text : Text)
  | array (items : List Value)
  | object (prototype : Option Value) (entries : List (Text × Value))

def protoKey : Text := units "__proto__"

/-- Whether the way up from an object reaches the setter of `__proto__`. -/
def Value.setter : Value → Bool
  | object none entries => !entries.any (·.1 = protoKey)
  | object (some prototype) entries => !entries.any (·.1 = protoKey) && prototype.setter
  | null => false
  | _ => true

/-- What the setter takes for a prototype. -/
def Value.isPrototype : Value → Bool
  | null | array _ | object _ _ => true
  | _ => false

/-- An object in the making. -/
structure Object where
  prototype : Option Value
  own : OrderedMap Text Value

def Object.empty : Object := ⟨none, .empty⟩

/-- `object[key] = value`: the key `__proto__` sets the prototype, until its setter is out of reach. -/
def Object.assign (object : Object) (key : Text) (value : Value) : Object :=
  if key = protoKey ∧ key ∉ object.own.keys ∧ object.prototype.all Value.setter then
    if value.isPrototype then { object with prototype := some value } else object
  else { object with own := object.own.set key value }

/-- A key that is an array index; it has decimal digits only. -/
def arrayIndex (key : Text) : Option Nat :=
  if key.all isDigit then JavaScript.arrayIndex (String.ofList (key.map fun u => Char.ofNat u.toNat)) else none

def Object.value (object : Object) : Value :=
  .object object.prototype (JavaScript.ordered arrayIndex object.own.entries)

variable {object : Object} {key : Text}

theorem assign_of_ne (other : key ≠ protoKey) (value : Value) :
    object.assign key value = { object with own := object.own.set key value } := by
  rw [Object.assign, if_neg fun all => other all.1]

/-- What the key `__proto__` does to a plain object. -/
theorem assign_protoKey (plain : object.prototype = none) (unowned : protoKey ∉ object.own.keys) (value : Value) :
    object.assign protoKey value = if value.isPrototype then { object with prototype := some value } else object := by
  rw [Object.assign, if_pos ⟨rfl, unowned, by rw [plain]; rfl⟩]

/-- No assignment brings the first prototype back. -/
theorem isSome_assign (set : object.prototype.isSome) (key : Text) (value : Value) : (object.assign key value).prototype.isSome := by
  rw [Object.assign]
  split
  · split
    · rfl
    · exact set
  · exact set

/-- No assignment gives a plain object a property of the name. -/
theorem unowned_assign (unowned : object.prototype = none → protoKey ∉ object.own.keys) (key : Text) (value : Value) :
    (object.assign key value).prototype = none → protoKey ∉ (object.assign key value).own.keys := by
  by_cases proto : key = protoKey
  · intro plain
    have before : object.prototype = none := by
      by_contra set
      have later := isSome_assign (Option.isSome_iff_ne_none.mpr set) key value
      rw [plain] at later
      cases later
    rw [proto, assign_protoKey before (unowned before)]
    split
    · exact unowned before
    · exact unowned before
  · rw [assign_of_ne proto]
    intro plain
    rw [OrderedMap.keys_set, Ordered.mem_add]
    rintro (old | same)
    · exact unowned plain old
    · exact proto same.symm

def Object.assignAll (object : Object) (members : List (Text × Value)) : Object :=
  members.foldl (fun object member => object.assign member.1 member.2) object

variable {members : List (Text × Value)}

theorem unowned_assignAll (unowned : object.prototype = none → protoKey ∉ object.own.keys) :
    (object.assignAll members).prototype = none → protoKey ∉ (object.assignAll members).own.keys := by
  induction members generalizing object with
  | nil => exact unowned
  | cons member rest ih => exact ih (unowned_assign unowned member.1 member.2)

/-- A member with a new name is added last. -/
theorem assign_of_fresh {name : Text} {names : List Text} (fresh : (object.own.keys ++ name :: names).Nodup) (other : name ≠ protoKey)
    (value : Value) : (object.assign name value).prototype = object.prototype ∧
      (object.assign name value).own.entries = object.own.entries ++ [(name, value)] ∧
      ((object.assign name value).own.keys ++ names).Nodup := by
  have new : name ∉ object.own.keys := fun known => List.disjoint_of_nodup_append fresh known List.mem_cons_self
  rw [assign_of_ne other]
  refine ⟨rfl, OrderedMap.entries_set_of_fresh new, ?_⟩
  rw [OrderedMap.keys_set, Ordered.add, if_neg new]
  simpa using fresh

/-- Members with new names are added in their order. -/
theorem assignAll_of_fresh (fresh : (object.own.keys ++ members.map Prod.fst).Nodup)
    (allowed : protoKey ∉ members.map Prod.fst) : (object.assignAll members).prototype = object.prototype ∧
      (object.assignAll members).own.entries = object.own.entries ++ members := by
  induction members generalizing object with
  | nil => exact ⟨rfl, (List.append_nil _).symm⟩
  | cons member rest ih =>
    rw [List.map_cons, List.mem_cons, not_or] at allowed
    obtain ⟨prototype, entries, fresh⟩ := assign_of_fresh fresh (Ne.symm allowed.1) member.2
    obtain ⟨prototype', entries'⟩ := ih fresh allowed.2
    rw [Object.assignAll, List.foldl_cons, ← Object.assignAll]
    refine ⟨prototype'.trans prototype, entries'.trans ?_⟩
    rw [entries, List.append_assoc]
    rfl

/-- All members stay apart exactly when their names differ and none is `__proto__`. -/
theorem value_assignAll_iff : (Object.empty.assignAll members).value = .object none (JavaScript.ordered arrayIndex members) ↔
    (members.map Prod.fst).Nodup ∧ protoKey ∉ members.map Prod.fst := by
  constructor
  · intro same
    rw [Object.value, Value.object.injEq] at same
    have perm : (Object.empty.assignAll members).own.entries.Perm members := by
      have left := JavaScript.perm_ordered arrayIndex (Object.empty.assignAll members).own.entries
      rw [same.2] at left
      exact left.symm.trans (JavaScript.perm_ordered arrayIndex members)
    have names := perm.map Prod.fst
    refine ⟨names.nodup_iff.mp (Object.empty.assignAll members).own.nodup, fun listed => ?_⟩
    have unowned : Object.empty.prototype = none → protoKey ∉ Object.empty.own.keys := fun _ => List.not_mem_nil
    exact unowned_assignAll unowned same.1 (names.mem_iff.mpr listed)
  · rintro ⟨nodup, allowed⟩
    obtain ⟨prototype, entries⟩ := @assignAll_of_fresh .empty members nodup allowed
    rw [Object.value, prototype, entries]
    rfl

end Properties
