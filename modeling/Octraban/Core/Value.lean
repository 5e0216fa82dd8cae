import Octraban.Core.BigInt

/-! Values of any type: their truth, their text and their fields. -/
namespace JavaScript

/-- An object has each field once, and a buffer is given by its text. -/
inductive Value where
  | undefined
  | null
  | boolean (value : Bool)
  | number (x : Number)
  | bigint (n : Int)
  | text (text : String)
  | buffer (text : String)
  | array (items : List Value)
  | object (fields : List (String × Value))

namespace Value

mutual

/-- `String(value)` -/
def string : Value → String
  | undefined => "undefined"
  | null => "null"
  | boolean value => if value then "true" else "false"
  | number x => x.text
  | bigint n => bigIntText n
  | text content | buffer content => content
  | array items => ",".intercalate (elements items)
  | object _ => "[object Object]"

/-- Null and undefined are left empty in an array. -/
def elements : List Value → List String
  | [] => []
  | undefined :: items | null :: items => "" :: elements items
  | item :: items => item.string :: elements items

end

def truthy : Value → Bool
  | undefined | null => false
  | boolean value => value
  | number x => x ≠ .nan ∧ x ≠ .finite 0
  | bigint n => n ≠ 0
  | text content => content ≠ ""
  | buffer _ | array _ | object _ => true

/-- `typeof value === 'object'`, null left out. -/
def isObject : Value → Bool
  | buffer _ | array _ | object _ => true
  | _ => false

def field? : Value → String → Option Value
  | object fields, name => fields.lookup name
  | _, _ => none

def get (value : Value) (name : String) : Value := (value.field? name).getD undefined

/-- `a ?? b` -/
def orElse : Value → Value → Value
  | undefined, b | null, b => b
  | a, _ => a

/-- `Number(value)` -/
def toNumber : Value → Number
  | undefined => .nan
  | null => .finite 0
  | boolean value => .finite (if value then 1 else 0)
  | number x => x
  | bigint n => roundRat n
  | text content | buffer content => JavaScript.number content
  | array items => JavaScript.number (array items).string
  | object fields => JavaScript.number (object fields).string

theorem truthy_of_isObject {value : Value} (isObject : value.isObject = true) : value.truthy = true := by
  cases value with
  | buffer _ | array _ | object _ => rfl
  | undefined | null | boolean _ | number _ | bigint _ | text _ => cases isObject

end Value

end JavaScript
