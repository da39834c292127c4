import Confinement.Decimal.Shortest

/-!
# Values

The values that guest code handles. Objects and functions are named by identity; what they hold is
in the store. `missing` is what a granted read of an absent member yields, apart from `undefined`.
-/
namespace Confinement

/-- Identity of an object or function: its place in the order of creation. -/
abbrev EntityId := Nat

/-- A number is a whole number or a binary64 float. -/
inductive Number where
  | integer (n : Int)
  | float (x : Float)

namespace Number

def text : Number → String
  | .integer n => toString n
  | .float x => Decimal.floatText x

/-- Numeric equality: a whole number meets a float as the float nearest to it. -/
def same : Number → Number → Bool
  | .integer a, .integer b => a == b
  | .float a, .float b => a == b
  | .integer a, .float b => Float.ofInt a == b
  | .float a, .integer b => a == Float.ofInt b

end Number

inductive Value where
  | undefined
  | null
  | missing
  | boolean (b : Bool)
  | number (n : Number)
  | string (s : String)
  | object (id : EntityId)
  | function (id : EntityId)

namespace Value

def int (n : Int) : Value := .number (.integer n)

/-- Name of the value's kind, as diagnostics use it. -/
def typeName : Value → String
  | .undefined => "undefined"
  | .null => "null"
  | .missing => "missing"
  | .boolean _ => "boolean"
  | .number _ => "number"
  | .string _ => "string"
  | .object _ => "object"
  | .function _ => "function"

def isNullish : Value → Bool
  | .undefined | .null => true
  | _ => false

def isMissing : Value → Bool
  | .missing => true
  | _ => false

def string? : Value → Option String
  | .string s => some s
  | _ => none

/-- The object or function that the value names. -/
def id? : Value → Option EntityId
  | .object id | .function id => some id
  | _ => none

/-- Whether the value names an object or a function. -/
def isReference (v : Value) : Bool := v.id?.isSome

/-- Whether two values name the same object or the same function. -/
def sameIdentity : Value → Value → Bool
  | .object a, .object b => a == b
  | .function a, .function b => a == b
  | _, _ => false

/-- An absent member never travels as an argument: it arrives as `undefined`. -/
def ofArgument : Value → Value
  | .missing => .undefined
  | v => v

end Value

end Confinement
