/-
What the form of an expression tells about its value. The types order as a
lattice of height two: three types of numbers below `number`, everything below
`any`.
-/
import Ecma.Number.Integer
import Ecma.Syntax.Tree

namespace Ecma.Compile

/-- What is known about the value of an expression. -/
inductive ValueType where
  | undefined
  | null
  | boolean
  | number
  /-- A number known to be an integer of 32 bits with sign. -/
  | int32
  /-- A number known to be an integer of 32 bits without sign. -/
  | uint32
  | string
  | object
  /-- A variable or property that has not been read yet. -/
  | reference
  | any
  /-- No value at all. -/
  | empty
  deriving DecidableEq, Repr, Inhabited

namespace ValueType

def all : List ValueType :=
  [undefined, null, boolean, number, int32, uint32, string, object, reference, any, empty]

def name : ValueType → String
  | undefined => "Undefined"
  | null => "Null"
  | boolean => "Boolean"
  | number => "Number"
  | int32 => "NumberInt"
  | uint32 => "NumberUint"
  | string => "String"
  | object => "Object"
  | reference => "Reference"
  | any => "Any"
  | empty => "Empty"

def isPrimitive : ValueType → Bool
  | undefined | null | boolean | number | int32 | uint32 | string => true
  | object | reference | any | empty => false

def isNumeric : ValueType → Bool
  | number | int32 | uint32 => true
  | _ => false

def join (t u : ValueType) : ValueType :=
  if t == u then t
  else if t.isNumeric && u.isNumeric then number
  else any

/-- The type of a value once stored: numbers lose their range. -/
def stored (t : ValueType) : ValueType := if t.isNumeric then number else t

/-- The narrowest type of a number. Negative zero is no integer of 32 bits. -/
def ofNumber (x : Float) : ValueType :=
  if x == 0 && Number.signBit x then number
  else if (Number.integerIn? Number.minInt32 Number.maxInt32 x).isSome then int32
  else if (Number.integerIn? 0 Number.maxUint32 x).isSome then uint32
  else number

def ofLiteral : Syntax.Literal → ValueType
  | .boolean _ => boolean
  | .null => null
  | .string _ => string
  | .number x => ofNumber x

theorem join_comm (t u : ValueType) : t.join u = u.join t := by
  cases t <;> cases u <;> rfl

theorem join_self (t : ValueType) : t.join t = t := by
  cases t <;> rfl

end ValueType

end Ecma.Compile
