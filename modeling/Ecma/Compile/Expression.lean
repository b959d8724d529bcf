/-
Code for the forms of expressions, each from the code of its parts. Operands
are evaluated from left to right; what may run code of the program is done only
once all operands are there.
-/
import Ecma.Compile.Reference
import Ecma.Number.Format

namespace Ecma.Compile

open Code

def literal (value : Syntax.Literal) : Emit Emitted := do
  match value with
  | .boolean true => op .pushTrue
  | .boolean false => op .pushFalse
  | .null => op .pushNull
  | .number value => pushNumber value
  | .string value => pushString value
  return .value (ValueType.ofLiteral value)

/-- A substitution of a template, and the string after it. -/
def substitution (value : Emit ValueType) (quasi : Option String) : Emit Unit := do
  toText (← value)
  op .concat
  match quasi with
  | some text =>
    if !text.isEmpty then
      pushString text
      op .concat
  | none => pure ()

/-- The fixed name of a property in an object literal. -/
def fixedKey {σ : Type} : Syntax.Expr σ → Emit String
  | .identifier name => return name
  | .literal (.string text) => return text
  | .literal (.number value) => return Number.text value
  | _ => throw .propertyKey

/-- A value after which another one is pushed in its place. -/
def insteadOf (value : Emit ValueType) (replacement : Op) (type : ValueType) : Emit Emitted := do
  let _ ← value
  op .pop
  op replacement
  return .value type

def unaryOp (value : Emit ValueType) (operation : Op) (type : ValueType) : Emit Emitted := do
  let _ ← value
  op operation
  return .value type

def unaryPlus (value : Emit ValueType) : Emit Emitted := do
  let type ← value
  toNumber type
  return .value (if type.isNumeric then type else .number)

/-! ## Operators on two values -/

def arithmeticType : Number.Arithmetic → ValueType
  | .sub | .mul | .div | .rem | .pow => .number
  | .and | .or | .xor | .shiftLeft | .shiftRight => .int32
  | .shiftRightZero => .uint32

/-- Arithmetic. The left operand is converted at once if neither the conversion
nor the right operand can run code of the program, else after both are there. -/
def arithmetic (operator : Number.Arithmetic) (left right : Emit ValueType)
    (rightIsLiteral : Bool) : Emit Emitted := do
  let leftType ← left
  let early := leftType.isPrimitive || rightIsLiteral
  if early then toNumber leftType
  let rightType ← right
  if !early then
    op .swap
    op .toNumber
    op .swap
  toNumber rightType
  op (.arithmetic operator)
  return .value (arithmeticType operator)

def relation (relation : Syntax.Relation) (left right : Emit ValueType) : Emit Emitted := do
  let _ ← left
  let _ ← right
  op (.relation relation)
  return .value .boolean

/-- Converts a value to a string by way of a primitive value. -/
def primitiveText (value : Emit ValueType) : Emit Unit := do
  let type ← value
  toPrimitive type
  toText type

/-- A sum. Next to a string literal the other operand is converted to a string,
and an empty one is left out. -/
def addition (left right : Emit ValueType) (leftText rightText : Option String) :
    Emit Emitted := do
  match leftText, rightText with
  | some "", _ =>
    primitiveText right
    return .value .string
  | _, some "" =>
    primitiveText left
    return .value .string
  | some text, _ =>
    pushString text
    primitiveText right
    op .concat
    return .value .string
  | none, some text =>
    primitiveText left
    pushString text
    op .concat
    return .value .string
  | none, none =>
    let leftType ← left
    let rightType ← right
    op .add
    return .value <|
      if leftType.isNumeric && rightType.isNumeric then .number
      else if leftType == .string || rightType == .string then .string
      else .any

/-- An operator that evaluates its right operand only if the left one does not
decide. -/
def logical (operator : Syntax.LogicalOperator) (left right : Emit ValueType) :
    Emit Emitted := do
  let leftType ← left
  let done ← newLabel
  op .dup
  match operator with
  | .and =>
    toBoolean leftType
    jump .jumpIfFalse done
  | .or =>
    toBoolean leftType
    jump .jumpIfTrue done
  | .coalesce =>
    op .isNullish
    jump .jumpIfFalse done
  op .pop
  let rightType ← right
  place done
  return .value (leftType.join rightType)

def condition (test : Emit ValueType) : Emit Unit := do
  toBoolean (← test)

def conditional (test consequent alternate : Emit ValueType) : Emit Emitted := do
  condition test
  let otherwise ← newLabel
  let done ← newLabel
  jump .jumpIfFalse otherwise
  let consequentType ← consequent
  jump .jump done
  place otherwise
  let alternateType ← alternate
  place done
  return .value (consequentType.join alternateType)

/-! ## Assignments -/

/-- The operator of a compound assignment, on the old and the new operand. -/
def compound : Syntax.AssignOperator → Emit ValueType
  | .plain => return .any
  | .add => do
    op .add
    return .any
  | .arithmetic operator => do
    op (.arithmetic operator)
    return .number

/-- An assignment to a variable, which is looked up again to store it. -/
def assignName (operator : Syntax.AssignOperator) (name : String) (value : Emit ValueType) :
    Emit Emitted := do
  let resolved ← resolve name
  let type ←
    match operator with
    | .plain => value
    | _ => do
      load name resolved
      let _ ← value
      compound operator
  op .dup
  store name resolved
  return .value type

/-- Pushes the old value of a property on top of what is needed to store it. -/
def loadOver : Emitted → Emit Unit
  | .property name => do
    op .dup
    opWith .getProp (.name name)
  | _ => do
    op .dup2
    op .getElem

/-- Pops into a property and leaves the value. -/
def storeOver : Emitted → Emit Unit
  | .property name => opWith .setProp (.name name)
  | _ => op .setElem

def assignMember (operator : Syntax.AssignOperator) (target : Emit Emitted)
    (value : Emit ValueType) : Emit Emitted := do
  let reference ← target
  match operator with
  | .plain =>
    let _ ← value
  | _ =>
    loadOver reference
    let _ ← value
    let _ ← compound operator
  storeOver reference
  return .value .any

def stepOp : Syntax.UpdateOperator → Op
  | .increment => .inc
  | .decrement => .dec

/-- A step of a variable; the old number is kept unless the operator leads. -/
def updateName (operator : Syntax.UpdateOperator) (leading : Bool) (name : String) :
    Emit Emitted := do
  let resolved ← resolve name
  load name resolved
  op .toNumber
  if leading then
    op (stepOp operator)
    op .dup
  else
    op .dup
    op (stepOp operator)
  store name resolved
  return .value .number

def updateMember (operator : Syntax.UpdateOperator) (leading : Bool) (target : Emit Emitted) :
    Emit Emitted := do
  let reference ← target
  loadOver reference
  op .toNumber
  if !leading then
    op .dup
    op <|
      match reference with
      | .property _ => .rot3
      | _ => .rot4
  op (stepOp operator)
  storeOver reference
  if !leading then op .pop
  return .value .number

end Ecma.Compile
