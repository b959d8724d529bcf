/-
The operations of the machine. Each takes its operands from a stack, and some
also from the instruction.
-/
import Ecma.Number.Integer
import Ecma.Syntax.Operator

namespace Ecma.Code

inductive Op where
  -- The operand stack
  /-- `a` is dropped. -/
  | pop
  /-- `a` becomes `a a`. -/
  | dup
  /-- `a b` becomes `a b a b`. -/
  | dup2
  /-- `a b` becomes `b a`. -/
  | swap
  /-- `a b c` becomes `c a b`. -/
  | rot3
  /-- `a b c d` becomes `d a b c`. -/
  | rot4
  | clearStack
  | const
  | pushUndefined
  | pushNull
  | pushTrue
  | pushFalse
  /-- Pushes a register, undefined if it is empty. -/
  | loadReg
  /-- Pops into a register. -/
  | storeReg
  -- Environment records
  /-- Enters an empty record. -/
  | pushBlockEnv
  | popEnv
  /-- Replaces the innermost record by a copy. -/
  | copyEnv
  /-- Keeps the current record in a register. -/
  | saveEnv
  /-- Returns to the record in a register. -/
  | restoreEnv
  /-- Pops an object and enters its record. -/
  | pushWithEnv
  /-- Adds an uninitialised binding; the flag makes it deletable. -/
  | createMutableBinding
  /-- Adds an uninitialised constant; the flag makes it strict. -/
  | createImmutableBinding
  /-- Pops the first value of a slot. -/
  | initializeBinding
  -- Variables
  /-- Pushes a slot that is known to be initialised. -/
  | getSlot
  | getSlotChecked
  | setSlot
  /-- Pushes the value of a name along the chain of records. -/
  | getName
  /-- Pushes the value of a name and the object it is called on. -/
  | getNameWithThis
  /-- Pops into a name; the flag says strict. -/
  | setName
  | deleteName
  /-- Pushes the type of a name, which may be unbound. -/
  | typeofName
  | getGlobal
  /-- Pops into a global; the flag says strict. -/
  | setGlobal
  /-- Pops the first value of a global lexical binding. -/
  | initGlobal
  /-- Pushes the type of a global, which may be unbound. -/
  | typeofGlobal
  -- Declarations of a script
  | checkGlobalLexical
  /-- A variable must not meet a lexical name. -/
  | checkGlobalVar
  | checkGlobalFunction
  | checkGlobalVarDeclarable
  /-- Pops the value of a function; the flag makes it deletable. -/
  | createGlobalFunction
  /-- Declares a variable; the flag makes it deletable. -/
  | createGlobalVar
  /-- Declares a lexical name; the flag makes it constant. -/
  | createGlobalLexical
  -- Functions
  | loadImport
  /-- Runs a unit that stands apart and comes back. -/
  | callUnit
  | returnUnit
  /-- Pushes a function over the current record. -/
  | closure
  /-- Pushes an argument, undefined if it is absent. -/
  | loadArg
  | loadCallee
  | createArguments
  | this
  /-- Pops function, receiver and arguments, pushes the result. -/
  | call
  /-- Calls in place of the present function. -/
  | tailCall
  /-- Pops function and arguments, pushes the new object. -/
  | construct
  /-- Pops the result of the function. -/
  | returnValue
  -- Properties
  | getProp
  | getElem
  | setProp
  | setElem
  | deleteProp
  | deleteElem
  | newObject
  /-- Pops a value into a new property of the object below. -/
  | defineField
  /-- Pops value and key into a new property of the object below. -/
  | defineComputed
  | newArray
  -- Operators
  /-- Sum of numbers, or strings joined. -/
  | add
  | concat
  | arithmetic (operator : Number.Arithmetic)
  | neg
  | bitNot
  | not
  | inc
  | dec
  | relation (relation : Syntax.Relation)
  | typeof
  /-- Whether a value is null or undefined. -/
  | isNullish
  -- Conversions
  | toBoolean
  | toNumber
  | toInt32
  | toUint32
  | toText
  | toObject
  | toPropertyKey
  | toPrimitive
  -- Control
  | jump
  | jumpIfTrue
  | jumpIfFalse
  | switchTable
  | throwValue
  | throwNewError
  /-- Throws the exception kept in a register. -/
  | rethrow
  -- Suspension
  /-- Jumps to where the function was suspended. -/
  | resumeDispatch
  /-- Pops a value for whoever resumes. -/
  | suspend
  | throwAfterResume
  | returnAfterResume
  | jumpIfResumeThrow
  | jumpIfResumeReturn
  | resumeValue
  /-- Makes a promise of a value. -/
  | await
  /-- Wraps a value as the result of an iterator. -/
  | createIterResult
  -- Iteration
  | getIterator
  | iteratorNext
  | iteratorComplete
  | iteratorValue
  | iteratorClose
  /-- Pops an object, pushes a method or undefined. -/
  | getMethod
  /-- Throws unless the value is an object. -/
  | requireObject
  /-- Pops an object, pushes an iterator over its keys. -/
  | enumerateKeys
  | nop
  deriving DecidableEq, Repr

namespace Op

def arithmeticName : Number.Arithmetic → String
  | .sub => "Sub"
  | .mul => "Mul"
  | .div => "Div"
  | .rem => "Mod"
  | .pow => "Exp"
  | .and => "BitAnd"
  | .or => "BitOr"
  | .xor => "BitXor"
  | .shiftLeft => "Shl"
  | .shiftRight => "Shr"
  | .shiftRightZero => "UShr"

def relationName : Syntax.Relation → String
  | .equal => "Eq"
  | .notEqual => "Ne"
  | .strictEqual => "StrictEq"
  | .strictNotEqual => "StrictNe"
  | .less => "Lt"
  | .lessEqual => "Le"
  | .greater => "Gt"
  | .greaterEqual => "Ge"
  | .within => "In"
  | .instanceOf => "InstanceOf"

def name : Op → String
  | pop => "Pop"
  | dup => "Dup"
  | dup2 => "Dup2"
  | swap => "Swap"
  | rot3 => "Rot3"
  | rot4 => "Rot4"
  | clearStack => "ClearStack"
  | const => "Const"
  | pushUndefined => "Undefined"
  | pushNull => "Null"
  | pushTrue => "True"
  | pushFalse => "False"
  | loadReg => "LoadReg"
  | storeReg => "StoreReg"
  | pushBlockEnv => "PushBlockEnv"
  | popEnv => "PopEnv"
  | copyEnv => "CopyEnv"
  | saveEnv => "SaveEnv"
  | restoreEnv => "RestoreEnv"
  | pushWithEnv => "PushWithEnv"
  | createMutableBinding => "CreateMutableBinding"
  | createImmutableBinding => "CreateImmutableBinding"
  | initializeBinding => "InitializeBinding"
  | getSlot => "GetSlot"
  | getSlotChecked => "GetSlotChecked"
  | setSlot => "SetSlot"
  | getName => "GetName"
  | getNameWithThis => "GetNameWithThis"
  | setName => "SetName"
  | deleteName => "DeleteName"
  | typeofName => "TypeofName"
  | getGlobal => "GetGlobal"
  | setGlobal => "SetGlobal"
  | initGlobal => "InitGlobal"
  | typeofGlobal => "TypeofGlobal"
  | checkGlobalLexical => "CheckGlobalLexical"
  | checkGlobalVar => "CheckGlobalVar"
  | checkGlobalFunction => "CheckGlobalFunction"
  | checkGlobalVarDeclarable => "CheckGlobalVarDeclarable"
  | createGlobalFunction => "CreateGlobalFunction"
  | createGlobalVar => "CreateGlobalVar"
  | createGlobalLexical => "CreateGlobalLexical"
  | loadImport => "LoadImport"
  | callUnit => "CallUnit"
  | returnUnit => "ReturnUnit"
  | closure => "Closure"
  | loadArg => "LoadArg"
  | loadCallee => "LoadCallee"
  | createArguments => "CreateArguments"
  | this => "This"
  | call => "Call"
  | tailCall => "TailCall"
  | construct => "New"
  | returnValue => "Return"
  | getProp => "GetProp"
  | getElem => "GetElem"
  | setProp => "SetProp"
  | setElem => "SetElem"
  | deleteProp => "DeleteProp"
  | deleteElem => "DeleteElem"
  | newObject => "NewObject"
  | defineField => "DefineField"
  | defineComputed => "DefineComputed"
  | newArray => "NewArray"
  | add => "Add"
  | concat => "Concat"
  | neg => "Neg"
  | bitNot => "BitNot"
  | not => "Not"
  | inc => "Inc"
  | dec => "Dec"
  | typeof => "Typeof"
  | isNullish => "IsNullish"
  | toBoolean => "ToBoolean"
  | toNumber => "ToNumber"
  | toInt32 => "ToInt32"
  | toUint32 => "ToUint32"
  | toText => "ToString"
  | toObject => "ToObject"
  | toPropertyKey => "ToPropertyKey"
  | toPrimitive => "ToPrimitive"
  | jump => "Jump"
  | jumpIfTrue => "JumpIfTrue"
  | jumpIfFalse => "JumpIfFalse"
  | switchTable => "SwitchTable"
  | throwValue => "Throw"
  | throwNewError => "ThrowError"
  | rethrow => "Rethrow"
  | resumeDispatch => "ResumeDispatch"
  | suspend => "Suspend"
  | throwAfterResume => "ThrowAfterResume"
  | returnAfterResume => "ReturnAfterResume"
  | jumpIfResumeThrow => "JumpIfResumeThrow"
  | jumpIfResumeReturn => "JumpIfResumeReturn"
  | resumeValue => "ResumeValue"
  | await => "Await"
  | createIterResult => "CreateIterResult"
  | getIterator => "GetIterator"
  | iteratorNext => "IteratorNext"
  | iteratorComplete => "IteratorComplete"
  | iteratorValue => "IteratorValue"
  | iteratorClose => "IteratorClose"
  | getMethod => "GetMethod"
  | requireObject => "RequireObject"
  | enumerateKeys => "EnumerateKeys"
  | nop => "Nop"
  | arithmetic operator => arithmeticName operator
  | relation r => relationName r

/-- Every operation without a part of its own. -/
def plain : List Op :=
  [pop, dup, dup2, swap, rot3, rot4, clearStack, const, pushUndefined, pushNull, pushTrue,
    pushFalse, loadReg, storeReg, pushBlockEnv, popEnv, copyEnv, saveEnv, restoreEnv,
    pushWithEnv, createMutableBinding, createImmutableBinding, initializeBinding, getSlot,
    getSlotChecked, setSlot, getName, getNameWithThis, setName, deleteName, typeofName,
    getGlobal, setGlobal, initGlobal, typeofGlobal, checkGlobalLexical, checkGlobalVar,
    checkGlobalFunction, checkGlobalVarDeclarable, createGlobalFunction, createGlobalVar,
    createGlobalLexical, loadImport, callUnit, returnUnit, closure, loadArg, loadCallee,
    createArguments, this, call, tailCall, construct, returnValue, getProp, getElem, setProp,
    setElem, deleteProp, deleteElem, newObject, defineField, defineComputed, newArray, add,
    concat, neg, bitNot, not, inc, dec, typeof, isNullish, toBoolean, toNumber, toInt32,
    toUint32, toText, toObject, toPropertyKey, toPrimitive, jump, jumpIfTrue, jumpIfFalse,
    switchTable, throwValue, throwNewError, rethrow, resumeDispatch, suspend, throwAfterResume,
    returnAfterResume, jumpIfResumeThrow, jumpIfResumeReturn, resumeValue, await,
    createIterResult, getIterator, iteratorNext, iteratorComplete, iteratorValue,
    iteratorClose, getMethod, requireObject, enumerateKeys, nop]

def all : List Op :=
  plain ++ Syntax.allArithmetic.map arithmetic ++ Syntax.Relation.all.map relation

def ofName? (name : String) : Option Op := all.find? fun op => op.name == name

end Op

end Ecma.Code
