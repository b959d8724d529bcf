/-
Why an operation of the language fails. A cause has a kind of error and a
message, and is turned into an error object only when a program can see it.
-/
import Ecma.ErrorKind

namespace Ecma

/-- Why an operation fails. Texts of values are part of the cause. -/
inductive Cause where
  -- Names
  /-- A binding was used before its first value. -/
  | uninitialized (name : String)
  | notDefined (name : String)
  | constantAssignment
  /-- A name stands for a property that cannot be written. -/
  | readOnlyName (name : String)
  | alreadyDeclared (name : String)
  | undeclarableFunction (name : String)
  | undeclarableVariable (name : String)
  | notGlobalRecord
  -- Conversions
  | noPrimitive
  | symbolToNumber
  | symbolToText
  | nullishToObject
  -- Properties
  | readOfNullish (base key : String)
  | writeToNullish (base key : String)
  /-- A computed key was used on null or undefined. -/
  | elementOfNullish (action base key : String)
  | readOnlyProperty (key : String)
  | propertyOfPrimitive (key type value : String)
  | searchInPrimitive (key value : String)
  | redefinition (key : String)
  | undeletable (key : String)
  | instanceOfNonCallable
  | instanceOfNoPrototype
  -- Calls
  | notFunction (value : String)
  | notConstructor (value : String)
  -- Iteration
  | notIterable (value : String)
  | iteratorNotObject
  | resultNotObject (value : String)
  | closeNotObject
  -- Methods on receivers they are not made for
  | notArray
  | notIterator
  | notErrorObject
  | notGenerator
  | generatorRunning
  | notPromise
  | promiseCycle
  -- Limits
  | stackLimit
  /-- What is reported when the limit of nested calls is met. -/
  | tooMuchRecursion
  /-- An error that the code itself asks for. -/
  | requested (kind : ErrorKind) (message : String)
  -- Code that no compiled program contains
  | underflow
  | badOperand (op : String)
  | invalidRegister
  | invalidSlot (hops slot : Nat)
  | outermostRecord
  | unitReturn
  | unknownState
  | definitionOnPrimitive
  | suspendOutside
  | prologueDidNotSuspend
  | tailCallFromGenerator
  | notActivation
  | activationRunning
  | awaitWithoutPromise
  deriving DecidableEq, Repr

namespace Cause

def isMalformedCode : Cause → Bool
  | underflow | badOperand _ | invalidRegister | invalidSlot _ _ | outermostRecord | unitReturn
  | unknownState | definitionOnPrimitive | suspendOutside | prologueDidNotSuspend
  | tailCallFromGenerator | notActivation | activationRunning | awaitWithoutPromise => true
  | _ => false

def kind : Cause → ErrorKind
  | uninitialized _ | notDefined _ | invalidSlot _ _ => .referenceError
  | alreadyDeclared _ => .syntaxError
  | stackLimit => .rangeError
  | requested kind _ => kind
  | tooMuchRecursion | underflow | badOperand _ | invalidRegister | outermostRecord | unitReturn
  | unknownState | definitionOnPrimitive | suspendOutside | prologueDidNotSuspend
  | tailCallFromGenerator | notActivation | activationRunning | awaitWithoutPromise =>
    .internalError
  | _ => .typeError

def message : Cause → String
  | uninitialized name => s!"Cannot access '{name}' before initialization"
  | notDefined name => s!"{name} is not defined"
  | constantAssignment => "Assignment to constant variable."
  | readOnlyName name => s!"Cannot assign to read only property '{name}'"
  | alreadyDeclared name => s!"Identifier '{name}' has already been declared"
  | undeclarableFunction name => s!"Cannot declare global function '{name}'"
  | undeclarableVariable name => s!"Cannot declare global variable '{name}'"
  | notGlobalRecord => "not a global environment"
  | noPrimitive => "Cannot convert object to primitive value"
  | symbolToNumber => "Cannot convert a Symbol value to a number"
  | symbolToText => "Cannot convert a Symbol value to a string"
  | nullishToObject => "Cannot convert undefined or null to object"
  | readOfNullish base key => s!"Cannot read properties of {base} (reading '{key}')"
  | writeToNullish base key => s!"Cannot set properties of {base} (setting '{key}')"
  | elementOfNullish action base key => s!"Cannot {action} properties of {base} (key '{key}')"
  | readOnlyProperty key => s!"Cannot assign to read only property '{key}' of object"
  | propertyOfPrimitive key type value => s!"Cannot create property '{key}' on {type} '{value}'"
  | searchInPrimitive key value =>
    s!"Cannot use 'in' operator to search for '{key}' in {value}"
  | redefinition key => s!"Cannot redefine property: {key}"
  | undeletable key => s!"Cannot delete property '{key}'"
  | instanceOfNonCallable => "Right-hand side of 'instanceof' is not callable"
  | instanceOfNoPrototype => "Function has non-object prototype in instanceof check"
  | notFunction value => s!"{value} is not a function"
  | notConstructor value => s!"{value} is not a constructor"
  | notIterable value => s!"{value} is not iterable"
  | iteratorNotObject => "Result of the Symbol.iterator method is not an object"
  | resultNotObject value => s!"Iterator result {value} is not an object"
  | closeNotObject => "iterator.return() did not return an object"
  | notArray => "receiver is not an array"
  | notIterator => "next called on a non-iterator"
  | notErrorObject => "Error.prototype.toString called on a non-object"
  | notGenerator => "not a generator object"
  | generatorRunning => "Generator is already running"
  | notPromise => "Promise.prototype.then called on a non-promise"
  | promiseCycle => "Chaining cycle detected for promise"
  | stackLimit => "Maximum operand stack size exceeded"
  | tooMuchRecursion => "too much recursion"
  | requested _ message => message
  | underflow => "operand stack underflow"
  | badOperand op => s!"bad operand for {op}"
  | invalidRegister => "invalid register"
  | invalidSlot hops slot => s!"invalid slot {hops}:{slot}"
  | outermostRecord => "popped the outermost environment"
  | unitReturn => "unit return without a call"
  | unknownState => "unknown resume state"
  | definitionOnPrimitive => "property definition on a primitive"
  | suspendOutside => "suspend outside a coroutine"
  | prologueDidNotSuspend => "generator prologue did not suspend"
  | tailCallFromGenerator => "tail call from a generator body"
  | notActivation => "resumed object is not an async activation"
  | activationRunning => "async activation resumed while running"
  | awaitWithoutPromise => "await suspended without a promise"

end Cause

end Ecma
