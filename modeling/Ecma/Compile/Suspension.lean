/-
Code for functions that pause: `yield`, delegation and `await`. After each
suspension the code looks at how it was resumed, with a value, an exception or
a return.
-/
import Ecma.Compile.Control
import Ecma.Compile.Reference

namespace Ecma.Compile

open Code

/-- A suspension that continues right after it. -/
def suspend : Emit Unit := do
  let resume ← newLabel
  opWith .suspend (.state (← onDraft fun draft => draft.addResume resume))
  place resume

/-- The first suspension of a generator, once its declarations are made. The
value sent with the first resumption is dropped. -/
def generatorStart : Emit Unit := do
  op .pushUndefined
  suspend
  op .resumeValue
  op .pop

/-- Returns the value on top of the stack through the constructs around. -/
def returnFromStack : Emit Unit := do
  opRegister .storeReg (← returnRegister)
  op .clearStack
  exitTo .function

def yieldOf (value : Emit Unit) : Emit Emitted := do
  value
  opWith .createIterResult (.flag false)
  suspend
  let onReturn ← newLabel
  let resumed ← newLabel
  op .throwAfterResume
  jump .returnAfterResume onReturn
  op .resumeValue
  jump .jump resumed
  place onReturn
  returnFromStack
  place resumed
  return .value .any

/-- Keeps what was sent in a register and hands it to a method of the inner
iterator; goes to `missing`, with the method on the stack, if there is none. -/
def forwardTo (method : String) (iterator received : Nat) (missing : Label) : Emit Unit := do
  op .resumeValue
  opRegister .storeReg received
  opRegister .loadReg iterator
  opName .getMethod method
  op .dup
  op .isNullish
  jump .jumpIfTrue missing
  opRegister .loadReg iterator
  opRegister .loadReg received
  opWith .call (.argCount 1)
  op .requireObject

def throwNewError (kind : ErrorKind) (message : String) : Emit Unit := do
  opWith .throwNewError (.error kind (← onDraft fun draft => draft.addName message))

/-- Hands an exception to the inner iterator, which is closed if it cannot take
it. -/
def handThrow (iterator received : Nat) (check : Label) : Emit Unit := do
  let noThrow ← newLabel
  forwardTo "throw" iterator received noThrow
  jump .jump check
  place noThrow
  op .pop
  opRegister .loadReg iterator
  op .iteratorClose
  throwNewError .typeError "iterator.throw is not callable"

/-- Hands a return to the inner iterator; it takes effect once that is done, or if
it cannot take it. -/
def handReturn (iterator received : Nat) (outerYield : Label) : Emit Unit := do
  let noReturn ← newLabel
  forwardTo "return" iterator received noReturn
  op .dup
  op .iteratorComplete
  jump .jumpIfFalse outerYield
  op .iteratorValue
  returnFromStack
  place noReturn
  op .pop
  opRegister .loadReg received
  returnFromStack

/-- Delegation to an inner iterator: every resumption is handed on to it until it
is done. Its results pass unchanged. -/
def delegateTo (iterable : Emit ValueType) : Emit Emitted := do
  let iterator ← newRegister
  let received ← newRegister
  let _ ← iterable
  op .getIterator
  opRegister .storeReg iterator
  op .pushUndefined
  opRegister .storeReg received
  let next ← newLabel
  let check ← newLabel
  let outerYield ← newLabel
  let onThrow ← newLabel
  let onReturn ← newLabel
  let done ← newLabel
  place next
  opRegister .loadReg iterator
  opRegister .loadReg received
  op .iteratorNext
  place check
  op .dup
  op .iteratorComplete
  jump .jumpIfTrue done
  place outerYield
  suspend
  jump .jumpIfResumeThrow onThrow
  jump .jumpIfResumeReturn onReturn
  op .resumeValue
  opRegister .storeReg received
  jump .jump next
  place onThrow
  handThrow iterator received check
  place onReturn
  handReturn iterator received outerYield
  place done
  op .iteratorValue
  return .value .any

/-- A `yield` where it stands: only in a generator, and with an operand if it
delegates. -/
def yieldForm (argument : Option (Emit ValueType)) (delegate : Bool) : Emit Emitted := do
  if (← read).kind != .generator then throw .yieldOutsideGenerator
  match argument, delegate with
  | some iterable, true => delegateTo iterable
  | none, true => throw .delegateWithoutOperand
  | some value, false => yieldOf do let _ ← value
  | none, false => yieldOf (op .pushUndefined)

/-- An `await`: pauses on a promise of the value; a rejection comes back as an
exception. -/
def awaitForm (value : Emit ValueType) : Emit Emitted := do
  if !(← read).kind.isAsync then throw .awaitOutsideAsync
  let _ ← value
  op .await
  suspend
  op .throwAfterResume
  op .resumeValue
  return .value .any

end Ecma.Compile
