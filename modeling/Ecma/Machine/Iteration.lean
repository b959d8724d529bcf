/-
The protocol of iterators: an object with a `next` method gives results, each
with a value or the mark that it is done.
-/
import Ecma.Machine.Conversion

namespace Ecma.Action

variable (call : Caller)

def iterResult (value : Value) (done : Bool) : Action Value := do
  let ref ← allocWith (← realm).objectPrototype .ordinary
  change fun heap => (heap.set ref (.string "value") value).2
  change fun heap => (heap.set ref (.string "done") (.boolean done)).2
  return .object ref

def getIterator (value : Value) : Action Value := do
  let method ← getMethod value (.symbol (← realm).iteratorSymbol)
  if method.isUndefined then fail (.notIterable (← look fun heap => heap.describe value))
  let iterator ← call method value []
  unless iterator.isObject do fail .iteratorNotObject
  return iterator

def requireObject (value : Value) : Action Value := do
  unless value.isObject do fail (.resultNotObject (← look fun heap => heap.describe value))
  return value

/-- The next result of an iterator, which may be sent a value. -/
def iteratorNext (iterator : Value) (sent : Option Value) : Action Value := do
  let next ← getNamed iterator "next"
  requireObject (← call next iterator sent.toList)

def iteratorComplete (result : Value) : Action Bool := return (← getNamed result "done").truth

def iteratorValue (result : Value) : Action Value := getNamed result "value"

/-- Tells an iterator that no more results are wanted. -/
def iteratorClose (iterator : Value) : Action Unit := do
  let method ← getMethod iterator (.string "return")
  unless method.isUndefined do
    unless (← call method iterator []).isObject do fail .closeNotObject

/-- A new iterator over the names that enumeration visits; null and undefined have
none. -/
def enumerate (value : Value) : Action Value := do
  let names ←
    if value.isNullish then pure []
    else
      let ref ← toObject value
      look fun heap => heap.enumerableNames ref
  let iterator ← allocWith (← realm).arrayIteratorPrototype
    (.listIterator (names.map Value.string) 0)
  return .object iterator

end Ecma.Action
