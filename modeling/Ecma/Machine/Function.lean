/-
Function objects: how they are made, called and used as constructors.
-/
import Ecma.Machine.Builtin

namespace Ecma.Action

/-- The prototype of the object that a new function offers as `prototype`. -/
def offeredPrototype (realm : Realm) : Code.FunctionKind → Option ObjectRef
  | .normal => some realm.objectPrototype
  | .generator => some realm.generatorPrototype
  | .script | .module | .arrow | .async | .asyncArrow => none

def createClosure (code : Code.Template) (record : RecordRef) (receiver : Option Value) :
    Action ObjectRef := do
  let ref ← allocWith (← realm).functionPrototype (.function { code, record, receiver })
  change fun heap => heap.defineHidden ref (.string "name") (.string code.name)
  change fun heap =>
    heap.defineHidden ref (.string "length") (.number (Float.ofNat code.paramCount))
  if let some parent := offeredPrototype (← realm) code.kind then
    let prototype ← allocWith parent .ordinary
    if code.kind = .normal then
      change fun heap => heap.defineHidden prototype (.string "constructor") (.object ref)
    change fun heap =>
      (heap.define ref (.string "prototype")
        { value := .object prototype, enumerable := false, configurable := false }).2
  return ref

def constructError (call : Caller) (kind : ErrorKind) (arguments : List Value) :
    Action Value := do
  let ref ← newError kind
  let message := arguments.head?.getD .undefined
  unless message.isUndefined do
    let text ← toText call message
    change fun heap => heap.defineHidden ref (.string "message") (.string text)
  return .object ref

/-- Calls a compiled function; `activate` runs a frame to its end. -/
def callClosure (call : Caller) (run : Runner) (activate : Frame → Action Value)
    (callee : ObjectRef) (closure : Closure) (receiver : Value) (arguments : List Value) :
    Action Value :=
  match closure.code.kind with
  | .generator => startGenerator run callee closure receiver arguments
  | .async | .asyncArrow => startAsync call run callee closure receiver arguments
  | .script | .module | .normal | .arrow =>
    nested (newFrame callee closure receiver arguments >>= activate)

def callValue (call : Caller) (run : Runner) (activate : Frame → Action Value)
    (callee receiver : Value) (arguments : List Value) : Action Value := do
  let refused := look fun heap => Cause.notFunction (heap.describe callee)
  match callee with
  | .object ref =>
    match ← payload ref with
    | .function closure => callClosure call run activate ref closure receiver arguments
    | .builtin builtin => nested (callBuiltin call run builtin receiver arguments)
    | .errorConstructor kind => constructError call kind arguments
    | _ => fail (← refused)
  | _ => fail (← refused)

def construct (call : Caller) (callee : Value) (arguments : List Value) : Action Value := do
  let refused := look fun heap => Cause.notConstructor (heap.describe callee)
  match callee with
  | .object ref =>
    match ← payload ref with
    | .function closure =>
      if closure.code.kind = .normal then
        let prototype ← prototypeOf ref (← realm).objectPrototype
        let object ← allocWith prototype .ordinary
        let result ← call callee (.object object) arguments
        return if result.isObject then result else .object object
      else fail (← refused)
    | .errorConstructor kind => constructError call kind arguments
    | _ => fail (← refused)
  | _ => fail (← refused)

end Ecma.Action
