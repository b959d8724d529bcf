/-
The objects that every program finds: prototypes, their methods, the error
constructors and the global object. They are made in a fixed order.
-/
import Ecma.Machine.Basic

namespace Ecma

namespace Realm

abbrev Construction (α : Type) : Type := StateM Heap α

namespace Construction

def allocWith (prototype : Option ObjectRef) (payload : Payload) : Construction ObjectRef :=
  modifyGet fun heap => heap.alloc { prototype, payload }

def alloc (prototype : Option ObjectRef) : Construction ObjectRef := allocWith prototype .ordinary

/-- Defines a property that enumeration skips. -/
def hide (target : ObjectRef) (key : PropertyKey) (value : Value) : Construction Unit :=
  modify fun heap => heap.defineHidden target key value

/-- Defines a property that cannot be changed. -/
def freeze (target : ObjectRef) (name : String) (value : Value) : Construction Unit :=
  modify fun heap => (heap.define target (.string name) (.frozen value)).2

def function (functionPrototype : ObjectRef) (builtin : Builtin) : Construction ObjectRef := do
  let ref ← allocWith (some functionPrototype) (.builtin builtin)
  hide ref (.string "name") (.string builtin.name)
  return ref

def methods (functionPrototype target : ObjectRef) (builtins : List Builtin) :
    Construction Unit :=
  builtins.forM fun builtin => do
    let ref ← function functionPrototype builtin
    hide target (.string builtin.name) (.object ref)

def errorKind (functionPrototype globalObject parent : ObjectRef) (kind : ErrorKind) :
    Construction ObjectRef := do
  let prototype ← alloc (some parent)
  if kind = .error then
    methods functionPrototype prototype [.errorToString]
    hide prototype (.string "message") (.string "")
  hide prototype (.string "name") (.string kind.name)
  let constructor ← allocWith (some functionPrototype) (.errorConstructor kind)
  freeze constructor "prototype" (.object prototype)
  hide constructor (.string "name") (.string kind.name)
  hide prototype (.string "constructor") (.object constructor)
  hide globalObject (.string kind.name) (.object constructor)
  return prototype

end Construction

open Construction in
/-- Makes the objects that every program finds. -/
def construct : Construction Realm := do
  let objectPrototype ← alloc none
  let functionPrototype ← alloc (some objectPrototype)
  let globalObject ← alloc (some objectPrototype)
  let globalRecord ← modifyGet fun heap => heap.allocRecord (.global globalObject [] [])
  let iteratorSymbol ← modifyGet fun heap => heap.addSymbol "Symbol.iterator"
  methods functionPrototype objectPrototype [.objectToString, .objectValueOf]
  let iteratorPrototype ← alloc (some objectPrototype)
  let iteratorSelf ← function functionPrototype .iteratorSelf
  hide iteratorPrototype (.symbol iteratorSymbol) (.object iteratorSelf)
  let arrayIteratorPrototype ← alloc (some iteratorPrototype)
  methods functionPrototype arrayIteratorPrototype [.arrayIteratorNext]
  let arrayPrototype ← allocWith (some objectPrototype) (.array #[])
  methods functionPrototype arrayPrototype [.arrayPush, .arrayJoin, .arrayToString]
  let arrayValues ← function functionPrototype .arrayValues
  hide arrayPrototype (.string "values") (.object arrayValues)
  hide arrayPrototype (.symbol iteratorSymbol) (.object arrayValues)
  let generatorPrototype ← alloc (some iteratorPrototype)
  methods functionPrototype generatorPrototype [.generatorNext, .generatorThrow, .generatorReturn]
  let promisePrototype ← alloc (some objectPrototype)
  methods functionPrototype promisePrototype [.promiseThen]
  let promise ← alloc (some objectPrototype)
  methods functionPrototype promise [.promiseResolve, .promiseReject]
  hide promise (.string "prototype") (.object promisePrototype)
  hide globalObject (.string "Promise") (.object promise)
  let error ← errorKind functionPrototype globalObject objectPrototype .error
  let typeError ← errorKind functionPrototype globalObject error .typeError
  let referenceError ← errorKind functionPrototype globalObject error .referenceError
  let syntaxError ← errorKind functionPrototype globalObject error .syntaxError
  let rangeError ← errorKind functionPrototype globalObject error .rangeError
  let internalError ← errorKind functionPrototype globalObject error .internalError
  let symbol ← alloc (some objectPrototype)
  freeze symbol "iterator" (.symbol iteratorSymbol)
  hide globalObject (.string "Symbol") (.object symbol)
  let print ← function functionPrototype .print
  hide globalObject (.string "print") (.object print)
  hide globalObject (.string "globalThis") (.object globalObject)
  freeze globalObject "undefined" .undefined
  freeze globalObject "NaN" (.number Number.nan)
  freeze globalObject "Infinity" (.number (Number.infinity false))
  return {
    globalObject, globalRecord, objectPrototype, functionPrototype, arrayPrototype
    arrayIteratorPrototype, generatorPrototype, promisePrototype, arrayValues, iteratorSymbol
    errorPrototype := fun
      | .error => error
      | .typeError => typeError
      | .referenceError => referenceError
      | .syntaxError => syntaxError
      | .rangeError => rangeError
      | .internalError => internalError }

end Realm

def Machine.new (limits : Limits) : Machine :=
  let (realm, heap) := Realm.construct.run {}
  { heap, realm, limits }

end Ecma
