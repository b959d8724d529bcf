/-
Variables and properties: what an expression leaves behind before it is read,
and the code that reads, stores, deletes or asks for the type of it.
-/
import Ecma.Compile.Emitter
import Ecma.Compile.ValueType

namespace Ecma.Compile

open Code

/-- What the code of an expression leaves behind. -/
inductive Emitted where
  | value (type : ValueType)
  /-- A variable; nothing is on the stack. -/
  | binding (name : String) (resolved : Resolved)
  /-- A property by the index of its name; its object is on the stack. -/
  | property (name : Nat)
  /-- A computed property; its object and key are on the stack. -/
  | element

/-- What is known about the value left behind. -/
def Emitted.type : Emitted → ValueType
  | .value type => type
  | .binding _ _ | .property _ | .element => .reference

/-- The name of a property: fixed, or computed by code. -/
inductive Key where
  | named (name : String)
  | computed (key : Emit ValueType)

/-! ## Variables -/

def load (name : String) (resolved : Resolved) : Emit Unit :=
  match resolved.resolution with
  | .static _ hops slot =>
    opWith (if resolved.needsCheck then .getSlotChecked else .getSlot) (.slot hops slot)
  | .global => opName .getGlobal name
  | .dynamic | .unresolved => opName .getName name

def store (name : String) (resolved : Resolved) : Emit Unit := do
  match resolved.resolution with
  | .static _ hops slot => opWith .setSlot (.slot hops slot)
  | .global => opBinding .setGlobal name (← read).strict
  | .dynamic | .unresolved => opBinding .setName name (← read).strict

/-- Pops into a variable as seen from here. -/
def storeName (name : String) : Emit Unit := do
  store name (← resolve name)

/-- Pops the first value of a lexical binding. -/
def initializeName (name : String) : Emit Unit := do
  match (← resolve name).resolution with
  | .static _ hops slot => opWith .initializeBinding (.slot hops slot)
  | .global => opName .initGlobal name
  | .dynamic | .unresolved => throw (.lexicalNotStatic name)

/-- Pushes the type of a variable, which may be unbound. -/
def typeOfName (name : String) : Emit Unit := do
  let resolved ← resolve name
  match resolved.resolution with
  | .static _ _ _ =>
    load name resolved
    op .typeof
  | .global => opName .typeofGlobal name
  | .dynamic | .unresolved => opName .typeofName name

/-- Pushes whether a variable could be deleted; one that is found by its slot
cannot. -/
def deleteName (name : String) : Emit Unit := do
  match (← resolve name).resolution with
  | .static _ _ _ => op .pushFalse
  | _ => opName .deleteName name

/-- Pushes the function that a name stands for and the object it is called on. -/
def loadCallee (name : String) : Emit Unit := do
  let resolved ← resolve name
  match resolved.resolution with
  | .dynamic | .unresolved => opName .getNameWithThis name
  | .static _ _ _ | .global =>
    load name resolved
    op .pushUndefined

/-! ## Values -/

/-- Reads what an expression left behind. -/
def read? : Emitted → Emit ValueType
  | .value type => return type
  | .binding name resolved => do
    load name resolved
    return .any
  | .property name => do
    opWith .getProp (.name name)
    return .any
  | .element => do
    op .getElem
    return .any

/-- The code of an expression, up to its value. -/
def valueOf (code : Emit Emitted) : Emit ValueType := do
  read? (← code)

/-- The code of an expression, up to a value that is stored or passed on. -/
def storedOf (code : Emit Emitted) : Emit ValueType := do
  return (← valueOf code).stored

/-! ## Conversions that the type makes needless -/

def toBoolean (type : ValueType) : Emit Unit :=
  if type == .boolean then pure () else op .toBoolean

def toNumber (type : ValueType) : Emit Unit :=
  if type.isNumeric then pure () else op .toNumber

def toPrimitive (type : ValueType) : Emit Unit :=
  if type.isPrimitive then pure () else op .toPrimitive

def toText (type : ValueType) : Emit Unit :=
  if type == .string then pure () else op .toText

/-- Converts to a property key; strings and numbers are left to the access. -/
def toPropertyKey (type : ValueType) : Emit Unit :=
  if type == .string || type.isNumeric then pure () else op .toPropertyKey

/-! ## Properties -/

def pushKey (key : Emit ValueType) : Emit Unit := do
  toPropertyKey (← key)

/-- A property that has not been read yet. -/
def memberOf (object : Emit ValueType) : Key → Emit Emitted
  | .named name => do
    let _ ← object
    return .property (← onDraft fun draft => draft.addName name)
  | .computed key => do
    let _ ← object
    pushKey key
    return .element

/-- Pushes whether a property could be deleted. -/
def deleteMember (object : Emit ValueType) (key : Key) : Emit Unit := do
  let _ ← object
  match key with
  | .named name => opName .deleteProp name
  | .computed key =>
    pushKey key
    op .deleteElem

def loadMethod (object : Emit ValueType) (key : Key) : Emit Unit := do
  let _ ← object
  op .dup
  match key with
  | .named name => opName .getProp name
  | .computed key =>
    pushKey key
    op .getElem
  op .swap

/-- Pops a value that lies under nothing into a property. -/
def storeMember (object : Emit ValueType) (key : Key) : Emit Unit := do
  let _ ← object
  match key with
  | .named name =>
    let index ← onDraft fun draft => draft.addName name
    op .swap
    opWith .setProp (.name index)
  | .computed key =>
    pushKey key
    op .rot3
    op .rot3
    op .setElem
  op .pop

end Ecma.Compile
