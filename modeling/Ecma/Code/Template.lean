/-
Compiled functions. A template holds the instructions of one function and the
tables they refer to; every function made from the same text shares it.
-/
import Ecma.Code.Op
import Ecma.ErrorKind
import Ecma.Number.Integer

namespace Ecma.Code

/-- What a template was compiled from. -/
inductive FunctionKind where
  | script | module | normal | arrow | generator | async | asyncArrow
  deriving DecidableEq, Repr, Inhabited

namespace FunctionKind

def isResumable : FunctionKind → Bool
  | generator | async | asyncArrow => true
  | script | module | normal | arrow => false

/-- Functions that take their receiver from outside. -/
def isArrow : FunctionKind → Bool
  | arrow | asyncArrow => true
  | _ => false

def isAsync : FunctionKind → Bool
  | async | asyncArrow => true
  | _ => false

def name : FunctionKind → String
  | script => "Script"
  | module => "Module"
  | normal => "Normal"
  | arrow => "Arrow"
  | generator => "Generator"
  | async => "Async"
  | asyncArrow => "AsyncArrow"

def all : List FunctionKind := [script, module, normal, arrow, generator, async, asyncArrow]

end FunctionKind

inductive Constant where
  | number (value : Float)
  | string (value : String)

/-- What an instruction says besides its operation. -/
inductive Operand where
  | constant (index : Nat)
  | name (index : Nat)
  /-- A name with a flag whose meaning depends on the operation. -/
  | binding (name : Nat) (flag : Bool)
  /-- A slot of the record `hops` records out. -/
  | slot (hops slot : Nat)
  | register (index : Nat)
  /-- A target that has no position yet. -/
  | label (label : Nat)
  | jump (target : Nat)
  | argCount (count : Nat)
  | count (count : Nat)
  | function (index : Nat)
  | unit (index : Nat)
  | table (index : Nat)
  /-- The number of a suspension. -/
  | state (index : Nat)
  | flag (value : Bool)
  /-- An error, with the index of its message. -/
  | error (kind : ErrorKind) (message : Nat)
  deriving DecidableEq, Repr

structure Instruction where
  op : Op
  operand : Option Operand := none
  deriving DecidableEq, Repr

/-- What happens when an exception passes a protected range. -/
inductive HandlerKind where
  /-- The target takes the exception's value. -/
  | catches
  /-- The target runs with the exception kept in a register. -/
  | finalizes (register : Nat)
  /-- The exception kept in a register is recorded as superseded. -/
  | supersedes (register : Nat)
  | closes (register : Nat)
  deriving DecidableEq, Repr

def HandlerKind.takesControl : HandlerKind → Bool
  | catches | finalizes _ => true
  | supersedes _ | closes _ => false

/-- A protected range of instructions, its end not included. -/
structure Handler where
  start : Nat
  stop : Nat
  target : Nat
  kind : HandlerKind
  deriving DecidableEq, Repr

/-- Whether an instruction is protected. -/
def Handler.covers (handler : Handler) (position : Nat) : Bool :=
  handler.start ≤ position && position < handler.stop

/-- The cases of a switch table, all numbers or all strings. -/
inductive SwitchCases where
  | numbers (cases : List (Int × Nat))
  | strings (cases : List (String × Nat))
  deriving DecidableEq, Repr

/-- Positions by value. -/
structure SwitchTable where
  cases : SwitchCases
  default : Nat
  deriving DecidableEq, Repr

namespace SwitchTable

/-- The position for a number: that of the first case with its value. Zeros are
equal, and a value that is no integer of 32 bits has no case. -/
def numberTarget (table : SwitchTable) (value : Float) : Nat :=
  match table.cases with
  | .strings _ => table.default
  | .numbers cases =>
    match Number.integerIn? Number.minInt32 Number.maxInt32 value with
    | none => table.default
    | some key => (cases.lookup key).getD table.default

def stringTarget (table : SwitchTable) (value : String) : Nat :=
  match table.cases with
  | .strings cases => (cases.lookup value).getD table.default
  | .numbers _ => table.default

end SwitchTable

structure Template where
  name : String := ""
  kind : FunctionKind := .script
  paramCount : Nat := 0
  strict : Bool := false
  instructions : Array Instruction := #[]
  constants : Array Constant := #[]
  functions : List Template := []
  /-- Protected ranges, innermost first. -/
  handlers : List Handler := []
  /-- Where each suspension continues. -/
  resume : Array Nat := #[]
  /-- Where each unit that stands apart begins. -/
  units : Array Nat := #[]
  tables : Array SwitchTable := #[]
  registers : Nat := 0

namespace Template

instance : Inhabited Template := ⟨{}⟩

/-- The name with an index; the empty name if there is none. -/
def nameAt (template : Template) (index : Nat) : String :=
  match template.constants[index]? with
  | some (.string name) => name
  | _ => ""

mutual

/-- The number of instructions, nested functions included. -/
def size : Template → Nat
  | ⟨_, _, _, _, instructions, _, functions, _, _, _, _, _⟩ =>
    instructions.size + sizeOfAll functions

def sizeOfAll : List Template → Nat
  | [] => 0
  | template :: rest => template.size + sizeOfAll rest

end

mutual

/-- A template and those nested in it, each before its own. -/
def flatten : Template → List Template
  | ⟨name, kind, paramCount, strict, instructions, constants, functions, handlers, resume,
      units, tables, registers⟩ =>
    ⟨name, kind, paramCount, strict, instructions, constants, functions, handlers, resume,
      units, tables, registers⟩ :: flattenAll functions

def flattenAll : List Template → List Template
  | [] => []
  | template :: rest => template.flatten ++ flattenAll rest

end

end Template

end Ecma.Code
