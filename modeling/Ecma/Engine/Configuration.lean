/-
The choices of an engine as TOML documents: two tables with fields that all may
be left out. A document is read by itself, or laid over the choices there are.
-/
import Ecma.Engine.Basic
import Ecma.Engine.Files
import Ecma.Toml.Reader

namespace Ecma

open Toml (Table)

/-- Why the choices of a document cannot be used. -/
inductive ConfigurationError where
  | notDocument
  | field (name : String)
  | tooLarge (size : Nat)
  deriving DecidableEq, Repr

def ConfigurationError.failure : ConfigurationError → Failure
  | notDocument | field _ => .configuration
  | tooLarge size => .unwritable size

namespace Options

/-! ## Reading -/

/-- The size in a field, or the size for documents without the field. -/
def sizeAt (table : Table) (name : String) (otherwise : Nat) : Except ConfigurationError Nat :=
  match table.lookup name with
  | none => .ok otherwise
  | some (.integer (.ofNat value)) => .ok value
  | some _ => .error (.field name)

/-- The switch in a field, or the one for documents without the field. -/
def switchAt (table : Table) (name : String) (otherwise : Bool) :
    Except ConfigurationError Bool :=
  match table.lookup name with
  | none => .ok otherwise
  | some (.boolean value) => .ok value
  | some _ => .error (.field name)

/-- The names of the fields of a table, in their order. -/
abbrev Fields : Type := List String

def compileFields : Fields := ["block_inline_limit", "tail_calls", "int_switch_min_cases"]

def limitFields : Fields := ["max_call_depth", "max_stack_size"]

/-- The table in a field; it is empty if the field is left out. An array gives the
fields in their order, and a moment gives none. Where nothing may be left over, an
array has no more items than there are fields, and a moment is no table. -/
def tableAt (strict : Bool) (fields : Fields) (table : Table) (name : String) :
    Except ConfigurationError Table :=
  match table.lookup name with
  | none => .ok []
  | some (.table entries) => .ok entries
  | some (.array items) =>
    if strict && items.length > fields.length then .error (.field name)
    else .ok (fields.zip items)
  | some (.moment _) => if strict then .error (.field name) else .ok []
  | some _ => .error (.field name)

def compileOfTable (table : Table) : Except ConfigurationError Compile.Options := do
  let standard : Compile.Options := {}
  return {
    blockInlineLimit := ← sizeAt table "block_inline_limit" standard.blockInlineLimit
    tailCalls := ← switchAt table "tail_calls" standard.tailCalls
    switchMinCases := ← sizeAt table "int_switch_min_cases" standard.switchMinCases }

def limitsOfTable (table : Table) : Except ConfigurationError Limits := do
  let standard : Limits := {}
  return {
    callDepth := ← sizeAt table "max_call_depth" standard.callDepth
    stackSize := ← sizeAt table "max_stack_size" standard.stackSize }

def ofTable (strict : Bool) (table : Table) : Except ConfigurationError Options := do
  return {
    compile := ← compileOfTable (← tableAt strict compileFields table "compiler")
    limits := ← limitsOfTable (← tableAt strict limitFields table "vm") }

/-! ## Writing -/

def sizeEntry (name : String) (size : Nat) : Except ConfigurationError (String × Toml) :=
  if size ≤ 9223372036854775807 then .ok (name, .integer size) else .error (.tooLarge size)

def compileTable (options : Compile.Options) : Except ConfigurationError Table := do
  return [
    ← sizeEntry "block_inline_limit" options.blockInlineLimit,
    ("tail_calls", .boolean options.tailCalls),
    ← sizeEntry "int_switch_min_cases" options.switchMinCases]

def limitsTable (limits : Limits) : Except ConfigurationError Table := do
  return [
    ← sizeEntry "max_call_depth" limits.callDepth,
    ← sizeEntry "max_stack_size" limits.stackSize]

def toTable (options : Options) : Except ConfigurationError Table := do
  return [
    ("compiler", .table (← compileTable options.compile)),
    ("vm", .table (← limitsTable options.limits))]

/-! ## Texts -/

def document (text : String) : Except ConfigurationError Table :=
  match Toml.ofText? text with
  | some table => .ok table
  | none => .error .notDocument

def ofText (text : String) : Except ConfigurationError Options := do
  ofTable false (← document text)

/-- The choices with those of a text laid over them. -/
def merge (options : Options) (text : String) : Except ConfigurationError Options := do
  let upper ← document text
  ofTable true (Toml.overlay (← options.toTable) upper)

/-! ## Files -/

def load (files : Files) (path : String) : Except Failure Options := do
  (ofText (← files.text path)).mapError ConfigurationError.failure

/-- The choices in a file, or the standard ones if there is no such file. -/
def loadOrStandard (files : Files) (path : String) : Except Failure Options :=
  if files.has path then load files path else .ok {}

/-- The choices with those of a file laid over them. -/
def mergeFile (options : Options) (files : Files) (path : String) : Except Failure Options := do
  (options.merge (← files.text path)).mapError ConfigurationError.failure

end Options

end Ecma
