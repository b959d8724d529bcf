/-
Code written by hand as JSON: instructions with their operands, labels by number,
and the tables of a template.
-/
import Ecma.Code.Draft
import Ecma.Json.Access

namespace Ecma.Code.Assembly

open Json (Reading)

/-- Why there is no code: the JSON is not understood, or a label has no place. -/
inductive AssemblyError where
  | unreadable (message : String)
  | link (error : LinkError)

abbrev Assembled (α : Type) : Type := Except AssemblyError α

def reading (read : Reading α) : Assembled α := read.mapError .unreadable

/-- An operand that is a constant, a name or an error may add to the draft. -/
def operand (draft : Draft) (kind : String) (arguments : List Json) :
    Reading (Operand × Draft) := do
  let named (name : Json) (f : Nat → Operand) : Reading (Operand × Draft) := do
    let (index, draft) := draft.addName (← name.asString)
    return (f index, draft)
  let constant (value : Constant) : Reading (Operand × Draft) :=
    let (index, draft) := draft.addConstant value
    return (.constant index, draft)
  let numbered (f : Nat → Operand) : Reading (Operand × Draft) :=
    match arguments with
    | [n] => return (f (← n.asNat), draft)
    | _ => .error "expected one number"
  match kind, arguments with
  | "num", [value] => constant (.number (← value.asDouble))
  | "str", [value] => constant (.string (← value.asString))
  | "name", [name] => named name .name
  | "binding", [name, flag] =>
    let flag ← flag.asBool
    named name fun index => .binding index flag
  | "slot", [hops, slot] => return (.slot (← hops.asNat) (← slot.asNat), draft)
  | "flag", [flag] => return (.flag (← flag.asBool), draft)
  | "error", [kind, message] =>
    let kind ← kind.asNamed ErrorKind.all ErrorKind.name
    named message fun index => .error kind index
  | "const", _ => numbered .constant
  | "nameat", _ => numbered .name
  | "reg", _ => numbered .register
  | "label", _ => numbered .label
  | "jump", _ => numbered .jump
  | "args", _ => numbered .argCount
  | "count", _ => numbered .count
  | "fn", _ => numbered .function
  | "unit", _ => numbered .unit
  | "table", _ => numbered .table
  | "state", _ => numbered .state
  | kind, _ => .error ("unknown operand " ++ kind)

/-- Adds an instruction, or the place of a label. -/
def item (draft : Draft) (json : Json) : Reading Draft := do
  match ← json.asList with
  | [.string "place", label] => return draft.place (← label.asNat)
  | [op] => return draft.emit { op := ← op.asNamed Op.all Op.name }
  | op :: .string kind :: arguments =>
    let op ← op.asNamed Op.all Op.name
    let (operand, draft) ← operand draft kind arguments
    return draft.emit { op, operand := some operand }
  | _ => .error "expected an instruction"

def switchKey : Json → Reading SwitchKey
  | .string value => .ok (.string value)
  | json => return .number (← json.asInt)

def table (json : Json) : Reading DraftTable := do
  let cases ← (← json.listAt "cases").mapM fun case => do
    match ← case.asList with
    | [key, label] => return (← switchKey key, ← label.asNat)
    | _ => .error "expected a case"
  return ⟨cases, ← (← json.need "default").asNat⟩

def handler (json : Json) : Reading DraftHandler := do
  let register ← json.natAt "register" 0
  let kind ←
    match ← json.stringAt "kind" with
    | "Catch" => pure HandlerKind.catches
    | "Finally" => pure (.finalizes register)
    | "Suppress" => pure (.supersedes register)
    | "IterClose" => pure (.closes register)
    | kind => .error ("unknown handler " ++ kind)
  return ⟨← json.natAt "start" 0, ← json.natAt "end" 0, ← json.natAt "target" 0, kind⟩

/-- The draft of a unit whose nested functions are assembled. -/
def draft (json : Json) (functions : List Template) : Reading Draft := do
  let labels := List.replicate (← json.natAt "labels" 0) none
  let draft : Draft :=
    { labels := labels.toArray
      functions := functions.toArray
      registers := ← json.natAt "registers" 0
      resume := (← (← json.listAt "resume").mapM Json.asNat).toArray
      units := (← (← json.listAt "units").mapM Json.asNat).toArray
      tables := (← (← json.listAt "tables").mapM table).toArray }
  let draft ← (← json.listAt "code").foldlM item draft
  return (← (← json.listAt "handlers").mapM handler).foldl Draft.addHandler draft

/-- The template of a linked draft, with what its unit says about the function. -/
def template (json : Json) (code : Template) : Reading Template := do
  let kind ←
    match json.field? "kind" with
    | some kind => kind.asNamed FunctionKind.all FunctionKind.name
    | none => pure .script
  let name ←
    match json.field? "name" with
    | some name => name.asString
    | none => pure ""
  let paramCount ← json.natAt "params" 0
  let strict ← json.boolAt "strict"
  return { code with name, kind, paramCount, strict }

/-- Assembles a unit, after the functions nested in it. -/
def assembleNested : (fuel : Nat) → Json → Assembled (Draft × Template)
  | 0, _ => .error (.unreadable "nested too deep")
  | fuel + 1, json => do
    let functions ← (← reading (json.listAt "functions")).mapM (assembleNested fuel)
    let draft ← reading (draft json (functions.map Prod.snd))
    let code ← draft.link.mapError .link
    return (draft, ← reading (template json code))

def assemble (json : Json) : Assembled (Draft × Template) := assembleNested json.depth json

end Ecma.Code.Assembly
