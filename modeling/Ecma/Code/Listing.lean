/-
Listings of code for people to read: one line for each instruction, then the
protected ranges, the suspensions, and the nested functions.
-/
import Ecma.Code.Template
import Ecma.Number.Format
import Ecma.Text.Quoted

namespace Ecma.Code

def operandColumn : Nat := 22

/-- A position with at least four digits. -/
def positionText (position : Nat) : String := Text.zeroPadded 4 position

def boolText (value : Bool) : String := if value then "true" else "false"

/-! ## Instructions by themselves -/

/-- An operand as it stands, with indices for what it refers to. -/
def Operand.text : Operand → String
  | .constant index => s!"Constant({index})"
  | .name index => s!"Name({index})"
  | .binding index marked => s!"Binding \x7b name: {index}, flag: {boolText marked} \x7d"
  | .slot hops index => s!"Slot \x7b hops: {hops}, slot: {index} \x7d"
  | .register index => s!"Register({index})"
  | .label index => s!"Label(LabelId({index}))"
  | .jump target => s!"Jump({target})"
  | .argCount n => s!"ArgCount({n})"
  | .count n => s!"Count({n})"
  | .function index => s!"Function({index})"
  | .unit index => s!"Unit({index})"
  | .table index => s!"Table({index})"
  | .state index => s!"State({index})"
  | .flag value => s!"Flag({boolText value})"
  | .error kind message => s!"Error \x7b kind: {kind.name}, message: {message} \x7d"

def withOperand (op : Op) : Option String → String
  | none => op.name
  | some operand => Text.padRight operandColumn op.name ++ operand

def Instruction.text (instruction : Instruction) : String :=
  withOperand instruction.op (instruction.operand.map Operand.text)

/-! ## Instructions of a template -/

def Constant.text : Constant → String
  | .number value => Number.listing value
  | .string value => Text.quoted value

/-- The cases of a table, strings in order. -/
def SwitchCases.text : SwitchCases → String
  | .numbers cases =>
    cases.foldl (fun text (value, target) => text ++ s!"{value}:{positionText target} ") ""
  | .strings cases =>
    (cases.mergeSort fun a b => a.1 ≤ b.1).foldl
      (fun text (value, target) => text ++ s!"{Text.quoted value}:{positionText target} ") ""

def Template.operandText (template : Template) : Operand → String
  | .constant index =>
    match template.constants[index]? with
    | some constant => constant.text
    | none => s!"<bad constant {index}>"
  | .name index => template.nameAt index
  | .binding name flag => template.nameAt name ++ if flag then " !" else ""
  | .slot hops slot => s!"{hops}:{slot}"
  | .register index => s!"r{index}"
  | .label label => s!"L{label}"
  | .jump target => s!"-> {positionText target}"
  | .argCount count => s!"({count})"
  | .count count => s!"#{count}"
  | .function index =>
    match template.functions[index]? with
    | some function => if function.name.isEmpty then s!"fn #{index}" else s!"fn {function.name}"
    | none => s!"fn #{index}"
  | .unit index =>
    match template.units[index]? with
    | some position => s!"unit -> {positionText position}"
    | none => s!"unit #{index}"
  | .table index =>
    match template.tables[index]? with
    | some table => table.cases.text ++ s!"default:{positionText table.default}"
    | none => s!"table #{index}"
  | .state index => s!"state {index}"
  | .flag value => boolText value
  | .error kind message => s!"{kind.name} {Text.quoted (template.nameAt message)}"

def Template.instructionText (template : Template) (instruction : Instruction) : String :=
  withOperand instruction.op (instruction.operand.map template.operandText)

def HandlerKind.text : HandlerKind → String
  | .catches => "Catch"
  | .finalizes register => s!"Finally \x7b register: {register} \x7d"
  | .supersedes register => s!"Suppress \x7b register: {register} \x7d"
  | .closes register => s!"IterClose \x7b register: {register} \x7d"

def Handler.text (handler : Handler) : String :=
  let range := s!"[{positionText handler.start}, {positionText handler.stop})"
  s!"  {range} -> {positionText handler.target}  {handler.kind.text}"

def Template.ownLines (template : Template) : List String :=
  let instructions := template.instructions.toList.mapIdx fun position instruction =>
    positionText position ++ "  " ++ template.instructionText instruction
  let handlers :=
    if template.handlers.isEmpty then [] else "handlers:" :: template.handlers.map Handler.text
  let resume :=
    if template.resume.isEmpty then []
    else ["resume: " ++ " ".intercalate (template.resume.toList.map positionText)]
  instructions ++ handlers ++ resume

/-- The line above a function. -/
def Template.title (template : Template) : String :=
  let name := if template.name.isEmpty then "<anonymous>" else template.name
  let strict := if template.strict then ", strict" else ""
  s!"== {name} ({template.kind.name}, {template.paramCount} params{strict}) =="

/-- The lines of code without the title: its own, then those of each nested
function after an empty line. -/
def Template.bodyLines (template : Template) : List String :=
  template.ownLines ++ nested template.functions
where
  nested : List Template → List String
    | [] => []
    | template :: rest => "" :: titled template ++ nested rest
  termination_by structural ts => ts
  titled : Template → List String
    | ⟨name, kind, paramCount, strict, instructions, constants, functions, handlers, resume,
        units, tables, registers⟩ =>
      let template : Template :=
        ⟨name, kind, paramCount, strict, instructions, constants, functions, handlers, resume,
          units, tables, registers⟩
      template.title :: template.ownLines ++ nested functions
  termination_by structural t => t

/-- The listing of a template without the title, a line feed after each line. -/
def Template.body (template : Template) : String :=
  template.bodyLines.foldl (fun text line => text ++ line ++ "\n") ""

def Template.listing (template : Template) : String :=
  template.title ++ "\n" ++ template.body

end Ecma.Code
