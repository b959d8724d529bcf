/-
Templates as JSON, for those who inspect compiled code.
-/
import Ecma.Code.Template
import Ecma.Heap.Picture

namespace Ecma.Code

open Json (nat)

def Constant.picture : Constant → Json
  | number value => .object [("num", .string (Heap.numberPicture value))]
  | string value => .string value

/-- The picture of a template, without its instructions and nested functions. -/
def Template.picture (template : Template) : Json :=
  .object
    [("name", .string template.name), ("kind", .string template.kind.name),
      ("params", nat template.paramCount), ("strict", .bool template.strict),
      ("registers", nat template.registers),
      ("constants", .array (template.constants.toList.map Constant.picture)),
      ("units", .array (template.units.toList.map nat)),
      ("resume", .array (template.resume.toList.map nat)),
      ("functions", nat template.functions.length)]

end Ecma.Code
