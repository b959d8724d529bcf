/-
Why no code is made for a program that was analysed. Each cause is a form that
a parser of the language never hands on.
-/
import Ecma.Code.Draft

namespace Ecma.Compile

/-- Why no code is made. -/
inductive CompileError where
  /-- A function stands where no scope was made for it. -/
  | noScope
  | asyncGenerator
  | returnOutsideFunction
  | yieldOutsideGenerator
  | delegateWithoutOperand
  | awaitOutsideAsync
  | tryWithoutHandler
  | assignmentTarget
  | updateTarget
  | propertyKey
  | emptyLoopHead
  | undefinedLabel (label : String)
  | breakOutside
  | continueOutside
  | lexicalNotStatic (name : String)
  | notDeclared (name : String)
  /-- The constructs around a statement were left in the wrong order. -/
  | unbalanced
  | link (error : Code.LinkError)
  deriving DecidableEq, Repr

def CompileError.message : CompileError → String
  | noScope => "node has no scope"
  | asyncGenerator => "async generators are not supported"
  | returnOutsideFunction => "return outside of a function"
  | yieldOutsideGenerator => "yield outside of a generator"
  | delegateWithoutOperand => "yield* without an operand"
  | awaitOutsideAsync => "await outside of an async function"
  | tryWithoutHandler => "try without catch or finally"
  | assignmentTarget => "invalid assignment target"
  | updateTarget => "invalid update target"
  | propertyKey => "unsupported property key"
  | emptyLoopHead => "empty for-in/of declaration"
  | undefinedLabel label => s!"undefined label '{label}'"
  | breakOutside => "break outside of a loop or switch"
  | continueOutside => "continue outside of a loop"
  | lexicalNotStatic name => s!"lexical binding '{name}' is not statically resolvable"
  | notDeclared name => s!"'{name}' is not declared in its scope"
  | unbalanced => "control stack out of sync"
  | link error => error.message

end Ecma.Compile
