/-
Code for declarations: a binding for each declared name, and the checks that a
script makes before it declares anything.
-/
import Ecma.Compile.Completion
import Ecma.Compile.Reference
import Ecma.Scope.Declared

namespace Ecma.Compile

open Code Scope

def createBinding (binding : Binding) : Emit Unit := do
  let strict := (← read).strict
  match binding.kind with
  | .const | .imported => opBinding .createImmutableBinding binding.name true
  | .callee => opBinding .createImmutableBinding binding.name false
  | .arguments =>
    if strict then opBinding .createImmutableBinding binding.name true
    else opBinding .createMutableBinding binding.name false
  | .var | .let_ | .function | .parameter =>
    opBinding .createMutableBinding binding.name false

/-- Emits the bindings of a scope, in slot order. -/
def createBindings (scope : ScopeId) : Emit Unit := do
  (← scopeAt scope).bindings.forM createBinding

/-- Emits the first value of a name declared in the innermost scope. -/
def initializeIn (scope : ScopeId) (name : String) : Emit Unit := do
  match (← scopeAt scope).slotOf? name with
  | some slot => initializeSlot slot
  | none => throw (.notDeclared name)

def initializeVars (scope : ScopeId) : Emit Unit := do
  for (binding, slot) in (← scopeAt scope).bindings.zipIdx do
    if binding.kind == .var then
      op .pushUndefined
      initializeSlot slot

/-- Emits the arguments of the parameters; a later one of the same name wins. -/
def initializeParams (scope : ScopeId) (params : List String) : Emit Unit := do
  for (param, index) in params.zipIdx do
    opWith .loadArg (.count index)
    initializeIn scope param

def initializeImports (scope : ScopeId) (imports : List String) : Emit Unit := do
  for (name, index) in imports.zipIdx do
    opWith .loadImport (.count index)
    initializeIn scope name

def initializeArguments (scope : ScopeId) : Emit Unit := do
  if (← scopeAt scope).kindOf? "arguments" == some .arguments then
    op .createArguments
    initializeIn scope "arguments"

def initializeCallee (scope : ScopeId) (name : Option String) : Emit Unit := do
  match name with
  | some name =>
    if (← scopeAt scope).kindOf? name == some .callee then
      op .loadCallee
      initializeIn scope name
  | none => pure ()

def pushClosure (template : Template) : Emit Unit := do
  opWith .closure (.function (← onDraft fun draft => draft.addFunction template))

/-! ## Blocks -/

/-- Moves the code made by `body` into a unit apart, and calls that in its
place. -/
def apart (body : Emit Unit) : Emit Unit := do
  let entry ← newLabel
  opWith .callUnit (.unit (← onDraft fun draft => draft.addUnit entry))
  let start ← position
  body
  op .returnUnit
  modify fun emitter =>
    let instructions := emitter.draft.instructions
    { emitter with
      draft := { emitter.draft with instructions := instructions.extract 0 start }
      apart := emitter.apart ++ [(entry, (instructions.extract start instructions.size).toList)] }

/-- Emits the declarations of a block, whose functions are emitted by
`functions`; a large block has them in a unit apart. -/
def declareBlock (scope : ScopeId) (functions : Emit Unit) : Emit Unit := do
  let count := (← scopeAt scope).bindings.length
  let code := do
    createBindings scope
    functions
  if count == 0 then pure ()
  else if count ≤ (← read).options.blockInlineLimit then code
  else apart code

/-- Runs code making inside a block, which has a record if it binds names. -/
def inBlock (scope : ScopeId) (body : Emit Completion) : Emit Completion := do
  let materializes := (← scopeAt scope).materializes
  if materializes then op .pushBlockEnv
  let completion ← inScope scope materializes body
  if materializes && !completion.isAbrupt then op .popEnv
  return completion

/-! ## Scripts -/

variable {σ : Type}

/-- The names of declared functions, the last declaration first, each once. -/
def functionNames (body : List (Syntax.Stmt σ)) : List String :=
  ((functionsDeclared body).filterMap Syntax.Func.name).reverse.eraseDups

/-- The variables of a script that are not functions as well. -/
def plainVars (body : List (Syntax.Stmt σ)) : List String :=
  (varDeclared body).filter fun name => !(functionNames body).contains name

/-- Emits the declarations of a script. All checks come before the first change,
so that a conflict leaves the globals as they were. `functions` emits the values
of the declared functions. -/
def declareGlobals (body : List (Syntax.Stmt σ)) (functions : Emit Unit) : Emit Unit := do
  let lexicals := lexicalsDeclared body
  let names := (functionsDeclared body).filterMap Syntax.Func.name
  for lexical in lexicals do opName .checkGlobalLexical lexical.name
  for name in varDeclared body ++ names do opName .checkGlobalVar name
  for name in functionNames body do opName .checkGlobalFunction name
  for name in plainVars body do opName .checkGlobalVarDeclarable name
  for lexical in lexicals do
    opBinding .createGlobalLexical lexical.name (lexical.kind == .const)
  functions
  for name in plainVars body do opBinding .createGlobalVar name false

end Ecma.Compile
