/-
Code for expressions, statements and functions. The recursion follows the tree
and hands the code of the parts to the form of the whole.
-/
import Ecma.Compile.Statement
import Ecma.Compile.Suspension
import Ecma.Syntax.Tree

namespace Ecma.Compile

open Code Syntax

/-! ## Functions -/

def functionKind (arrow isAsync isGenerator : Bool) : Except CompileError FunctionKind :=
  match arrow, isAsync, isGenerator with
  | _, true, true => .error .asyncGenerator
  | true, true, false => .ok .asyncArrow
  | true, false, _ => .ok .arrow
  | false, true, false => .ok .async
  | false, false, true => .ok .generator
  | false, false, false => .ok .normal

/-- The template of finished code: units that stand apart follow the body. -/
def finish (context : Context) (name : String) (paramCount : Nat) (emitter : Emitter) :
    Except CompileError Template := do
  let draft := emitter.apart.foldl (fun draft (entry, instructions) =>
    let draft := draft.place entry
    { draft with instructions := draft.instructions ++ instructions }) emitter.draft
  match draft.link with
  | .ok template =>
    return { template with name, kind := context.kind, paramCount, strict := context.strict }
  | .error error => throw (.link error)

/-- The template of code made from a fresh state. -/
def compileUnit (context : Context) (name : String) (paramCount : Nat) (code : Emit Unit) :
    Except CompileError Template := do
  let ((), emitter) ← code context {}
  finish context name paramCount emitter

/-- The code of a function: its declarations, the first suspension of a
generator, and its body. -/
def functionCode (scope : ScopeId) (name : Option String) (params : List String)
    (functions : List (String × Emit Template)) (code : Emit Unit) : Emit Unit := do
  let kind := (← read).kind
  if kind.isResumable then op .resumeDispatch
  createBindings scope
  initializeParams scope params
  initializeArguments scope
  initializeVars scope
  hoist scope functions
  initializeCallee scope name
  if kind == .generator then generatorStart
  code

def functionForm (opened : Option ScopeId) (name : Option String) (params : List String)
    (isAsync isGenerator : Bool) (functions : List (String × Emit Template))
    (code : Emit Unit) : Emit Template := do
  let id ← scopeOf opened
  let scope ← scopeAt id
  let context ← read
  let kind ← functionKind scope.arrow isAsync isGenerator
  let inner : Context :=
    { scopes := context.scopes, options := context.options, kind, strict := scope.strict,
      scope := id }
  compileUnit inner (name.getD "") params.length (functionCode id name params functions code)

/-- Statements, and undefined if control falls off their end. -/
def statementsBody (body : Emit Completion) : Emit Unit := do
  if !(← body).isAbrupt then
    op .pushUndefined
    op .returnValue

/-! ## Forms with lists -/

/-- Arguments in order, with their number. -/
def pushArguments (arguments : List (Emit Emitted)) : Emit Nat := do
  arguments.forM fun argument => do let _ ← storedOf argument
  return arguments.length

/-- A call: function and receiver, then the arguments. -/
def callForm (callee : Emit Unit) (arguments : List (Emit Emitted)) (operation : Op) :
    Emit Unit := do
  callee
  opWith operation (.argCount (← pushArguments arguments))

/-- Pushes a function and its receiver: the object of a method, else none. -/
def calleeForm (name : Option String) (member : Option (Emit ValueType × Key))
    (value : Emit Emitted) : Emit Unit := do
  match member, name with
  | some (object, key), _ => loadMethod object key
  | none, some name => loadCallee name
  | none, none =>
    let _ ← storedOf value
    op .pushUndefined

/-- An array literal; a hole is undefined. -/
def arrayForm (elements : List (Option (Emit Emitted))) : Emit Emitted := do
  elements.forM fun
    | some element => do let _ ← storedOf element
    | none => op .pushUndefined
  opWith .newArray (.count elements.length)
  return .value .object

def objectForm (properties : List (Emit Unit)) : Emit Emitted := do
  op .newObject
  properties.forM id
  return .value .object

/-- Expressions of which the last one gives the value. -/
def sequenceForm : List (Emit Emitted) → Emit Emitted
  | [] => do
    op .pushUndefined
    return .value .undefined
  | [last] => return .value (← valueOf last)
  | value :: rest => do
    let _ ← valueOf value
    op .pop
    sequenceForm rest

def templateForm (quasis : List String) (values : List (Emit Emitted)) : Emit Emitted := do
  pushString (quasis.head?.getD "")
  for (value, index) in values.zipIdx do
    substitution (valueOf value) quasis[index + 1]?
  return .value .string

/-- The name of a property: fixed if it is an identifier that is not computed. -/
def keyOf {σ : Type} (property : Expr σ) (computed : Bool) (code : Emit Emitted) : Key :=
  match computed, property.identifier? with
  | false, some name => .named name
  | _, _ => .computed (valueOf code)

/-- Pops a value into a variable or a property. -/
def assignFromStack (name : Option String) (member : Option (Emit ValueType × Key)) :
    Emit Unit :=
  match name, member with
  | some name, _ => storeName name
  | none, some (object, key) => storeMember object key
  | none, none => throw .assignmentTarget

/-- Whether labels of a statement are taken over by its body: a loop, or a
statement with more labels. -/
def takesLabels {σ : Type} : Stmt σ → Bool
  | .labelled _ _ | .whileDo _ _ | .doWhile _ _ | .forLoop _ _ _ _ _ | .forIn _ _ _ _
  | .forOf _ _ _ _ => true
  | _ => false

/-- Whether a loop head declares with `let`, which every round copies. -/
def declaresLet {σ : Type} : Option (Head σ) → Bool
  | some (.declaration declaration) => declaration.kind == .let_
  | _ => false

/-- A test, none if it is always true. -/
def openTest {σ : Type} (test : Expr σ) (code : Emit Emitted) : Option (Emit ValueType) :=
  if isConstantTrue test then none else some (valueOf code)

/-- A step of what an expression stands for. -/
def updateForm (operator : UpdateOperator) (leading : Bool) (name : Option String)
    (member : Option (Emit ValueType × Key)) : Emit Emitted :=
  match name, member with
  | some name, _ => updateName operator leading name
  | none, some (object, key) => updateMember operator leading (memberOf object key)
  | none, none => throw .updateTarget

def assignForm (operator : AssignOperator) (name : Option String)
    (member : Option (Emit ValueType × Key)) (value : Emit ValueType) : Emit Emitted :=
  match name, member with
  | some name, _ => assignName operator name value
  | none, some (object, key) => assignMember operator (memberOf object key) value
  | none, none => throw .assignmentTarget

/-- The deletion of what an expression stands for; a value counts as deleted. -/
def deleteForm (name : Option String) (member : Option (Emit ValueType × Key))
    (value : Emit Emitted) : Emit Emitted := do
  match name, member with
  | some name, _ =>
    deleteName name
    return .value .boolean
  | none, some (object, key) =>
    deleteMember object key
    return .value .boolean
  | none, none => insteadOf (valueOf value) .pushTrue .boolean

def typeOfForm (name : Option String) (value : Emit Emitted) : Emit Emitted := do
  match name with
  | some name =>
    typeOfName name
    return .value .string
  | none => unaryOp (valueOf value) .typeof .string

def unaryForm (operator : UnaryOperator) (name : Option String)
    (member : Option (Emit ValueType × Key)) (value : Emit Emitted) : Emit Emitted :=
  match operator with
  | .minus => unaryOp (valueOf value) .neg .number
  | .plus => unaryPlus (valueOf value)
  | .not => unaryOp (valueOf value) .not .boolean
  | .complement => unaryOp (valueOf value) .bitNot .int32
  | .typeOf => typeOfForm name value
  | .void => insteadOf (valueOf value) .pushUndefined .undefined
  | .delete => deleteForm name member value

def isLiteral {σ : Type} : Expr σ → Bool
  | .literal _ => true
  | _ => false

def binaryForm {σ : Type} (operator : BinaryOperator) (left right : Expr σ)
    (leftCode rightCode : Emit Emitted) : Emit Emitted :=
  match operator with
  | .add => addition (valueOf leftCode) (valueOf rightCode) left.string? right.string?
  | .arithmetic operator =>
    arithmetic operator (valueOf leftCode) (valueOf rightCode) (isLiteral right)
  | .relation r => relation r (storedOf leftCode) (storedOf rightCode)

/-! ## Trees -/

mutual

def expr : Expr (Option ScopeId) → Emit Emitted
  | .identifier name => do return .binding name (← resolve name)
  | .literal value => literal value
  | .template quasis values => templateForm quasis (exprs values)
  | .this => do
    op .this
    return .value .any
  | .array elements => arrayForm (exprs? elements)
  | .object properties => objectForm (propertyForms properties)
  | .function function => do
    pushClosure (← func function)
    return .value .object
  | .arrow function => do
    pushClosure (← func function)
    return .value .object
  | .unary operator argument =>
    unaryForm operator argument.identifier? (member? argument) (expr argument)
  | .update operator leading argument =>
    updateForm operator leading argument.identifier? (member? argument)
  | .binary operator left right => binaryForm operator left right (expr left) (expr right)
  | .logical operator left right =>
    logical operator (storedOf (expr left)) (storedOf (expr right))
  | .assign operator target value =>
    assignForm operator target.identifier? (member? target) (storedOf (expr value))
  | .conditional test consequent alternate =>
    conditional (valueOf (expr test)) (storedOf (expr consequent)) (storedOf (expr alternate))
  | .call callee arguments => do
    callForm (calleeForm callee.identifier? (member? callee) (expr callee)) (exprs arguments)
      .call
    return .value .any
  | .new callee arguments => do
    let _ ← storedOf (expr callee)
    opWith .construct (.argCount (← pushArguments (exprs arguments)))
    return .value .object
  | .member object property computed =>
    memberOf (storedOf (expr object)) (keyOf property computed (expr property))
  | .sequence expressions => sequenceForm (exprs expressions)
  | .yield argument delegate => yieldForm ((expr? argument).map storedOf) delegate
  | .await argument => awaitForm (storedOf (expr argument))

/-- The parts of a property access. -/
def member? : Expr (Option ScopeId) → Option (Emit ValueType × Key)
  | .member object property computed =>
    some (storedOf (expr object), keyOf property computed (expr property))
  | _ => none

/-- A call in place of the function that returns it. -/
def tailCall? : Expr (Option ScopeId) → Option (Emit Unit)
  | .call callee arguments =>
    some (callForm (calleeForm callee.identifier? (member? callee) (expr callee))
      (exprs arguments) .tailCall)
  | _ => none

def expr? : Option (Expr (Option ScopeId)) → Option (Emit Emitted)
  | none => none
  | some value => some (expr value)

def exprs : List (Expr (Option ScopeId)) → List (Emit Emitted)
  | [] => []
  | value :: rest => expr value :: exprs rest

def exprs? : List (Option (Expr (Option ScopeId))) → List (Option (Emit Emitted))
  | [] => []
  | value :: rest => expr? value :: exprs? rest

def propertyForms : List (Property (Option ScopeId)) → List (Emit Unit)
  | [] => []
  | ⟨key, value, true⟩ :: rest =>
    (do
      let _ ← storedOf (expr key)
      let _ ← storedOf (expr value)
      op .defineComputed) :: propertyForms rest
  | ⟨key, value, false⟩ :: rest =>
    (do
      let name ← fixedKey key
      let _ ← storedOf (expr value)
      opName .defineField name) :: propertyForms rest

def func : Func (Option ScopeId) → Emit Template
  | ⟨scope, name, params, body, isAsync, isGenerator⟩ =>
    functionForm scope name params isAsync isGenerator (bodyFunctions body) (bodyCode body)

def bodyFunctions : Body (Option ScopeId) → List (String × Emit Template)
  | .block body => functions body
  | .expression _ => []

def bodyCode : Body (Option ScopeId) → Emit Unit
  | .block body => statementsBody (inOrder (stmts body))
  | .expression value => returnOf (storedOf (expr value)) (tailCall? value)

/-- The functions declared directly in statements, in order. -/
def functions : List (Stmt (Option ScopeId)) → List (String × Emit Template)
  | [] => []
  | statement :: rest => function? statement ++ functions rest

/-- The function that a statement declares, through any labels. -/
def function? : Stmt (Option ScopeId) → List (String × Emit Template)
  | .function ⟨scope, some name, params, body, isAsync, isGenerator⟩ =>
    [(name, func ⟨scope, some name, params, body, isAsync, isGenerator⟩)]
  | .labelled _ body => function? body
  | _ => []

/-- The functions declared in the clauses of a switch. -/
def caseFunctions : List (Case (Option ScopeId)) → List (String × Emit Template)
  | [] => []
  | ⟨_, consequent⟩ :: rest => functions consequent ++ caseFunctions rest

def clauses : List (Case (Option ScopeId)) → List Clause
  | [] => []
  | ⟨test, consequent⟩ :: rest =>
    ⟨(expr? test).map storedOf, inOrder (stmts consequent)⟩ :: clauses rest

def declarators (kind : VariableKind) : List (Declarator (Option ScopeId)) → Emit Unit
  | [] => pure ()
  | ⟨name, init⟩ :: rest => do
    declaratorForm kind name ((expr? init).map storedOf)
    declarators kind rest

def declaration : Declaration (Option ScopeId) → Emit Unit
  | ⟨kind, declared⟩ => declarators kind declared

def block : Block (Option ScopeId) → Emit Completion
  | ⟨scope, body⟩ => blockForm scope (functions body) (inOrder (stmts body))

def block? : Option (Block (Option ScopeId)) → Option (Emit Completion)
  | none => none
  | some body => some (block body)

def catch? : Option (Catch (Option ScopeId)) → Option (Nat → Emit Completion)
  | none => none
  | some ⟨scope, _, body⟩ => some fun savedEnv => catchForm scope savedEnv (block body)

def headStart : Option (Head (Option ScopeId)) → Emit Unit
  | none => pure ()
  | some (.declaration declared) => declaration declared
  | some (.expression value) => dropped (storedOf (expr value))

/-- What the head of a loop over an iterator does with each value. -/
def headAssign : Head (Option ScopeId) → Emit Unit
  | .declaration declared =>
    match declared.declarators with
    | [] => throw .emptyLoopHead
    | first :: _ => storeName first.name
  | .expression target => assignFromStack target.identifier? (member? target)

/-- The code of a statement with the labels in front of it. -/
def stmt : Stmt (Option ScopeId) → List String → Emit Completion
  | .declare declared, _ => do
    declaration declared
    return .normal
  | .function _, _ => return .normal
  | .expression value, _ => expressionForm (storedOf (expr value))
  | .block body, _ => block body
  | .ifElse test consequent alternate, _ =>
    ifForm (valueOf (expr test)) (stmt consequent []) (stmt? alternate)
  | .switchOn scope discriminant cases, _ =>
    switchForm scope (storedOf (expr discriminant)) (switchKeys? cases) (caseFunctions cases)
      (clauses cases)
  | .whileDo test body, labels =>
    whileForm labels (openTest test (expr test)) (stmt body [])
  | .doWhile body test, labels =>
    doWhileForm labels (openTest test (expr test)) (stmt body [])
  | .forLoop scope init test update body, labels =>
    forForm labels scope (headStart init) (declaresLet init) (openTest? test)
      ((expr? update).map storedOf) (stmt body [])
  | .forIn scope left right body, labels =>
    forEachForm labels scope (storedOf (expr right)) false (headAssign left) (stmt body [])
  | .forOf scope left right body, labels =>
    forEachForm labels scope (storedOf (expr right)) true (headAssign left) (stmt body [])
  | .returnValue none, _ => returnForm none
  | .returnValue (some argument), _ =>
    returnForm (some (returnOf (storedOf (expr argument)) (tailCall? argument)))
  | .breakTo label, _ => do
    exitTo (← breakTarget label)
    return .breaks
  | .continueTo label, _ => do
    exitTo (← continueTarget label)
    return .continues
  | .throwValue argument, _ => do
    let _ ← storedOf (expr argument)
    op .throwValue
    return .throws
  | .tryBlock body handler finalizer, _ =>
    tryForm (block body) (catch? handler) (block? finalizer)
  | .withObject scope object body, _ =>
    withForm scope (storedOf (expr object)) (stmt body [])
  | .labelled label body, labels =>
    if takesLabels body then stmt body (labels ++ [label])
    else labelledForm (labels ++ [label]) (stmt body [])
  | .debugger, _ => do
    op .nop
    return .normal
  | .empty, _ => return .normal

def stmt? : Option (Stmt (Option ScopeId)) → Option (Emit Completion)
  | none => none
  | some statement => some (stmt statement [])

/-- The test of a loop that may be absent; none if it is always true. -/
def openTest? : Option (Expr (Option ScopeId)) → Option (Emit ValueType)
  | none => none
  | some test => openTest test (expr test)

def stmts : List (Stmt (Option ScopeId)) → List (Emit Completion)
  | [] => []
  | statement :: rest => stmt statement [] :: stmts rest

end

end Ecma.Compile
