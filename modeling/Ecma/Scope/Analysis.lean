/-
The scopes of a program. Each node that opens a scope gets one, with its table
of bindings filled from the declarations before its parts are visited; the
visit itself finds out who uses `arguments` and calls `eval`. A program that
declares a name twice is refused here.
-/
import Ecma.Scope.Basic
import Ecma.Scope.Declared
import Ecma.Syntax.Relabel

namespace Ecma.Scope

open Syntax

/-- Why a program is refused before code is made for it. -/
inductive EarlyError where
  | redeclared (name : String)
  | duplicateParameter (name : String)
  | withInStrictCode
  deriving DecidableEq, Repr

def EarlyError.message : EarlyError → String
  | .redeclared name => "Identifier '" ++ name ++ "' has already been declared"
  | .duplicateParameter name =>
    "Duplicate parameter name '" ++ name ++ "' not allowed in this context"
  | .withInStrictCode => "Strict mode code may not include a with statement"

/-! ## Tables of bindings -/

/-- A table with one more binding, unless the name is declared already. -/
def addUnlessDeclared (bindings : List Binding) (name : String) (kind : BindingKind) :
    List Binding :=
  if (kindIn? bindings name).isSome then bindings else bindings ++ [⟨name, kind⟩]

/-- A table with one more binding of a name that has none yet. -/
def addNew (bindings : List Binding) (name : String) (kind : BindingKind) :
    Except EarlyError (List Binding) :=
  if (kindIn? bindings name).isSome then .error (.redeclared name)
  else .ok (bindings ++ [⟨name, kind⟩])

def withKind (bindings : List Binding) (name : String) (kind : BindingKind) : List Binding :=
  bindings.map fun binding => if binding.name == name then ⟨name, kind⟩ else binding

/-- A table with a name that replaces a `var` and nothing else. -/
def addOverVar (bindings : List Binding) (name : String) (kind : BindingKind) : List Binding :=
  match kindIn? bindings name with
  | none => bindings ++ [⟨name, kind⟩]
  | some .var => withKind bindings name kind
  | some _ => bindings

def LexicalKind.binding : LexicalKind → BindingKind
  | .let_ => .let_
  | .const => .const
  | .function => .function

variable {σ : Type}

/-- The imports of a module, all different. -/
def importBindings (imports : List String) : Except EarlyError (List Binding) :=
  imports.foldlM (fun bindings name => addNew bindings name .imported) []

/-- The parameters of a function; strict code does not repeat one. -/
def parameterBindings (strict : Bool) (params : List String) :
    Except EarlyError (List Binding) :=
  params.foldlM (fun bindings name =>
    if strict && (kindIn? bindings name).isSome then .error (.duplicateParameter name)
    else .ok (addUnlessDeclared bindings name .parameter)) []

/-- The table of a script, a module or a function, after its imports or
parameters: variables, functions, and lexical names, which must be new. -/
def bodyBindings (start : List Binding) (body : List (Stmt σ)) :
    Except EarlyError (List Binding) :=
  let withVars :=
    (varDeclared body).foldl (fun bindings name => addUnlessDeclared bindings name .var) start
  let withFunctions :=
    ((functionsDeclared body).filterMap Func.name).foldl
      (fun bindings name => addOverVar bindings name .function) withVars
  (lexicalsDeclared body).foldlM
    (fun bindings lexical => addNew bindings lexical.name lexical.kind.binding) withFunctions

/-- The table of a block. Only sloppy code may repeat a function. -/
def blockBindings (strict : Bool) (lexicals : List Lexical) : Except EarlyError (List Binding) :=
  lexicals.foldlM (fun bindings lexical =>
    let repeated :=
      lexical.kind == .function && kindIn? bindings lexical.name == some .function
    if repeated && !strict then .ok bindings
    else addNew bindings lexical.name lexical.kind.binding) []

def headBindings : Head σ → Except EarlyError (List Binding)
  | .declaration declaration =>
    (lexicalsOf declaration).foldlM
      (fun bindings lexical => addNew bindings lexical.name lexical.kind.binding) []
  | .expression _ => .ok []

/-! ## The visit -/

/-- What the parts of a function refer to. -/
structure Uses where
  /-- `arguments`, here or in an arrow function inside. -/
  arguments : Bool := false
  /-- A direct `eval` here. -/
  evalHere : Bool := false
  /-- A direct `eval` here or in an arrow function inside. -/
  evalWithin : Bool := false

/-- The uses of a function that holds another one: only arrow functions pass
theirs on. -/
def Uses.around (outer inner : Uses) (arrow : Bool) : Uses :=
  if arrow then
    { outer with
      arguments := outer.arguments || inner.arguments
      evalWithin := outer.evalWithin || inner.evalWithin }
  else outer

/-- The scopes so far, and what the present function refers to. -/
structure Progress where
  scopes : Scopes := #[]
  uses : Uses := {}

abbrev Visit := StateT Progress (Except EarlyError)

/-- The scope in which a node stands. -/
structure Place where
  scope : ScopeId
  strict : Bool

/-- The index of a new scope with the given table. -/
def enter (kind : ScopeKind) (parent : Option ScopeId) (strict arrow : Bool)
    (bindings : Except EarlyError (List Binding)) : Visit ScopeId := do
  let bindings ← bindings
  let id := (← get).scopes.size
  modify fun progress =>
    { progress with
      scopes := progress.scopes.push
        { kind, parent, bindings, dynamic := kind == .withObject, strict, arrow } }
  return id

def enterBlock (here : Place) (bindings : Except EarlyError (List Binding)) : Visit Place := do
  return ⟨← enter .block (some here.scope) here.strict false bindings, here.strict⟩

/-- Changes the table or the flags of a scope. -/
def adjust (id : ScopeId) (f : Scope → Scope) : Visit Unit :=
  modify fun progress => { progress with scopes := progress.scopes.modify id f }

def record (f : Uses → Uses) : Visit Unit :=
  modify fun progress => { progress with uses := f progress.uses }

/-- A `var` must not pass a lexical declaration of its name on the way to the
scope that owns it. -/
def checkVar (here : Place) (name : String) : Visit Unit := do
  let chain := (← get).scopes.chain here.scope
  let passed := chain.takeWhile fun (_, scope) => !scope.isVarScope
  let clashes := passed.any fun (_, scope) =>
    match scope.kindOf? name with
    | some .let_ | some .const | some .function => true
    | _ => false
  if clashes then throw (.redeclared name)

/-- Whether a visited function is marked by a direct `eval`: the function that
holds the call, and the nearest one around that is no arrow function. -/
def Uses.isDynamic (uses : Uses) (arrow : Bool) : Bool :=
  if arrow then uses.evalHere else uses.evalWithin

/-- The table of a visited function: its arguments object if it is used, and its
own name if it is an expression. -/
def closeFunction (uses : Uses) (arrow : Bool) (self : Option String) (scope : Scope) : Scope :=
  let bindings :=
    if !arrow && (uses.arguments || uses.evalWithin) then
      addOverVar scope.bindings "arguments" .arguments
    else scope.bindings
  let bindings :=
    match self with
    | some name => addUnlessDeclared bindings name .callee
    | none => bindings
  { scope with bindings, dynamic := scope.dynamic || uses.isDynamic arrow }

/-- A part that is not visited has no scopes. -/
def unvisited (value : Expr σ) : Expr (Option ScopeId) := value.map fun _ => none

/-- Visits the parts of a function in a new scope. -/
def inFunction {α : Type} (here : Place) (arrow : Bool) (self : Option String) (strict : Bool)
    (bindings : Except EarlyError (List Binding)) (parts : Place → Visit α) :
    Visit (ScopeId × α) := do
  let id ← enter .function (some here.scope) strict arrow bindings
  let outer := (← get).uses
  record fun _ => {}
  let visited ← parts ⟨id, strict⟩
  let uses := (← get).uses
  record fun _ => outer.around uses arrow
  adjust id (closeFunction uses arrow self)
  return (id, visited)

mutual

def visitExpr (here : Place) : Expr σ → Visit (Expr (Option ScopeId))
  | .identifier name => do
    if name == "arguments" then record fun uses => { uses with arguments := true }
    return .identifier name
  | .literal value => return .literal value
  | .template quasis expressions => return .template quasis (← visitExprs here expressions)
  | .this => return .this
  | .array elements => return .array (← visitElements here elements)
  | .object properties => return .object (← visitProperties here properties)
  | .function function => return .function (← visitFunc here false true function)
  | .arrow function => return .arrow (← visitFunc here true true function)
  | .unary operator argument => return .unary operator (← visitExpr here argument)
  | .update operator leading argument =>
    return .update operator leading (← visitExpr here argument)
  | .binary operator left right =>
    return .binary operator (← visitExpr here left) (← visitExpr here right)
  | .logical operator left right =>
    return .logical operator (← visitExpr here left) (← visitExpr here right)
  | .assign operator target value =>
    return .assign operator (← visitExpr here target) (← visitExpr here value)
  | .conditional test consequent alternate =>
    return .conditional (← visitExpr here test) (← visitExpr here consequent)
      (← visitExpr here alternate)
  | .call callee arguments => do
    if callee.identifier? == some "eval" then
      record fun uses => { uses with evalHere := true, evalWithin := true }
    return .call (← visitExpr here callee) (← visitExprs here arguments)
  | .new callee arguments =>
    return .new (← visitExpr here callee) (← visitExprs here arguments)
  | .member object property true =>
    return .member (← visitExpr here object) (← visitExpr here property) true
  | .member object property false =>
    return .member (← visitExpr here object) (unvisited property) false
  | .sequence expressions => return .sequence (← visitExprs here expressions)
  | .yield argument delegate => return .yield (← visitExpr? here argument) delegate
  | .await argument => return .await (← visitExpr here argument)

def visitExpr? (here : Place) : Option (Expr σ) → Visit (Option (Expr (Option ScopeId)))
  | none => return none
  | some value => return some (← visitExpr here value)

def visitExprs (here : Place) : List (Expr σ) → Visit (List (Expr (Option ScopeId)))
  | [] => return []
  | value :: rest => return (← visitExpr here value) :: (← visitExprs here rest)

def visitElements (here : Place) :
    List (Option (Expr σ)) → Visit (List (Option (Expr (Option ScopeId))))
  | [] => return []
  | element :: rest => return (← visitExpr? here element) :: (← visitElements here rest)

/-- Visits the properties of an object literal; a fixed name is no reference. -/
def visitProperties (here : Place) :
    List (Property σ) → Visit (List (Property (Option ScopeId)))
  | [] => return []
  | ⟨key, value, true⟩ :: rest => do
    let property := ⟨← visitExpr here key, ← visitExpr here value, true⟩
    return property :: (← visitProperties here rest)
  | ⟨key, value, false⟩ :: rest => do
    let property := ⟨unvisited key, ← visitExpr here value, false⟩
    return property :: (← visitProperties here rest)

def visitFunc (here : Place) (arrow expression : Bool) :
    Func σ → Visit (Func (Option ScopeId))
  | ⟨scope, name, params, body, isAsync, isGenerator⟩ => do
    let function : Func σ := ⟨scope, name, params, body, isAsync, isGenerator⟩
    let strict := here.strict || function.usesStrict
    let self := if expression && !arrow then name else none
    let bindings := do bodyBindings (← parameterBindings strict params) function.statements
    let (id, body) ←
      inFunction here arrow self strict bindings fun inside => visitBody inside body
    return ⟨some id, name, params, body, isAsync, isGenerator⟩

def visitBody (here : Place) : Body σ → Visit (Body (Option ScopeId))
  | .block body => return .block (← visitStmts here body)
  | .expression value => return .expression (← visitExpr here value)

def visitDeclarators (here : Place) (kind : VariableKind) :
    List (Declarator σ) → Visit (List (Declarator (Option ScopeId)))
  | [] => return []
  | ⟨name, init⟩ :: rest => do
    if kind == .var then checkVar here name
    let declarator := ⟨name, ← visitExpr? here init⟩
    return declarator :: (← visitDeclarators here kind rest)

def visitDeclaration (here : Place) : Declaration σ → Visit (Declaration (Option ScopeId))
  | ⟨kind, declarators⟩ => return ⟨kind, ← visitDeclarators here kind declarators⟩

def visitBlock (here : Place) : Block σ → Visit (Block (Option ScopeId))
  | ⟨_, body⟩ => do
    let inside ← enterBlock here (blockBindings here.strict (blockDeclared body))
    return ⟨some inside.scope, ← visitStmts inside body⟩

def visitBlock? (here : Place) : Option (Block σ) → Visit (Option (Block (Option ScopeId)))
  | none => return none
  | some block => return some (← visitBlock here block)

def visitCases (here : Place) : List (Case σ) → Visit (List (Case (Option ScopeId)))
  | [] => return []
  | ⟨test, consequent⟩ :: rest => do
    let clause := ⟨← visitExpr? here test, ← visitStmts here consequent⟩
    return clause :: (← visitCases here rest)

/-- Visits a catch clause that may be absent: its parameter has a scope of its
own around the block. -/
def visitCatch? (here : Place) : Option (Catch σ) → Visit (Option (Catch (Option ScopeId)))
  | none => return none
  | some ⟨_, param, body⟩ => do
    let bindings := param.toList.map fun name => ⟨name, .parameter⟩
    let id ← enter .catchClause (some here.scope) here.strict false (.ok bindings)
    return some ⟨some id, param, ← visitBlock ⟨id, here.strict⟩ body⟩

def visitHead (here : Place) : Head σ → Visit (Head (Option ScopeId))
  | .declaration declaration => return .declaration (← visitDeclaration here declaration)
  | .expression value => return .expression (← visitExpr here value)

/-- Visits a first part that may be absent. -/
def visitHead? (here : Place) : Option (Head σ) → Visit (Option (Head (Option ScopeId)))
  | none => return none
  | some head => return some (← visitHead here head)

def visitStmt (here : Place) : Stmt σ → Visit (Stmt (Option ScopeId))
  | .declare declaration => return .declare (← visitDeclaration here declaration)
  | .function function => return .function (← visitFunc here false false function)
  | .expression value => return .expression (← visitExpr here value)
  | .block block => return .block (← visitBlock here block)
  | .ifElse test consequent alternate =>
    return .ifElse (← visitExpr here test) (← visitStmt here consequent)
      (← visitStmt? here alternate)
  | .switchOn _ discriminant cases => do
    let discriminant ← visitExpr here discriminant
    let lexicals := blockDeclared (caseStatements cases)
    let inside ← enterBlock here (blockBindings here.strict lexicals)
    return .switchOn (some inside.scope) discriminant (← visitCases inside cases)
  | .whileDo test body => return .whileDo (← visitExpr here test) (← visitStmt here body)
  | .doWhile body test => return .doWhile (← visitStmt here body) (← visitExpr here test)
  | .forLoop _ init test update body => do
    let bindings :=
      match init with
      | some head => headBindings head
      | none => .ok []
    let inside ← enterBlock here bindings
    return .forLoop (some inside.scope) (← visitHead? inside init) (← visitExpr? inside test)
      (← visitExpr? inside update) (← visitStmt inside body)
  | .forIn _ left right body => do
    let right ← visitExpr here right
    let inside ← enterBlock here (headBindings left)
    return .forIn (some inside.scope) (← visitHead inside left) right (← visitStmt inside body)
  | .forOf _ left right body => do
    let right ← visitExpr here right
    let inside ← enterBlock here (headBindings left)
    return .forOf (some inside.scope) (← visitHead inside left) right (← visitStmt inside body)
  | .returnValue argument => return .returnValue (← visitExpr? here argument)
  | .breakTo label => return .breakTo label
  | .continueTo label => return .continueTo label
  | .throwValue argument => return .throwValue (← visitExpr here argument)
  | .tryBlock block handler finalizer =>
    return .tryBlock (← visitBlock here block) (← visitCatch? here handler)
      (← visitBlock? here finalizer)
  | .withObject _ object body => do
    if here.strict then throw .withInStrictCode
    let object ← visitExpr here object
    let id ← enter .withObject (some here.scope) false false (.ok [])
    return .withObject (some id) object (← visitStmt ⟨id, false⟩ body)
  | .labelled label body => return .labelled label (← visitStmt here body)
  | .debugger => return .debugger
  | .empty => return .empty

def visitStmt? (here : Place) : Option (Stmt σ) → Visit (Option (Stmt (Option ScopeId)))
  | none => return none
  | some statement => return some (← visitStmt here statement)

def visitStmts (here : Place) : List (Stmt σ) → Visit (List (Stmt (Option ScopeId)))
  | [] => return []
  | statement :: rest => return (← visitStmt here statement) :: (← visitStmts here rest)

end

def visitProgram (program : Program σ) : Visit (Program (Option ScopeId)) := do
  let kind :=
    match program.goal with
    | .script => .script
    | .module => .module
  let bindings := do bodyBindings (← importBindings program.imports) program.body
  let id ← enter kind none program.isStrict false bindings
  let body ← visitStmts ⟨id, program.isStrict⟩ program.body
  let uses := (← get).uses
  adjust id fun scope => { scope with dynamic := scope.dynamic || uses.isDynamic false }
  return ⟨body, program.goal, program.imports⟩

structure Analysed where
  scopes : Scopes
  program : Program (Option ScopeId)

/-- The scopes of a program, or why it is refused. -/
def analyse (program : Program σ) : Except EarlyError Analysed := do
  let (program, progress) ← (visitProgram program).run {}
  return ⟨progress.scopes, program⟩

end Ecma.Scope
