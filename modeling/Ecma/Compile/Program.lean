/-
Code for whole programs: a script keeps the value of its last expression
statement, a module runs for its effects.
-/
import Ecma.Compile.Body
import Ecma.Scope.Analysis

namespace Ecma.Compile

open Code Syntax

inductive Refusal where
  | early (error : Scope.EarlyError)
  | expectedScript
  | expectedModule
  | internal (error : CompileError)
  deriving DecidableEq, Repr

/-- Whether the program is at fault, and not its tree. -/
def Refusal.isSyntax : Refusal → Bool
  | early _ | expectedScript | expectedModule => true
  | internal _ => false

def Refusal.message : Refusal → String
  | early error => "SyntaxError: " ++ error.message
  | expectedScript => "SyntaxError: expected a script, found a module"
  | expectedModule => "SyntaxError: expected a module, found a script"
  | internal error => "internal compiler error: " ++ error.message

structure Script where
  template : Template
  goal : Goal
  /-- The imported names, in the order in which the code loads them. -/
  imports : List String

def scriptCode (body : List (Stmt (Option ScopeId))) : Emit Unit := do
  declareGlobals body (hoistGlobal (functions body))
  let register ← newRegister
  let completion ← fun context =>
    inOrder (stmts body) { context with completion := some register }
  if !completion.isAbrupt then
    opRegister .loadReg register
    op .returnValue

def moduleCode (scope : ScopeId) (imports : List String)
    (body : List (Stmt (Option ScopeId))) : Emit Unit := do
  createBindings scope
  initializeImports scope imports
  initializeVars scope
  hoist scope (functions body)
  statementsBody (inOrder (stmts body))

def template (options : Options) (analysed : Scope.Analysed) : Except CompileError Template :=
  let root := 0
  let context : Context :=
    { scopes := analysed.scopes
      options
      kind := .script
      strict := (analysed.scopes.scope root).strict
      scope := root }
  let program := analysed.program
  match program.goal with
  | .script => compileUnit context "<script>" 0 (scriptCode program.body)
  | .module =>
    compileUnit { context with kind := .module } "<module>" 0
      (moduleCode root program.imports program.body)

variable {σ : Type}

def compile (options : Options) (program : Program σ) : Except Refusal Script :=
  match Scope.analyse program with
  | .error error => .error (.early error)
  | .ok analysed =>
    match template options analysed with
    | .error error => .error (.internal error)
    | .ok template => .ok ⟨template, program.goal, program.imports⟩

def compileScript (options : Options) (program : Program σ) : Except Refusal Script :=
  match program.goal with
  | .script => compile options program
  | .module => .error .expectedScript

def compileModule (options : Options) (program : Program σ) : Except Refusal Script :=
  match program.goal with
  | .module => compile options program
  | .script => .error .expectedModule

end Ecma.Compile
