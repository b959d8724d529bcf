/-
Programs as trees. Every node that may open a scope carries an annotation of
type `σ`: `Unit` in a program as written, the scope it owns once the program
has been analysed.
-/
import Ecma.Syntax.Operator

namespace Ecma.Syntax

/-- How the top level of a program is read. -/
inductive Goal where
  | script | module
  deriving DecidableEq, Repr

/-- The three kinds of variable declarations. -/
inductive VariableKind where
  | var | let_ | const
  deriving DecidableEq, Repr

inductive Literal where
  | boolean (value : Bool)
  | number (value : Float)
  | string (value : String)
  | null

mutual

inductive Expr (σ : Type) where
  | identifier (name : String)
  | literal (value : Literal)
  | template (quasis : List String) (expressions : List (Expr σ))
  | this
  /-- Elements, `none` for a hole. -/
  | array (elements : List (Option (Expr σ)))
  | object (properties : List (Property σ))
  | function (function : Func σ)
  | arrow (function : Func σ)
  | unary (operator : UnaryOperator) (argument : Expr σ)
  /-- A step of a variable; `leading` if the operator stands in front. -/
  | update (operator : UpdateOperator) (leading : Bool) (argument : Expr σ)
  | binary (operator : BinaryOperator) (left right : Expr σ)
  | logical (operator : LogicalOperator) (left right : Expr σ)
  | assign (operator : AssignOperator) (target value : Expr σ)
  | conditional (test consequent alternate : Expr σ)
  | call (callee : Expr σ) (arguments : List (Expr σ))
  | new (callee : Expr σ) (arguments : List (Expr σ))
  | member (object property : Expr σ) (computed : Bool)
  | sequence (expressions : List (Expr σ))
  | yield (argument : Option (Expr σ)) (delegate : Bool)
  | await (argument : Expr σ)

structure Property (σ : Type) where
  key : Expr σ
  value : Expr σ
  computed : Bool

/-- A function of any kind; its place says whether it is a declaration, an
expression or an arrow function. -/
structure Func (σ : Type) where
  scope : σ
  name : Option String
  params : List String
  body : Body σ
  isAsync : Bool
  isGenerator : Bool

/-- The body of a function: statements, or one expression. -/
inductive Body (σ : Type) where
  | block (body : List (Stmt σ))
  | expression (value : Expr σ)

/-- A declared variable with its initial value. -/
structure Declarator (σ : Type) where
  name : String
  init : Option (Expr σ)

/-- A list of variables declared together. -/
structure Declaration (σ : Type) where
  kind : VariableKind
  declarators : List (Declarator σ)

structure Block (σ : Type) where
  scope : σ
  body : List (Stmt σ)

/-- A clause of a switch; without a test it is the default clause. -/
structure Case (σ : Type) where
  test : Option (Expr σ)
  consequent : List (Stmt σ)

structure Catch (σ : Type) where
  scope : σ
  param : Option String
  body : Block σ

/-- What stands first in the head of a loop. -/
inductive Head (σ : Type) where
  | declaration (declaration : Declaration σ)
  | expression (value : Expr σ)

inductive Stmt (σ : Type) where
  | declare (declaration : Declaration σ)
  | function (function : Func σ)
  | expression (value : Expr σ)
  | block (block : Block σ)
  | ifElse (test : Expr σ) (consequent : Stmt σ) (alternate : Option (Stmt σ))
  | switchOn (scope : σ) (discriminant : Expr σ) (cases : List (Case σ))
  | whileDo (test : Expr σ) (body : Stmt σ)
  | doWhile (body : Stmt σ) (test : Expr σ)
  | forLoop (scope : σ) (init : Option (Head σ)) (test update : Option (Expr σ)) (body : Stmt σ)
  | forIn (scope : σ) (left : Head σ) (right : Expr σ) (body : Stmt σ)
  | forOf (scope : σ) (left : Head σ) (right : Expr σ) (body : Stmt σ)
  | returnValue (argument : Option (Expr σ))
  | breakTo (label : Option String)
  | continueTo (label : Option String)
  | throwValue (argument : Expr σ)
  | tryBlock (block : Block σ) (handler : Option (Catch σ)) (finalizer : Option (Block σ))
  | withObject (scope : σ) (object : Expr σ) (body : Stmt σ)
  | labelled (label : String) (body : Stmt σ)
  | debugger
  | empty

end

/-- A whole program; `imports` are the names that a module takes from outside. -/
structure Program (σ : Type) where
  body : List (Stmt σ)
  goal : Goal
  imports : List String

variable {σ : Type}

def Expr.identifier? : Expr σ → Option String
  | .identifier name => some name
  | _ => none

def Expr.string? : Expr σ → Option String
  | .literal (.string value) => some value
  | _ => none

/-- The statements of a function; a body that is one expression has none. -/
def Func.statements (function : Func σ) : List (Stmt σ) :=
  match function.body with
  | .block body => body
  | .expression _ => []

/-- Whether the leading string statements of a body include `use strict`. -/
def usesStrict : List (Stmt σ) → Bool
  | .expression (.literal (.string text)) :: rest => text == "use strict" || usesStrict rest
  | _ => false

def Func.usesStrict (function : Func σ) : Bool :=
  Syntax.usesStrict function.statements

/-- Modules are strict, and scripts that say so. -/
def Program.isStrict (program : Program σ) : Bool :=
  program.goal == .module || usesStrict program.body

/-- Whether a declaration is scoped to its block. -/
def VariableKind.isLexical : VariableKind → Bool
  | .var => false
  | .let_ | .const => true

/-- The statements of every clause, in order. -/
def caseStatements (cases : List (Case σ)) : List (Stmt σ) :=
  cases.flatMap Case.consequent

end Ecma.Syntax
