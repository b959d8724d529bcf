/-
The names that a list of statements declares: with `var`, searched through
nested statements but not nested functions; lexically, directly in the list;
and the functions hoisted to its top.
-/
import Ecma.Syntax.Tree

namespace Ecma.Scope

open Syntax

variable {σ : Type}

/-! ## Variables -/

/-- The names of a `var` declaration. -/
def varNames (declaration : Declaration σ) : List String :=
  match declaration.kind with
  | .var => declaration.declarators.map Declarator.name
  | .let_ | .const => []

def varNamesOfHead : Head σ → List String
  | .declaration declaration => varNames declaration
  | .expression _ => []

mutual

/-- The `var` names of a statement, repeated as declared. -/
def varNamesOf : Stmt σ → List String
  | .declare declaration => varNames declaration
  | .block ⟨_, body⟩ => varNamesOfList body
  | .ifElse _ consequent alternate => varNamesOf consequent ++ varNamesOf? alternate
  | .switchOn _ _ cases => varNamesOfCases cases
  | .whileDo _ body => varNamesOf body
  | .doWhile body _ => varNamesOf body
  | .forLoop _ init _ _ body => (init.map varNamesOfHead).getD [] ++ varNamesOf body
  | .forIn _ left _ body => varNamesOfHead left ++ varNamesOf body
  | .forOf _ left _ body => varNamesOfHead left ++ varNamesOf body
  | .tryBlock ⟨_, block⟩ handler finalizer =>
    varNamesOfList block ++ varNamesOfCatch? handler ++ varNamesOfBlock? finalizer
  | .withObject _ _ body => varNamesOf body
  | .labelled _ body => varNamesOf body
  | _ => []

def varNamesOf? : Option (Stmt σ) → List String
  | none => []
  | some statement => varNamesOf statement

def varNamesOfList : List (Stmt σ) → List String
  | [] => []
  | statement :: rest => varNamesOf statement ++ varNamesOfList rest

def varNamesOfCases : List (Case σ) → List String
  | [] => []
  | ⟨_, consequent⟩ :: rest => varNamesOfList consequent ++ varNamesOfCases rest

def varNamesOfBlock? : Option (Block σ) → List String
  | none => []
  | some ⟨_, body⟩ => varNamesOfList body

/-- The `var` names of a catch clause that may be absent. -/
def varNamesOfCatch? : Option (Catch σ) → List String
  | none => []
  | some ⟨_, _, ⟨_, body⟩⟩ => varNamesOfList body

end

/-- The names that a body declares with `var`, each where it first occurs. -/
def varDeclared (body : List (Stmt σ)) : List String :=
  (varNamesOfList body).eraseDups

/-! ## Functions -/

/-- The function that a statement declares, through any labels. -/
def functionOf? : Stmt σ → Option (Func σ)
  | .function function => some function
  | .labelled _ body => functionOf? body
  | _ => none

/-- The functions declared directly in a body, in order. -/
def functionsDeclared (body : List (Stmt σ)) : List (Func σ) :=
  body.filterMap functionOf?

/-! ## Lexical declarations -/

/-- The kinds of lexical declarations. -/
inductive LexicalKind where
  | let_ | const | function
  deriving DecidableEq, Repr

def LexicalKind.name : LexicalKind → String
  | let_ => "Let"
  | const => "Const"
  | function => "Function"

structure Lexical where
  name : String
  kind : LexicalKind
  deriving DecidableEq, Repr

def lexicalKind? : VariableKind → Option LexicalKind
  | .var => none
  | .let_ => some .let_
  | .const => some .const

/-- The names of a `let` or `const` declaration. -/
def lexicalsOf (declaration : Declaration σ) : List Lexical :=
  match lexicalKind? declaration.kind with
  | none => []
  | some kind => declaration.declarators.map fun declarator => ⟨declarator.name, kind⟩

/-- The `let` and `const` names of a statement that is such a declaration. -/
def lexicalsOfStmt : Stmt σ → List Lexical
  | .declare declaration => lexicalsOf declaration
  | _ => []

/-- The `let` and `const` names declared directly in the body of a script, a
module or a function. -/
def lexicalsDeclared (body : List (Stmt σ)) : List Lexical :=
  body.flatMap lexicalsOfStmt

/-- The name of a function declared in a block. -/
def functionLexical? (statement : Stmt σ) : Option Lexical := do
  let function ← functionOf? statement
  return ⟨← function.name, .function⟩

/-- The lexical names of a block, where functions count among them. -/
def blockDeclared (body : List (Stmt σ)) : List Lexical :=
  body.flatMap fun statement => lexicalsOfStmt statement ++ (functionLexical? statement).toList

end Ecma.Scope
