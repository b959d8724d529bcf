/-
Programs by hand: short forms for the trees that hosts assemble most often.
-/
import Ecma.Syntax.Tree

namespace Ecma.Syntax.Build

/-! ## Programs -/

def run (value : Expr Unit) : Stmt Unit := .expression value

def string (value : String) : Expr Unit := .literal (.string value)

def script (body : List (Stmt Unit)) : Program Unit := ⟨body, .script, []⟩

def strictScript (body : List (Stmt Unit)) : Program Unit :=
  script (run (string "use strict") :: body)

def module (imports : List String) (body : List (Stmt Unit)) : Program Unit :=
  ⟨body, .module, imports⟩

/-! ## Expressions -/

def number (value : Float) : Expr Unit := .literal (.number value)

def boolean (value : Bool) : Expr Unit := .literal (.boolean value)

def null : Expr Unit := .literal .null

def array (elements : List (Expr Unit)) : Expr Unit := .array (elements.map some)

def property (name : String) (value : Expr Unit) : Property Unit :=
  ⟨.identifier name, value, false⟩

def computedProperty (key value : Expr Unit) : Property Unit := ⟨key, value, true⟩

def object (properties : List (String × Expr Unit)) : Expr Unit :=
  .object (properties.map fun (name, value) => property name value)

def function (name : Option String) (params : List String) (body : List (Stmt Unit)) :
    Func Unit :=
  ⟨(), name, params, .block body, false, false⟩

def generator (name : Option String) (params : List String) (body : List (Stmt Unit)) :
    Func Unit :=
  { function name params body with isGenerator := true }

def async (name : Option String) (params : List String) (body : List (Stmt Unit)) :
    Func Unit :=
  { function name params body with isAsync := true }

def arrow (params : List String) (body : List (Stmt Unit)) : Expr Unit :=
  .arrow (function none params body)

def arrowExpression (params : List String) (value : Expr Unit) : Expr Unit :=
  .arrow ⟨(), none, params, .expression value, false, false⟩

/-- The sum of two values, or their strings joined. -/
def add (left right : Expr Unit) : Expr Unit := .binary .add left right

def compare (relation : Relation) (left right : Expr Unit) : Expr Unit :=
  .binary (.relation relation) left right

def member (object : Expr Unit) (name : String) : Expr Unit :=
  .member object (.identifier name) false

def index (object key : Expr Unit) : Expr Unit := .member object key true

def callMethod (object : Expr Unit) (name : String) (arguments : List (Expr Unit)) : Expr Unit :=
  .call (member object name) arguments

/-! ## Statements -/

/-- The call of the host's print function. -/
def print (arguments : List (Expr Unit)) : Stmt Unit :=
  run (.call (.identifier "print") arguments)

def declaration (kind : VariableKind) (name : String) (init : Option (Expr Unit)) :
    Declaration Unit :=
  ⟨kind, [⟨name, init⟩]⟩

def declare (kind : VariableKind) (name : String) (init : Option (Expr Unit)) : Stmt Unit :=
  .declare (declaration kind name init)

def block (body : List (Stmt Unit)) : Block Unit := ⟨(), body⟩

def forOf (kind : VariableKind) (name : String) (right : Expr Unit) (body : Stmt Unit) :
    Stmt Unit :=
  .forOf () (.declaration (declaration kind name none)) right body

def forIn (kind : VariableKind) (name : String) (right : Expr Unit) (body : Stmt Unit) :
    Stmt Unit :=
  .forIn () (.declaration (declaration kind name none)) right body

/-- A protected block with a named exception, a finalizer, or both. -/
def tryBlock (body : List (Stmt Unit)) (handler : Option (String × List (Stmt Unit)))
    (finalizer : Option (List (Stmt Unit))) : Stmt Unit :=
  .tryBlock (block body) (handler.map fun (param, body) => ⟨(), some param, block body⟩)
    (finalizer.map block)

end Ecma.Syntax.Build
