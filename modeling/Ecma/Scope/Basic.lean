/-
Scopes and the resolution of names. The scopes of a program stand in one array
and refer to their parent by index; a parent comes before its children.
-/
namespace Ecma

abbrev ScopeId := Nat

inductive ScopeKind where
  | script | module | function | block | withObject | catchClause
  deriving DecidableEq, Repr, Inhabited

def ScopeKind.name : ScopeKind → String
  | script => "Script"
  | module => "Module"
  | function => "Function"
  | block => "Block"
  | withObject => "With"
  | catchClause => "Catch"

inductive BindingKind where
  | var | let_ | const | function
  /-- A parameter of a function or of a catch clause. -/
  | parameter
  | arguments
  /-- The name of a function expression, inside itself. -/
  | callee
  /-- A name taken from outside the module. -/
  | imported
  deriving DecidableEq, Repr

namespace BindingKind

def name : BindingKind → String
  | var => "Var"
  | let_ => "Let"
  | const => "Const"
  | function => "Function"
  | parameter => "Parameter"
  | arguments => "Arguments"
  | callee => "Callee"
  | imported => "Import"

/-- Bindings that cannot be read before they are initialised. -/
def isLexical : BindingKind → Bool
  | let_ | const => true
  | _ => false

def isImmutable : BindingKind → Bool
  | const | callee | imported => true
  | _ => false

end BindingKind

structure Binding where
  name : String
  kind : BindingKind
  deriving DecidableEq, Repr

/-- A scope with its bindings in slot order. -/
structure Scope where
  kind : ScopeKind
  parent : Option ScopeId
  bindings : List Binding
  /-- Whether a name that is not found here may still be bound at run time. -/
  dynamic : Bool
  strict : Bool
  arrow : Bool
  deriving Repr, Inhabited

namespace Scope

/-! ## Bindings -/

def kindIn? (bindings : List Binding) (name : String) : Option BindingKind :=
  (bindings.find? fun binding => binding.name == name).map Binding.kind

def slotOf? (scope : Scope) (name : String) : Option Nat :=
  scope.bindings.findIdx? fun binding => binding.name == name

def kindOf? (scope : Scope) (name : String) : Option BindingKind :=
  kindIn? scope.bindings name

def materializes (scope : Scope) : Bool :=
  match scope.kind with
  | .script => false
  | .module | .function | .withObject => true
  | .block | .catchClause => !scope.bindings.isEmpty

/-- Whether the scope owns `var` declarations. -/
def isVarScope (scope : Scope) : Bool :=
  match scope.kind with
  | .script | .module | .function => true
  | .block | .withObject | .catchClause => false

end Scope

/-! ## Resolution -/

/-- How a name is found at run time. -/
inductive Resolution where
  /-- `hops` records out, at `slot`. -/
  | static (scope : ScopeId) (hops slot : Nat)
  /-- By its name along the chain of records. -/
  | dynamic
  /-- In the global environment, by its name. -/
  | global
  /-- Not declared in the one scope that was searched. -/
  | unresolved
  deriving DecidableEq, Repr

def Resolution.text : Resolution → String
  | static scope hops slot => s!"static scope={scope} hops={hops} slot={slot}"
  | dynamic => "dynamic"
  | global => "global"
  | unresolved => "unresolved"

/-- A resolved name, and its kind if the declaration is known. -/
structure Resolved where
  resolution : Resolution
  kind : Option BindingKind
  deriving DecidableEq, Repr

namespace Resolved

def needsCheck (name : Resolved) : Bool := name.kind.any BindingKind.isLexical

def isImmutable (name : Resolved) : Bool := name.kind.any BindingKind.isImmutable

end Resolved

abbrev Scopes := Array Scope

namespace Scopes

/-- A scope and those around it, innermost first. -/
def chainFrom (scopes : Scopes) : (fuel : Nat) → ScopeId → List (ScopeId × Scope)
  | 0, _ => []
  | fuel + 1, id =>
    match scopes[id]? with
    | none => []
    | some scope =>
      (id, scope) ::
        match scope.parent with
        | none => []
        | some parent => chainFrom scopes fuel parent

/-- A scope and those around it, innermost first; a parent has a smaller index,
so that the index of the scope bounds their number. -/
def chain (scopes : Scopes) (id : ScopeId) : List (ScopeId × Scope) :=
  chainFrom scopes (id + 1) id

def scope (scopes : Scopes) (id : ScopeId) : Scope := scopes.getD id default

/-- The nearest scope around that owns `var` declarations. -/
def varScope (scopes : Scopes) (id : ScopeId) : ScopeId :=
  let chain := scopes.chain id
  match chain.find? fun (_, scope) => scope.isVarScope with
  | some (owner, _) => owner
  | none => (chain.getLast?.map Prod.fst).getD id

/-- The resolution of a name along a chain of scopes. A name that passes a
dynamic scope is looked up at run time, wherever it is declared; so is one that
is declared by a script or nowhere. -/
def resolveAlong (name : String) (hops : Nat) (dynamic : Bool) :
    List (ScopeId × Scope) → Resolved
  | [] => ⟨if dynamic then .dynamic else .global, none⟩
  | (id, scope) :: outer =>
    match scope.kind, scope.slotOf? name with
    | .script, _ => ⟨if dynamic then .dynamic else .global, scope.kindOf? name⟩
    | _, some slot => ⟨if dynamic then .dynamic else .static id hops slot, scope.kindOf? name⟩
    | _, none =>
      resolveAlong name (if scope.materializes then hops + 1 else hops)
        (dynamic || scope.dynamic) outer

def resolve (scopes : Scopes) (id : ScopeId) (name : String) : Resolved :=
  resolveAlong name 0 false (scopes.chain id)

def resolveHere (scopes : Scopes) (id : ScopeId) (name : String) : Resolved :=
  let scope := scopes.scope id
  match scope.slotOf? name with
  | none => ⟨.unresolved, none⟩
  | some slot =>
    ⟨if scope.kind = .script then .global else .static id 0 slot, scope.kindOf? name⟩

end Scopes

end Ecma
