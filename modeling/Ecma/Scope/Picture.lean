/-
Scopes and resolved names as JSON, for those who inspect an analysis.
-/
import Ecma.Json.Access
import Ecma.Scope.Basic

namespace Ecma.Scopes

open Json (nat orNull)

def scopePicture (scopes : Scopes) (id : ScopeId) : Json :=
  let scope := scopes.scope id
  let bindings := scope.bindings.map fun binding =>
    Json.array [.string binding.name, .string binding.kind.name]
  .object
    [("kind", .string scope.kind.name), ("parent", orNull nat scope.parent),
      ("bindings", .array bindings), ("dynamic", .bool scope.dynamic),
      ("strict", .bool scope.strict), ("arrow", .bool scope.arrow),
      ("materializes", .bool scope.materializes), ("var_scope", nat (scopes.varScope id))]

/-- The picture of a name as seen from a scope, or in that scope only. -/
def resolvedPicture (scopes : Scopes) (name : String) (id : ScopeId) (here : Bool) : Json :=
  let resolved := if here then scopes.resolveHere id name else scopes.resolve id name
  .array [.string name, nat id, .bool here, .string resolved.resolution.text,
    orNull (fun kind => .string kind.name) resolved.kind, .bool resolved.needsCheck,
    .bool resolved.isImmutable]

/-- Scopes, and names as seen from each of them. -/
def picture (scopes : Scopes) (names : List String) : Json :=
  let ids := List.range scopes.size
  let resolved := names.flatMap fun name => ids.flatMap fun id =>
    [scopes.resolvedPicture name id false, scopes.resolvedPicture name id true]
  .object [("scopes", .array (ids.map scopes.scopePicture)), ("resolved", .array resolved)]

end Ecma.Scopes
