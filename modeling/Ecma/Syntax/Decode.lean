/-
Programs from JSON values. A record is an object, whose unknown members are
left aside, or an array of its fields in order; statements and expressions are
told apart by their type. What has the wrong form is no program.
-/
import Ecma.Json.Reader
import Ecma.Syntax.Encode

namespace Ecma.Syntax

/-! ## Records -/

/-- The fields of a record in the order of `names`, `none` where absent. A known
field that occurs twice, or more items than fields, is refused. -/
def record? (names : List String) : Json → Option (List (Option Json))
  | .object members =>
    names.mapM fun name =>
      match Json.valuesOf name members with
      | [] => some none
      | [value] => some (some value)
      | _ => none
  | .array items =>
    if items.length ≤ names.length then
      some (items.map some ++ List.replicate (names.length - items.length) none)
    else none
  | _ => none

/-- A field that may be absent or `null`. -/
def optional? {α : Type} (read? : Json → Option α) : Option Json → Option (Option α)
  | none | some .null => some none
  | some json => (read? json).map some

/-- A field that is false if absent. -/
def flag? : Option Json → Option Bool
  | none => some false
  | some (.bool value) => some value
  | some _ => none

def bool? : Json → Option Bool
  | .bool value => some value
  | _ => none

def string? : Json → Option String
  | .string value => some value
  | _ => none

/-- An array of values of one form. -/
def list? {α : Type} (read? : Json → Option α) : Json → Option (List α)
  | .array items => items.mapM read?
  | _ => none

/-- A name from a closed list: a string, or an object with that one member, which
is null or, if `bare` is allowed, an empty object. -/
def choice? {α : Type} (bare : Bool) (ofSymbol? : String → Option α) : Json → Option α
  | .string symbol => ofSymbol? symbol
  | .object [(symbol, .null)] => ofSymbol? symbol
  | .object [(symbol, .object [])] => if bare then ofSymbol? symbol else none
  | _ => none

/-- The type of a node and its fields. In place of a name the type may be given
by its number in the list of types. -/
def typed? (types : List String) : Json → Option (String × Json)
  | .object members =>
    match Json.valuesOf "type" members with
    | [type] => do return (← typeName? type, .object members)
    | _ => none
  | .array (type :: fields) => do return (← typeName? type, .array fields)
  | _ => none
where
  typeName? : Json → Option String
    | .string name => if types.contains name then some name else none
    | .integer index => if index < 0 then none else types[index.toNat]?
    | _ => none

/-- Whether the type of a node is given by its name. -/
def isNamed : Json → Bool
  | .object members => (Json.valuesOf "type" members).all fun type => (string? type).isSome
  | .array (type :: _) => (string? type).isSome
  | _ => true

/-! ## Parts without statements or expressions -/

/-- A name that stands for a variable, a parameter or a label. -/
def name? (json : Json) : Option String := do
  let [name] ← record? ["name"] json | none
  string? (← name)

def literal? : Json → Option Literal
  | .bool value => some (.boolean value)
  | .integer value => some (.number (Float.ofInt value))
  | .real value => some (.number value)
  | .string value => some (.string value)
  | .null => some .null
  | _ => none

def quasi? (json : Json) : Option String := do
  let [value] ← record? ["value"] json | none
  let [cooked] ← record? ["cooked"] (← value) | none
  string? (← cooked)

def VariableKind.ofSymbol? : String → Option VariableKind :=
  lookup? [.var, .let_, .const] VariableKind.symbol

def Goal.ofSymbol? : String → Option Goal :=
  lookup? [.script, .module] Goal.symbol

def statementTypes : List String :=
  ["VariableDeclaration", "FunctionDeclaration", "ExpressionStatement", "BlockStatement",
    "IfStatement", "SwitchStatement", "WhileStatement", "DoWhileStatement", "ForStatement",
    "ForInStatement", "ForOfStatement", "ReturnStatement", "BreakStatement",
    "ContinueStatement", "ThrowStatement", "TryStatement", "WithStatement",
    "LabeledStatement", "DebuggerStatement", "EmptyStatement"]

def expressionTypes : List String :=
  ["Identifier", "Literal", "TemplateLiteral", "ThisExpression", "ArrayExpression",
    "ObjectExpression", "FunctionExpression", "ArrowFunctionExpression", "UnaryExpression",
    "UpdateExpression", "BinaryExpression", "LogicalExpression", "AssignmentExpression",
    "ConditionalExpression", "CallExpression", "NewExpression", "MemberExpression",
    "SequenceExpression", "YieldExpression", "AwaitExpression"]

/-- A node without fields: what else an object holds is left aside, an array has
no items left. -/
def bare? {α : Type} (value : α) : Json → Option α
  | .array (_ :: _) => none
  | _ => some value

/-! ## Trees -/

mutual

/-- An expression with at most `depth` levels of JSON. -/
def expr? : (depth : Nat) → Json → Option (Expr Unit)
  | 0, _ => none
  | depth + 1, json => do
    let (type, fields) ← typed? expressionTypes json
    match type with
    | "Identifier" => return .identifier (← name? fields)
    | "Literal" =>
      let [value] ← record? ["value"] fields | none
      return .literal (← literal? (← value))
    | "TemplateLiteral" =>
      let [quasis, expressions] ← record? ["quasis", "expressions"] fields | none
      return .template (← list? quasi? (← quasis))
        (← list? (fun json => expr? depth json) (← expressions))
    | "ThisExpression" => bare? .this fields
    | "ArrayExpression" =>
      let [elements] ← record? ["elements"] fields | none
      let element? := fun json => optional? (fun json => expr? depth json) (some json)
      return .array (← list? element? (← elements))
    | "ObjectExpression" =>
      let [properties] ← record? ["properties"] fields | none
      return .object (← list? (fun json => property? depth json) (← properties))
    | "FunctionExpression" => return .function (← func? depth fields)
    | "ArrowFunctionExpression" => return .arrow (← func? depth fields)
    | "UnaryExpression" =>
      let [operator, argument] ← record? ["operator", "argument"] fields | none
      return .unary (← choice? true UnaryOperator.ofSymbol? (← operator))
        (← expr? depth (← argument))
    | "UpdateExpression" =>
      let [operator, leading, argument] ← record? ["operator", "prefix", "argument"] fields | none
      return .update (← choice? true UpdateOperator.ofSymbol? (← operator)) (← bool? (← leading))
        (← expr? depth (← argument))
    | "BinaryExpression" =>
      let [operator, left, right] ← record? ["operator", "left", "right"] fields | none
      return .binary (← choice? true BinaryOperator.ofSymbol? (← operator))
        (← expr? depth (← left)) (← expr? depth (← right))
    | "LogicalExpression" =>
      let [operator, left, right] ← record? ["operator", "left", "right"] fields | none
      return .logical (← choice? true LogicalOperator.ofSymbol? (← operator))
        (← expr? depth (← left)) (← expr? depth (← right))
    | "AssignmentExpression" =>
      let [operator, left, right] ← record? ["operator", "left", "right"] fields | none
      return .assign (← choice? true AssignOperator.ofSymbol? (← operator))
        (← expr? depth (← left)) (← expr? depth (← right))
    | "ConditionalExpression" =>
      let [test, consequent, alternate] ←
        record? ["test", "consequent", "alternate"] fields | none
      return .conditional (← expr? depth (← test)) (← expr? depth (← consequent))
        (← expr? depth (← alternate))
    | "CallExpression" =>
      let [callee, arguments] ← record? ["callee", "arguments"] fields | none
      return .call (← expr? depth (← callee))
        (← list? (fun json => expr? depth json) (← arguments))
    | "NewExpression" =>
      let [callee, arguments] ← record? ["callee", "arguments"] fields | none
      return .new (← expr? depth (← callee))
        (← list? (fun json => expr? depth json) (← arguments))
    | "MemberExpression" =>
      let [object, property, computed] ← record? ["object", "property", "computed"] fields | none
      return .member (← expr? depth (← object)) (← expr? depth (← property)) (← flag? computed)
    | "SequenceExpression" =>
      let [expressions] ← record? ["expressions"] fields | none
      return .sequence (← list? (fun json => expr? depth json) (← expressions))
    | "YieldExpression" =>
      let [argument, delegate] ← record? ["argument", "delegate"] fields | none
      return .yield (← optional? (fun json => expr? depth json) argument) (← flag? delegate)
    | "AwaitExpression" =>
      let [argument] ← record? ["argument"] fields | none
      return .await (← expr? depth (← argument))
    | _ => none

def property? : (depth : Nat) → Json → Option (Property Unit)
  | 0, _ => none
  | depth + 1, json => do
    let [key, value, computed] ← record? ["key", "value", "computed"] json | none
    return ⟨← expr? depth (← key), ← expr? depth (← value), ← flag? computed⟩

def func? : (depth : Nat) → Json → Option (Func Unit)
  | 0, _ => none
  | depth + 1, json => do
    let [name, params, body, isAsync, isGenerator] ←
      record? ["id", "params", "body", "async", "generator"] json | none
    return ⟨(), ← optional? name? name, ← list? name? (← params), ← body? depth (← body),
      ← flag? isAsync, ← flag? isGenerator⟩

/-- A body: a block whatever its type, or else an expression. -/
def body? : (depth : Nat) → Json → Option (Body Unit)
  | 0, _ => none
  | depth + 1, json =>
    match block? depth json with
    | some block => some (.block block.body)
    | none => (expr? depth json).map .expression

def declarator? : (depth : Nat) → Json → Option (Declarator Unit)
  | 0, _ => none
  | depth + 1, json => do
    let [name, init] ← record? ["id", "init"] json | none
    return ⟨← name? (← name), ← optional? (fun json => expr? depth json) init⟩

/-- The fields of a declaration; `bare` tells how its kind may be written. -/
def declaration? : (depth : Nat) → (bare : Bool) → Json → Option (Declaration Unit)
  | 0, _, _ => none
  | depth + 1, bare, json => do
    let [kind, declarators] ← record? ["kind", "declarations"] json | none
    return ⟨← choice? bare VariableKind.ofSymbol? (← kind),
      ← list? (fun json => declarator? depth json) (← declarators)⟩

def block? : (depth : Nat) → Json → Option (Block Unit)
  | 0, _ => none
  | depth + 1, json => do
    let [body] ← record? ["body"] json | none
    return ⟨(), ← list? (fun json => stmt? depth json) (← body)⟩

def case? : (depth : Nat) → Json → Option (Case Unit)
  | 0, _ => none
  | depth + 1, json => do
    let [test, consequent] ← record? ["test", "consequent"] json | none
    return ⟨← optional? (fun json => expr? depth json) test,
      ← list? (fun json => stmt? depth json) (← consequent)⟩

def catch? : (depth : Nat) → Json → Option (Catch Unit)
  | 0, _ => none
  | depth + 1, json => do
    let [param, body] ← record? ["param", "body"] json | none
    return ⟨(), ← optional? name? param, ← block? depth (← body)⟩

/-- The first part of a loop head: a declaration whatever its type, or else an
expression. -/
def head? : (depth : Nat) → Json → Option (Head Unit)
  | 0, _ => none
  | depth + 1, json =>
    match declaration? depth false json with
    | some declaration => some (.declaration declaration)
    | none => (expr? depth json).map .expression

def stmt? : (depth : Nat) → Json → Option (Stmt Unit)
  | 0, _ => none
  | depth + 1, json => do
    let (type, fields) ← typed? statementTypes json
    match type with
    | "VariableDeclaration" => return .declare (← declaration? depth true fields)
    | "FunctionDeclaration" => return .function (← func? depth fields)
    | "ExpressionStatement" =>
      let [value] ← record? ["expression"] fields | none
      return .expression (← expr? depth (← value))
    | "BlockStatement" => return .block (← block? depth fields)
    | "IfStatement" =>
      let [test, consequent, alternate] ←
        record? ["test", "consequent", "alternate"] fields | none
      return .ifElse (← expr? depth (← test)) (← stmt? depth (← consequent))
        (← optional? (fun json => stmt? depth json) alternate)
    | "SwitchStatement" =>
      let [discriminant, cases] ← record? ["discriminant", "cases"] fields | none
      return .switchOn () (← expr? depth (← discriminant))
        (← list? (fun json => case? depth json) (← cases))
    | "WhileStatement" =>
      let [test, body] ← record? ["test", "body"] fields | none
      return .whileDo (← expr? depth (← test)) (← stmt? depth (← body))
    | "DoWhileStatement" =>
      let [body, test] ← record? ["body", "test"] fields | none
      return .doWhile (← stmt? depth (← body)) (← expr? depth (← test))
    | "ForStatement" =>
      let [init, test, update, body] ← record? ["init", "test", "update", "body"] fields | none
      return .forLoop () (← optional? (fun json => head? depth json) init)
        (← optional? (fun json => expr? depth json) test)
        (← optional? (fun json => expr? depth json) update) (← stmt? depth (← body))
    | "ForInStatement" =>
      let [left, right, body] ← record? ["left", "right", "body"] fields | none
      return .forIn () (← head? depth (← left)) (← expr? depth (← right))
        (← stmt? depth (← body))
    | "ForOfStatement" =>
      let [left, right, body] ← record? ["left", "right", "body"] fields | none
      return .forOf () (← head? depth (← left)) (← expr? depth (← right))
        (← stmt? depth (← body))
    | "ReturnStatement" =>
      let [argument] ← record? ["argument"] fields | none
      return .returnValue (← optional? (fun json => expr? depth json) argument)
    | "BreakStatement" =>
      let [label] ← record? ["label"] fields | none
      return .breakTo (← optional? name? label)
    | "ContinueStatement" =>
      let [label] ← record? ["label"] fields | none
      return .continueTo (← optional? name? label)
    | "ThrowStatement" =>
      let [argument] ← record? ["argument"] fields | none
      return .throwValue (← expr? depth (← argument))
    | "TryStatement" =>
      let [block, handler, finalizer] ← record? ["block", "handler", "finalizer"] fields | none
      return .tryBlock (← block? depth (← block))
        (← optional? (fun json => catch? depth json) handler)
        (← optional? (fun json => block? depth json) finalizer)
    | "WithStatement" =>
      let [object, body] ← record? ["object", "body"] fields | none
      return .withObject () (← expr? depth (← object)) (← stmt? depth (← body))
    | "LabeledStatement" =>
      let [label, body] ← record? ["label", "body"] fields | none
      return .labelled (← name? (← label)) (← stmt? depth (← body))
    | "DebuggerStatement" => bare? .debugger fields
    | "EmptyStatement" => bare? .empty fields
    | _ => none

end

/-! ## Programs -/

def programFields : List String := ["body", "sourceType", "imports"]

/-- Three times the levels of a value: every node passes at most three readers on
its way to a part that is a level deeper. -/
def fuelOf (json : Json) : Nat := 3 * json.depth

/-- A program. The types of the statements at its top are given by their
names. -/
def Program.ofJson? (json : Json) : Option (Program Unit) := do
  let [body, goal, imports] ← record? programFields json | none
  let body ← body
  let statement? := fun json => if isNamed json then stmt? (fuelOf json) json else none
  let goal ←
    match goal with
    | none => some .script
    | some json => choice? false Goal.ofSymbol? json
  let imports ←
    match imports with
    | none => some []
    | some json => list? name? json
  return ⟨← list? statement? body, goal, imports⟩

def maxTextDepth : Nat := 127

/-- What is read of the text of a program: its statements whole, and of its imports
the names. -/
def programPlan : Json.Plan :=
  .record [("body", .all), ("sourceType", .all), ("imports", .list (.record [("name", .all)]))]

def Program.ofText? (text : String) : Option (Program Unit) := do
  Program.ofJson? (← Json.ofText? programPlan maxTextDepth text)

end Ecma.Syntax
