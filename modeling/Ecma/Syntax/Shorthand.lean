/-
A short notation for programs: each node is an array, whose head is the name of
the form and whose other items are its parts. What may be absent is null.
-/
import Ecma.Json.Access
import Ecma.Syntax.Build
import Ecma.Syntax.Decode

namespace Ecma.Syntax.Shorthand

/-- A part that may be absent. -/
def optional? (read? : Json → Option α) : Json → Option (Option α)
  | .null => some none
  | json => some <$> read? json

def string? (json : Json) : Option String := json.asString.toOption

def bool? (json : Json) : Option Bool := json.asBool.toOption

/-- The items of a list; an absent list is empty. -/
def items? : Json → Option (List Json)
  | .array items => some items
  | .null => some []
  | _ => none

def strings? (json : Json) : Option (List String) := do (← items? json).mapM string?

/-- A part of a node by its place; parts that are absent at the end are null. -/
def part (parts : List Json) (place : Nat) : Json := (parts[place]?).getD .null

def node? : Json → Option (String × List Json)
  | .array (.string form :: parts) => some (form, parts)
  | _ => none

/-- A kind of function, by the name of its form. -/
def function? : String → Option (Option String → List String → List (Stmt Unit) → Func Unit)
  | "function" => some Build.function
  | "generator" => some Build.generator
  | "async" => some Build.async
  | _ => none

mutual

def expr? : (fuel : Nat) → Json → Option (Expr Unit)
  | 0, _ => none
  | fuel + 1, json => do
    let (form, parts) ← node? json
    let first := part parts 0
    let second := part parts 1
    let third := part parts 2
    let exprs? (json : Json) : Option (List (Expr Unit)) := do (← items? json).mapM (expr? fuel)
    match form with
    | "ident" => return .identifier (← string? first)
    | "num" => return Build.number (← first.asDouble.toOption)
    | "str" => return Build.string (← string? first)
    | "bool" => return Build.boolean (← bool? first)
    | "null" => return Build.null
    | "this" => return .this
    | "template" => return .template (← strings? first) (← exprs? second)
    | "array" => return Build.array (← exprs? first)
    | "object" =>
      return .object (← (← items? first).mapM fun json => do
        let parts ← items? json
        return Build.property (← string? (part parts 0)) (← expr? fuel (part parts 1)))
    | "object_with" =>
      return .object (← (← items? first).mapM fun json => do
        let (form, parts) ← node? json
        let value ← expr? fuel (part parts 1)
        match form with
        | "computed" => return Build.computedProperty (← expr? fuel (part parts 0)) value
        | "static" => return Build.property (← string? (part parts 0)) value
        | _ => none)
    | "arrow" =>
      return Build.arrow (← strings? first) (← (← items? second).mapM (stmt? fuel))
    | "arrow_expr" => return Build.arrowExpression (← strings? first) (← expr? fuel second)
    | "unary" =>
      return .unary (← UnaryOperator.ofSymbol? (← string? first)) (← expr? fuel second)
    | "typeof" => return .unary .typeOf (← expr? fuel first)
    | "not" => return .unary .not (← expr? fuel first)
    | "update" =>
      return .update (← UpdateOperator.ofSymbol? (← string? first)) (← bool? second)
        (← expr? fuel third)
    | "post_inc" => return .update .increment false (← expr? fuel first)
    | "binary" =>
      return .binary (← BinaryOperator.ofSymbol? (← string? first)) (← expr? fuel second)
        (← expr? fuel third)
    | "add" => return Build.add (← expr? fuel first) (← expr? fuel second)
    | "strict_eq" => return Build.compare .strictEqual (← expr? fuel first) (← expr? fuel second)
    | "lt" => return Build.compare .less (← expr? fuel first) (← expr? fuel second)
    | "logical" =>
      return .logical (← LogicalOperator.ofSymbol? (← string? first)) (← expr? fuel second)
        (← expr? fuel third)
    | "assign" => return .assign .plain (← expr? fuel first) (← expr? fuel second)
    | "assign_op" =>
      return .assign (← AssignOperator.ofSymbol? (← string? first)) (← expr? fuel second)
        (← expr? fuel third)
    | "conditional" =>
      return .conditional (← expr? fuel first) (← expr? fuel second) (← expr? fuel third)
    | "call" => return .call (← expr? fuel first) (← exprs? second)
    | "call_method" =>
      return Build.callMethod (← expr? fuel first) (← string? second) (← exprs? third)
    | "new" => return .new (← expr? fuel first) (← exprs? second)
    | "member" => return Build.member (← expr? fuel first) (← string? second)
    | "index" => return Build.index (← expr? fuel first) (← expr? fuel second)
    | "sequence" => return .sequence (← exprs? first)
    | "yield" => return .yield (← optional? (expr? fuel) first) false
    | "yield_star" => return .yield (some (← expr? fuel first)) true
    | "await" => return .await (← expr? fuel first)
    | form =>
      let function ← function? form
      return .function (function (← optional? string? first) (← strings? second)
        (← (← items? third).mapM (stmt? fuel)))

def stmt? : (fuel : Nat) → Json → Option (Stmt Unit)
  | 0, _ => none
  | fuel + 1, json => do
    let (form, parts) ← node? json
    let first := part parts 0
    let second := part parts 1
    let third := part parts 2
    let fourth := part parts 3
    let block? (json : Json) : Option (List (Stmt Unit)) := do (← items? json).mapM (stmt? fuel)
    match form with
    | "expr" => return Build.run (← expr? fuel first)
    | "print" => return Build.print (← (← items? first).mapM (expr? fuel))
    | "block" => return .block (Build.block (← block? first))
    | "if" =>
      return .ifElse (← expr? fuel first) (← stmt? fuel second) (← optional? (stmt? fuel) third)
    | "while" => return .whileDo (← expr? fuel first) (← stmt? fuel second)
    | "do_while" => return .doWhile (← stmt? fuel first) (← expr? fuel second)
    | "for" =>
      return .forLoop () (← optional? (head? fuel) first) (← optional? (expr? fuel) second)
        (← optional? (expr? fuel) third) (← stmt? fuel fourth)
    | "for_of" =>
      return Build.forOf (← VariableKind.ofSymbol? (← string? first)) (← string? second)
        (← expr? fuel third) (← stmt? fuel fourth)
    | "for_in" =>
      return Build.forIn (← VariableKind.ofSymbol? (← string? first)) (← string? second)
        (← expr? fuel third) (← stmt? fuel fourth)
    | "return" => return .returnValue (← optional? (expr? fuel) first)
    | "break" => return .breakTo (← optional? string? first)
    | "continue" => return .continueTo (← optional? string? first)
    | "throw" => return .throwValue (← expr? fuel first)
    | "try_catch" =>
      return Build.tryBlock (← block? first) (some (← string? second, ← block? third)) none
    | "try_finally" => return Build.tryBlock (← block? first) none (some (← block? second))
    | "try_catch_finally" =>
      return Build.tryBlock (← block? first) (some (← string? second, ← block? third))
        (some (← block? fourth))
    | "labeled" => return .labelled (← string? first) (← stmt? fuel second)
    | "with" => return .withObject () (← expr? fuel first) (← stmt? fuel second)
    | "switch" =>
      return .switchOn () (← expr? fuel first) (← (← items? second).mapM fun json => do
        let (form, parts) ← node? json
        match form with
        | "case" => return ⟨some (← expr? fuel (part parts 0)), ← block? (part parts 1)⟩
        | "default" => return ⟨none, ← block? (part parts 0)⟩
        | _ => none)
    | form =>
      match function? form with
      | some function =>
        return .function (function (some (← string? first)) (← strings? second) (← block? third))
      | none =>
        return Build.declare (← VariableKind.ofSymbol? form) (← string? first)
          (← optional? (expr? fuel) second)

/-- What stands first in the head of a loop. -/
def head? : (fuel : Nat) → Json → Option (Head Unit)
  | 0, _ => none
  | fuel + 1, json => do
    let (form, parts) ← node? json
    match form with
    | "expr" => return .expression (← expr? fuel (part parts 0))
    | kind =>
      return .declaration (Build.declaration (← VariableKind.ofSymbol? kind)
        (← string? (part parts 0)) (← optional? (expr? fuel) (part parts 1)))

end

/-- The statements of a program. -/
def body? (json : Json) : Option (List (Stmt Unit)) := do
  (← items? json).mapM (stmt? json.depth)

/-- A program: a script, a strict script or a module with imports. -/
def program? (goal : String) (imports : List String) (body : Json) : Option (Program Unit) := do
  let body ← body? body
  return match goal with
    | "strict" => Build.strictScript body
    | "module" => Build.module imports body
    | _ => Build.script body

end Ecma.Syntax.Shorthand
