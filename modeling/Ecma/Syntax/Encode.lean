/-
Programs as JSON values. Statements and expressions say their type; every
field is written, an absent part as `null`.
-/
import Ecma.Json.Basic
import Ecma.Syntax.Tree

namespace Ecma.Syntax

/-- A statement or an expression: its type before its fields. -/
def node (type : String) (fields : List (String × Json)) : Json :=
  .object (("type", .string type) :: fields)

/-- A name that stands for a variable, a parameter or a label. -/
def encodeName (name : String) : Json :=
  .object [("name", .string name)]

def encodeName? : Option String → Json
  | none => .null
  | some name => encodeName name

def Literal.encode : Literal → Json
  | .boolean value => .bool value
  | .number value => .ofFloat value
  | .string value => .string value
  | .null => .null

def encodeQuasi (text : String) : Json :=
  .object [("value", .object [("cooked", .string text)])]

def VariableKind.symbol : VariableKind → String
  | .var => "var"
  | .let_ => "let"
  | .const => "const"

def Goal.symbol : Goal → String
  | .script => "script"
  | .module => "module"

variable {σ : Type}

mutual

def Expr.encode : Expr σ → Json
  | .identifier name => node "Identifier" [("name", .string name)]
  | .literal value => node "Literal" [("value", value.encode)]
  | .template quasis expressions =>
    node "TemplateLiteral"
      [("quasis", .array (quasis.map encodeQuasi)),
        ("expressions", .array (encodeExprs expressions))]
  | .this => node "ThisExpression" []
  | .array elements => node "ArrayExpression" [("elements", .array (encodeElements elements))]
  | .object properties =>
    node "ObjectExpression" [("properties", .array (encodeProperties properties))]
  | .function function => node "FunctionExpression" function.encodeFields
  | .arrow function => node "ArrowFunctionExpression" function.encodeFields
  | .unary operator argument =>
    node "UnaryExpression"
      [("operator", .string operator.symbol), ("argument", argument.encode)]
  | .update operator leading argument =>
    node "UpdateExpression"
      [("operator", .string operator.symbol), ("prefix", .bool leading),
        ("argument", argument.encode)]
  | .binary operator left right =>
    node "BinaryExpression"
      [("operator", .string operator.symbol), ("left", left.encode), ("right", right.encode)]
  | .logical operator left right =>
    node "LogicalExpression"
      [("operator", .string operator.symbol), ("left", left.encode), ("right", right.encode)]
  | .assign operator target value =>
    node "AssignmentExpression"
      [("operator", .string operator.symbol), ("left", target.encode), ("right", value.encode)]
  | .conditional test consequent alternate =>
    node "ConditionalExpression"
      [("test", test.encode), ("consequent", consequent.encode), ("alternate", alternate.encode)]
  | .call callee arguments =>
    node "CallExpression"
      [("callee", callee.encode), ("arguments", .array (encodeExprs arguments))]
  | .new callee arguments =>
    node "NewExpression"
      [("callee", callee.encode), ("arguments", .array (encodeExprs arguments))]
  | .member object property computed =>
    node "MemberExpression"
      [("object", object.encode), ("property", property.encode), ("computed", .bool computed)]
  | .sequence expressions =>
    node "SequenceExpression" [("expressions", .array (encodeExprs expressions))]
  | .yield argument delegate =>
    node "YieldExpression" [("argument", encodeExpr? argument), ("delegate", .bool delegate)]
  | .await argument => node "AwaitExpression" [("argument", argument.encode)]

def encodeExpr? : Option (Expr σ) → Json
  | none => .null
  | some value => value.encode

def encodeExprs : List (Expr σ) → List Json
  | [] => []
  | value :: rest => value.encode :: encodeExprs rest

def encodeElements : List (Option (Expr σ)) → List Json
  | [] => []
  | element :: rest => encodeExpr? element :: encodeElements rest

def encodeProperties : List (Property σ) → List Json
  | [] => []
  | ⟨key, value, computed⟩ :: rest =>
    .object [("key", key.encode), ("value", value.encode), ("computed", .bool computed)]
      :: encodeProperties rest

def Func.encodeFields : Func σ → List (String × Json)
  | ⟨_, name, params, body, isAsync, isGenerator⟩ =>
    [("id", encodeName? name), ("params", .array (params.map encodeName)),
      ("body", body.encode), ("async", .bool isAsync), ("generator", .bool isGenerator)]

/-- A body: a block without a type, or an expression. -/
def Body.encode : Body σ → Json
  | .block body => .object [("body", .array (encodeStmts body))]
  | .expression value => value.encode

def encodeDeclarators : List (Declarator σ) → List Json
  | [] => []
  | ⟨name, init⟩ :: rest =>
    .object [("id", encodeName name), ("init", encodeExpr? init)] :: encodeDeclarators rest

def Declaration.encodeFields : Declaration σ → List (String × Json)
  | ⟨kind, declarators⟩ =>
    [("kind", .string kind.symbol), ("declarations", .array (encodeDeclarators declarators))]

def Block.encodeFields : Block σ → List (String × Json)
  | ⟨_, body⟩ => [("body", .array (encodeStmts body))]

def encodeBlock? : Option (Block σ) → Json
  | none => .null
  | some block => .object block.encodeFields

def encodeCases : List (Case σ) → List Json
  | [] => []
  | ⟨test, consequent⟩ :: rest =>
    .object [("test", encodeExpr? test), ("consequent", .array (encodeStmts consequent))]
      :: encodeCases rest

def encodeCatch? : Option (Catch σ) → Json
  | none => .null
  | some ⟨_, param, body⟩ =>
    .object [("param", encodeName? param), ("body", .object body.encodeFields)]

/-- The first part of a loop head: a declaration without a type, or an
expression. -/
def Head.encode : Head σ → Json
  | .declaration declaration => .object declaration.encodeFields
  | .expression value => value.encode

def encodeHead? : Option (Head σ) → Json
  | none => .null
  | some head => head.encode

def Stmt.encode : Stmt σ → Json
  | .declare declaration => node "VariableDeclaration" declaration.encodeFields
  | .function function => node "FunctionDeclaration" function.encodeFields
  | .expression value => node "ExpressionStatement" [("expression", value.encode)]
  | .block block => node "BlockStatement" block.encodeFields
  | .ifElse test consequent alternate =>
    node "IfStatement"
      [("test", test.encode), ("consequent", consequent.encode),
        ("alternate", encodeStmt? alternate)]
  | .switchOn _ discriminant cases =>
    node "SwitchStatement"
      [("discriminant", discriminant.encode), ("cases", .array (encodeCases cases))]
  | .whileDo test body => node "WhileStatement" [("test", test.encode), ("body", body.encode)]
  | .doWhile body test => node "DoWhileStatement" [("body", body.encode), ("test", test.encode)]
  | .forLoop _ init test update body =>
    node "ForStatement"
      [("init", encodeHead? init), ("test", encodeExpr? test), ("update", encodeExpr? update),
        ("body", body.encode)]
  | .forIn _ left right body =>
    node "ForInStatement"
      [("left", left.encode), ("right", right.encode), ("body", body.encode)]
  | .forOf _ left right body =>
    node "ForOfStatement"
      [("left", left.encode), ("right", right.encode), ("body", body.encode)]
  | .returnValue argument => node "ReturnStatement" [("argument", encodeExpr? argument)]
  | .breakTo label => node "BreakStatement" [("label", encodeName? label)]
  | .continueTo label => node "ContinueStatement" [("label", encodeName? label)]
  | .throwValue argument => node "ThrowStatement" [("argument", argument.encode)]
  | .tryBlock block handler finalizer =>
    node "TryStatement"
      [("block", .object block.encodeFields), ("handler", encodeCatch? handler),
        ("finalizer", encodeBlock? finalizer)]
  | .withObject _ object body =>
    node "WithStatement" [("object", object.encode), ("body", body.encode)]
  | .labelled label body =>
    node "LabeledStatement" [("label", encodeName label), ("body", body.encode)]
  | .debugger => node "DebuggerStatement" []
  | .empty => node "EmptyStatement" []

def encodeStmt? : Option (Stmt σ) → Json
  | none => .null
  | some statement => statement.encode

def encodeStmts : List (Stmt σ) → List Json
  | [] => []
  | statement :: rest => statement.encode :: encodeStmts rest

end

def Program.encode (program : Program σ) : Json :=
  .object
    [("body", .array (encodeStmts program.body)),
      ("sourceType", .string program.goal.symbol),
      ("imports", .array (program.imports.map encodeName))]

end Ecma.Syntax
