/-
Programs as JSON values, and back. A program whose numbers are finite is read from its own encoding:
every node is told apart from every other form that its place allows. What is read from a value
whose numbers are finite is such a program.
-/
import Ecma.Proofs.Demand
import Ecma.Syntax.Decode

namespace Ecma

/-! ## Finite numbers -/

namespace Json

mutual

/-- A value all of whose numbers are finite; others have no JSON text. -/
def Finite : Json → Prop
  | .integer value => (Float.ofInt value).isFinite = true
  | .real value => value.isFinite = true
  | .array items => FiniteItems items
  | .object members => FiniteMembers members
  | .null | .bool _ | .string _ => True

def FiniteItems : List Json → Prop
  | [] => True
  | item :: items => item.Finite ∧ FiniteItems items

def FiniteMembers : List (String × Json) → Prop
  | [] => True
  | (_, value) :: members => value.Finite ∧ FiniteMembers members

end

end Json

namespace Syntax

/-- A literal that is not an infinite number, nor none at all. -/
def Literal.Finite : Literal → Prop
  | .number value => value.isFinite = true
  | .boolean _ | .string _ | .null => True

/-- All numbers are finite. -/
def finite : Demand Unit := { literal := Literal.Finite }

/-! ## Reading what was written -/

/-- The values of fields leave some fuel for their parts. -/
def Fits (slack depth : Nat) : List (String × Json) → Prop
  | [] => True
  | (_, value) :: fields => 3 * value.depth + slack ≤ depth ∧ Fits slack depth fields

theorem fits_of_le {slack depth} (hs : slack ≤ 2) : {fields : List (String × Json)} →
    3 * (Json.depthMembers fields + 1) ≤ depth + 1 → Fits slack depth fields
  | [], _ => trivial
  | (_, value) :: fields, hd => by
    change 3 * (max value.depth (Json.depthMembers fields) + 1) ≤ depth + 1 at hd
    exact ⟨by omega, fits_of_le hs (by omega)⟩

theorem fits_of_part {depth fields} (hd : 3 * (Json.object fields).depth ≤ depth)
    : Fits 1 depth fields :=
  fits_of_le (by decide) (Nat.le_succ_of_le hd)

/-- With enough fuel, a reader gives a value. -/
def Reads {α : Type} (read : Nat → Json → Option α) (json : Json) (a : α) : Prop :=
  ∀ depth, 3 * json.depth ≤ depth → read depth json = some a

section

variable {α β : Type} {read : Nat → Json → Option α} {fields : List (String × Json)}
  {type : String} {a : α}

theorem Reads.of_fits {slack} (hs : slack ≤ 2)
    (h : ∀ depth, Fits slack depth fields → read (depth + 1) (.object fields) = some a) :
    Reads read (.object fields) a := by
  intro depth hd
  change 3 * (Json.depthMembers fields + 1) ≤ depth at hd
  cases depth with
  | zero => omega
  | succ depth => exact h depth (fits_of_le hs hd)

theorem Reads.record
    (h : ∀ depth, Fits 0 depth fields → read (depth + 1) (.object fields) = some a) :
    Reads read (.object fields) a := .of_fits (by decide) h

theorem Reads.node
    (h : ∀ depth, Fits 0 depth fields → read (depth + 1) (Syntax.node type fields) = some a) :
    Reads read (Syntax.node type fields) a := .of_fits (by decide) fun depth hd => h depth hd.2

/-- A node that hands its fields to one more reader, or a part to two. -/
theorem Reads.wide
    (h : ∀ depth, Fits 2 depth fields → read (depth + 1) (Syntax.node type fields) = some a) :
    Reads read (Syntax.node type fields) a := .of_fits (by decide) fun depth hd => h depth hd.2

theorem Reads.cons {item : Json} {items : List Json} {rest : List α} (h : Reads read item a)
    (hr : Reads (fun depth => list? (read depth)) (.array items) rest) :
    Reads (fun depth => list? (read depth)) (.array (item :: items)) (a :: rest) := by
  intro depth hd
  change 3 * (max item.depth (Json.depthItems items) + 1) ≤ depth at hd
  have hr : items.mapM (read depth) = some rest := hr depth (by
    change 3 * (Json.depthItems items + 1) ≤ depth
    omega)
  change (item :: items).mapM (read depth) = some (a :: rest)
  rw [List.mapM_cons, h depth (by omega), hr]
  rfl

end

/-- A part of a node that is read as a value. -/
structure ReadPart where
  {type : Type}
  {read : Option type}
  {value : type}
  reads : read = some value

namespace ReadPart

/-- What makes a node of the values of its parts. -/
def Maker (node : Type) : List ReadPart → Type
  | [] => node
  | part :: rest => part.type → Maker node rest

variable {node : Type}

/-- Reads the parts of a node one after the other. -/
def gather : (parts : List ReadPart) → Maker node parts → Option node
  | [], made => pure made
  | part :: rest, make => do gather rest (make (← part.read))

def supply : (parts : List ReadPart) → Maker node parts → node
  | [], made => made
  | part :: rest, make => supply rest (make part.value)

/-- A node is read if its parts are. -/
theorem node_read : (parts : List ReadPart) → (make : Maker node parts) →
    gather parts make = some (supply parts make)
  | [], _ => rfl
  | part :: rest, make => by
    rw [gather, part.reads]
    exact node_read rest (make part.value)

end ReadPart

open ReadPart (node_read)

section

variable {α β : Type} {a : α}

theorem list?_map {encode read?} (h : ∀ b, read? (encode b) = some b) (items : List β) :
    list? read? (.array (items.map encode)) = some items := by
  change (items.map encode).mapM read? = some items
  induction items with
  | nil => rfl
  | cons item rest ih =>
    rw [List.map_cons, List.mapM_cons, h, ih]
    rfl

theorem optional?_of_ne_null {read? json} (hn : json ≠ .null) (h : read? json = some a)
    : optional? read? (some json) = some (some a) := by
  cases json with
  | null => exact absurd rfl hn
  | _ => exact congrArg (Option.map some) h

end

theorem optional?_encodeName? (name : Option String) :
    optional? name? (some (encodeName? name)) = some name := by
  cases name <;> rfl

theorem list?_encodeName : (names : List String) →
    list? name? (.array (names.map encodeName)) = some names :=
  list?_map fun _ => rfl

theorem list?_encodeQuasi : (quasis : List String) →
    list? quasi? (.array (quasis.map encodeQuasi)) = some quasis :=
  list?_map fun _ => rfl

theorem Literal.literal?_encode {value} (h : value.Finite) :
    literal? value.encode = some value := by
  cases value with
  | number value =>
    have h : value.isFinite = true := h
    change literal? (if value.isFinite then _ else _) = _
    rw [if_pos h]
    rfl
  | _ => rfl

theorem VariableKind.ofSymbol?_symbol (kind : VariableKind) :
    ofSymbol? kind.symbol = some kind := by
  cases kind <;> rfl

/-! ### No expression passes for anything else -/

theorem Expr.encode_ne_null (value : Expr Unit) : value.encode ≠ .null := by
  cases value <;> exact Json.noConfusion

theorem Stmt.encode_ne_null (statement : Stmt Unit) : statement.encode ≠ .null := by
  cases statement <;> exact Json.noConfusion

theorem Head.encode_ne_null (head : Head Unit) : head.encode ≠ .null := by
  cases head with
  | declaration decl => exact Json.noConfusion
  | expression value => exact value.encode_ne_null

theorem Body.list?_encode (body : Body Unit) (read? : Json → Option (Stmt Unit)) :
    list? read? body.encode = none := by
  cases body with
  | block body => rfl
  | expression value => cases value <;> rfl

/-- An expression is no block: if it has a body, then that is no list of statements. -/
theorem Expr.block?_encode (value : Expr Unit) (depth : Nat) :
    block? depth value.encode = none := by
  cases depth with
  | zero => rfl
  | succ depth =>
    cases value with
    | function fn | arrow fn =>
      obtain ⟨_, _, _, body, _, _⟩ := fn
      change (do return ⟨(), ← list? _ body.encode⟩ : Option (Block Unit)) = none
      rw [body.list?_encode]
      rfl
    | _ => rfl

theorem Expr.declaration?_encode (value : Expr Unit) (depth : Nat) (bare : Bool) :
    declaration? depth bare value.encode = none := by
  cases depth with
  | zero => rfl
  | succ depth =>
    cases value with
    | function fn | arrow fn => obtain ⟨_, _, _, _, _, _⟩ := fn; rfl
    | _ => rfl

/-! ### Trees -/

theorem func?_of_read {json name params body isAsync isGenerator depth}
    (hr : record? ["id", "params", "body", "async", "generator"] json =
      some [some (encodeName? name), some (.array (params.map encodeName)), some body.encode,
        some (.bool isAsync), some (.bool isGenerator)])
    (hb : ∀ depth, 3 * body.encode.depth + 1 ≤ depth → body? depth body.encode = some body)
    (hd : 3 * body.encode.depth + 2 ≤ depth) :
    func? depth json = some ⟨(), name, params, body, isAsync, isGenerator⟩ := by
  cases depth with
  | zero => omega
  | succ depth =>
    rw [func?, hr]
    exact node_read [⟨optional?_encodeName? name⟩,
      ⟨list?_encodeName params⟩,
      ⟨hb depth (by omega)⟩,
      ⟨(rfl : some isAsync = _)⟩,
      ⟨(rfl : some isGenerator = _)⟩] (Func.mk ())

theorem declaration?_of_read {json items kind declarators depth bare}
    (hr : record? ["kind", "declarations"] json = some [some (.string kind.symbol), some items])
    (hi : Reads (fun depth => list? fun json => declarator? depth json) items declarators)
    (hd : 3 * items.depth < depth) : declaration? depth bare json = some ⟨kind, declarators⟩ := by
  cases depth with
  | zero => omega
  | succ depth =>
    rw [declaration?, hr]
    exact node_read [⟨kind.ofSymbol?_symbol⟩, ⟨hi depth (by omega)⟩] Declaration.mk

theorem block?_of_read {json items body depth} (hr : record? ["body"] json = some [some items])
    (hi : Reads (fun depth => list? fun json => stmt? depth json) items body)
    (hd : 3 * items.depth < depth) : block? depth json = some ⟨(), body⟩ := by
  cases depth with
  | zero => omega
  | succ depth =>
    rw [block?, hr]
    exact node_read [⟨hi depth (by omega)⟩] (Block.mk ())

mutual

theorem Expr.reads {strict} : (value : Expr Unit) → value.Meets finite strict →
    Reads expr? value.encode value
  | .identifier _, _ => .node fun _ _ => rfl
  | .literal value, h => .node fun _ _ => node_read [⟨value.literal?_encode h⟩] Expr.literal
  | .template quasis expressions, h => .node fun depth hd =>
    node_read [⟨list?_encodeQuasi quasis⟩, ⟨exprs_read expressions h depth hd.2.1⟩] Expr.template
  | .this, _ => .node fun _ _ => rfl
  | .array elements, h => .node fun depth hd =>
    node_read [⟨elements_read elements h depth hd.1⟩] Expr.array
  | .object properties, h => .node fun depth hd =>
    node_read [⟨properties_read properties h depth hd.1⟩] Expr.object
  | .function ⟨(), _, _, body, _, _⟩, h => .wide fun _ hd =>
    node_read [⟨func?_of_read rfl (body.reads h.2) hd.2.2.1⟩] Expr.function
  | .arrow ⟨(), _, _, body, _, _⟩, h => .wide fun _ hd =>
    node_read [⟨func?_of_read rfl (body.reads h.2) hd.2.2.1⟩] Expr.arrow
  | .unary op arg, h => .node fun depth hd =>
    node_read [⟨op.ofSymbol?_symbol⟩, ⟨arg.reads h depth hd.2.1⟩] Expr.unary
  | .update op leading arg, h => .node fun depth hd =>
    node_read [⟨op.ofSymbol?_symbol⟩,
      ⟨(rfl : some leading = _)⟩,
      ⟨arg.reads h depth hd.2.2.1⟩] Expr.update
  | .binary op left right, h => .node fun depth hd =>
    node_read [⟨op.ofSymbol?_symbol⟩,
      ⟨left.reads h.1 depth hd.2.1⟩,
      ⟨right.reads h.2 depth hd.2.2.1⟩] Expr.binary
  | .logical op left right, h => .node fun depth hd =>
    node_read [⟨op.ofSymbol?_symbol⟩,
      ⟨left.reads h.1 depth hd.2.1⟩,
      ⟨right.reads h.2 depth hd.2.2.1⟩] Expr.logical
  | .assign op target value, h => .node fun depth hd =>
    node_read [⟨op.ofSymbol?_symbol⟩,
      ⟨target.reads h.1 depth hd.2.1⟩,
      ⟨value.reads h.2 depth hd.2.2.1⟩] Expr.assign
  | .conditional test consequent alternate, h => .node fun depth hd =>
    node_read [⟨test.reads h.1 depth hd.1⟩,
      ⟨consequent.reads h.2.1 depth hd.2.1⟩,
      ⟨alternate.reads h.2.2 depth hd.2.2.1⟩] Expr.conditional
  | .call callee args, h => .node fun depth hd =>
    node_read [⟨callee.reads h.1 depth hd.1⟩, ⟨exprs_read args h.2 depth hd.2.1⟩] Expr.call
  | .new callee args, h => .node fun depth hd =>
    node_read [⟨callee.reads h.1 depth hd.1⟩, ⟨exprs_read args h.2 depth hd.2.1⟩] Expr.new
  | .member obj prop computed, h => .node fun depth hd =>
    node_read [⟨obj.reads h.1 depth hd.1⟩,
      ⟨prop.reads (h.2 (.inr trivial)) depth hd.2.1⟩,
      ⟨(rfl : some computed = _)⟩] Expr.member
  | .sequence expressions, h => .node fun depth hd =>
    node_read [⟨exprs_read expressions h depth hd.1⟩] Expr.sequence
  | .yield arg delegate, h => .node fun depth hd =>
    node_read [⟨expr?_reads arg h depth hd.1⟩, ⟨(rfl : some delegate = _)⟩] Expr.yield
  | .await arg, h => .node fun depth hd =>
    node_read [⟨arg.reads h depth hd.1⟩] Expr.await

theorem expr?_reads {strict} : (value : Option (Expr Unit)) → MeetExpr? finite strict value →
    Reads (fun depth json => optional? (fun json => expr? depth json) (some json))
      (encodeExpr? value) value
  | none, _ => fun _ _ => rfl
  | some value, h => fun depth hd =>
    optional?_of_ne_null value.encode_ne_null (value.reads h depth hd)

theorem exprs_read {strict} : (vs : List (Expr Unit)) → MeetExprs finite strict vs →
    Reads (fun depth => list? fun json => expr? depth json) (.array (encodeExprs vs)) vs
  | [], _ => fun _ _ => rfl
  | value :: rest, h => .cons (value.reads h.1) (exprs_read rest h.2)

theorem elements_read {strict} : (elements : List (Option (Expr Unit))) →
    MeetElements finite strict elements →
    Reads (fun depth => list? fun json => optional? (fun json => expr? depth json) (some json))
      (.array (encodeElements elements)) elements
  | [], _ => fun _ _ => rfl
  | element :: rest, h => .cons (expr?_reads element h.1) (elements_read rest h.2)

theorem properties_read {strict} : (properties : List (Property Unit)) →
    MeetProperties finite strict properties →
    Reads (fun depth => list? fun json => property? depth json)
      (.array (encodeProperties properties)) properties
  | [], _ => fun _ _ => rfl
  | ⟨key, value, computed⟩ :: rest, h => .cons (.record fun depth hd =>
      node_read [⟨key.reads (h.1 (.inr trivial)) depth hd.1⟩,
      ⟨value.reads h.2.1 depth hd.2.1⟩,
      ⟨(rfl : some computed = _)⟩] Property.mk) (properties_read rest h.2.2)

theorem Body.reads {strict} : (body : Body Unit) → body.Meets finite strict → (depth : Nat) →
    3 * body.encode.depth + 1 ≤ depth → body? depth body.encode = some body
  | _, _, 0, hd => absurd hd (by omega)
  | .block body, h, depth + 1, hd => by
    rw [body?, Body.encode,
      block?_of_read rfl (stmts_read body h) (fits_of_part (Nat.le_of_succ_le_succ hd)).1]
  | .expression value, h, depth + 1, hd => by
    rw [body?, Body.encode, value.block?_encode, value.reads h depth (Nat.le_of_succ_le_succ hd)]
    rfl

theorem declarators_read {strict} : (declarators : List (Declarator Unit)) →
    MeetDeclarators finite strict declarators →
    Reads (fun depth => list? fun json => declarator? depth json)
      (.array (encodeDeclarators declarators)) declarators
  | [], _ => fun _ _ => rfl
  | ⟨name, init⟩ :: rest, h => .cons (.record fun depth hd =>
      node_read [⟨(rfl : some name = _)⟩, ⟨expr?_reads init h.1 depth hd.2.1⟩] Declarator.mk)
      (declarators_read rest h.2)

theorem block?_reads {strict} : (block : Option (Block Unit)) → MeetBlock? finite strict block →
    Reads (fun depth json => optional? (fun json => block? depth json) (some json))
      (encodeBlock? block) block
  | none, _ => fun _ _ => rfl
  | some ⟨(), body⟩, h => fun _ hd =>
    optional?_of_ne_null Json.noConfusion
      (block?_of_read rfl (stmts_read body h.2) (fits_of_part hd).1)

theorem cases_read {strict} : (cases : List (Case Unit)) → MeetCases finite strict cases →
    Reads (fun depth => list? fun json => case? depth json) (.array (encodeCases cases)) cases
  | [], _ => fun _ _ => rfl
  | ⟨test, consequent⟩ :: rest, h => .cons (.record fun depth hd =>
      node_read [⟨expr?_reads test h.1 depth hd.1⟩,
      ⟨stmts_read consequent h.2.1 depth hd.2.1⟩] Case.mk)
      (cases_read rest h.2.2)

theorem catch?_reads {strict} : (clause : Option (Catch Unit)) → MeetCatch? finite strict clause →
    Reads (fun depth json => optional? (fun json => catch? depth json) (some json))
      (encodeCatch? clause) clause
  | none, _ => fun _ _ => rfl
  | some ⟨(), param, ⟨(), body⟩⟩, h => .record fun _ hd =>
    congrArg (Option.map some) (node_read [⟨optional?_encodeName? param⟩,
      ⟨block?_of_read rfl (stmts_read body h.2) (fits_of_part hd.2.1).1⟩] (Catch.mk ()))

theorem Head.reads {strict} : (head : Head Unit) → head.Meets finite strict → (depth : Nat) →
    3 * head.encode.depth + 1 ≤ depth → head? depth head.encode = some head
  | _, _, 0, hd => absurd hd (by omega)
  | .declaration ⟨_, declarators⟩, h, depth + 1, hd => by
    rw [head?, Head.encode, declaration?_of_read rfl (declarators_read declarators h)
      (fits_of_part (Nat.le_of_succ_le_succ hd)).2.1]
  | .expression value, h, depth + 1, hd => by
    rw [head?, Head.encode, value.declaration?_encode,
      value.reads h depth (Nat.le_of_succ_le_succ hd)]
    rfl

theorem head?_reads {strict} : (head : Option (Head Unit)) →
    MeetHead? finite strict head → (depth : Nat) → 3 * (encodeHead? head).depth + 1 ≤ depth →
    optional? (fun json => head? depth json) (some (encodeHead? head)) = some head
  | none, _, _, _ => rfl
  | some head, h, depth, hd =>
    optional?_of_ne_null head.encode_ne_null (head.reads h depth hd)

theorem Stmt.reads {strict} : (statement : Stmt Unit) → statement.Meets finite strict →
    Reads stmt? statement.encode statement
  | .declare ⟨_, declarators⟩, h => .wide fun _ hd =>
    node_read [⟨declaration?_of_read rfl (declarators_read declarators h)
      (Nat.le_of_succ_le hd.2.1)⟩] Stmt.declare
  | .function ⟨(), _, _, body, _, _⟩, h => .wide fun _ hd =>
    node_read [⟨func?_of_read rfl (body.reads h.2) hd.2.2.1⟩] Stmt.function
  | .expression value, h => .node fun depth hd =>
    node_read [⟨value.reads h depth hd.1⟩] Stmt.expression
  | .block ⟨(), body⟩, h => .wide fun _ hd =>
    node_read [⟨block?_of_read rfl (stmts_read body h.2) (Nat.le_of_succ_le hd.1)⟩] Stmt.block
  | .ifElse test consequent alternate, h => .node fun depth hd =>
    node_read [⟨test.reads h.1 depth hd.1⟩,
      ⟨consequent.reads h.2.1 depth hd.2.1⟩,
      ⟨stmt?_reads alternate h.2.2 depth hd.2.2.1⟩] Stmt.ifElse
  | .switchOn () discriminant cases, h => .node fun depth hd =>
    node_read [⟨discriminant.reads h.1 depth hd.1⟩,
      ⟨cases_read cases h.2.2 depth hd.2.1⟩] (Stmt.switchOn ())
  | .whileDo test body, h => .node fun depth hd =>
    node_read [⟨test.reads h.1 depth hd.1⟩, ⟨body.reads h.2 depth hd.2.1⟩] Stmt.whileDo
  | .doWhile body test, h => .node fun depth hd =>
    node_read [⟨body.reads h.1 depth hd.1⟩, ⟨test.reads h.2 depth hd.2.1⟩] Stmt.doWhile
  | .forLoop () init test update body, h => .wide fun depth hd =>
    node_read [⟨head?_reads init h.2.1 depth (Nat.le_of_succ_le hd.1)⟩,
      ⟨expr?_reads test h.2.2.1 depth (Nat.le_of_add_right_le hd.2.1)⟩,
      ⟨expr?_reads update h.2.2.2.1 depth (Nat.le_of_add_right_le hd.2.2.1)⟩,
      ⟨body.reads h.2.2.2.2 depth (Nat.le_of_add_right_le hd.2.2.2.1)⟩] (Stmt.forLoop ())
  | .forIn () left right body, h => .wide fun depth hd =>
    node_read [⟨left.reads h.2.2.1 depth (Nat.le_of_succ_le hd.1)⟩,
      ⟨right.reads h.1 depth (Nat.le_of_add_right_le hd.2.1)⟩,
      ⟨body.reads h.2.2.2 depth (Nat.le_of_add_right_le hd.2.2.1)⟩] (Stmt.forIn ())
  | .forOf () left right body, h => .wide fun depth hd =>
    node_read [⟨left.reads h.2.2.1 depth (Nat.le_of_succ_le hd.1)⟩,
      ⟨right.reads h.1 depth (Nat.le_of_add_right_le hd.2.1)⟩,
      ⟨body.reads h.2.2.2 depth (Nat.le_of_add_right_le hd.2.2.1)⟩] (Stmt.forOf ())
  | .returnValue arg, h => .node fun depth hd =>
    node_read [⟨expr?_reads arg h depth hd.1⟩] Stmt.returnValue
  | .breakTo label, _ => .node fun _ _ => node_read [⟨optional?_encodeName? label⟩] Stmt.breakTo
  | .continueTo label, _ => .node fun _ _ =>
    node_read [⟨optional?_encodeName? label⟩] Stmt.continueTo
  | .throwValue arg, h => .node fun depth hd =>
    node_read [⟨arg.reads h depth hd.1⟩] Stmt.throwValue
  | .tryBlock ⟨(), body⟩ handler finalizer, h => .node fun depth hd =>
    node_read [⟨block?_of_read rfl (stmts_read body h.1.2) (fits_of_part hd.1).1⟩,
      ⟨catch?_reads handler h.2.1 depth hd.2.1⟩,
      ⟨block?_reads finalizer h.2.2 depth hd.2.2.1⟩] Stmt.tryBlock
  | .withObject () obj body, h => .node fun depth hd =>
    node_read [⟨obj.reads h.2.1 depth hd.1⟩, ⟨body.reads h.2.2 depth hd.2.1⟩] (Stmt.withObject ())
  | .labelled label body, h => .node fun depth hd =>
    node_read [⟨(rfl : some label = _)⟩, ⟨body.reads h depth hd.2.1⟩] Stmt.labelled
  | .debugger, _ | .empty, _ => .node fun _ _ => rfl

theorem stmt?_reads {strict} : (statement : Option (Stmt Unit)) →
    MeetStmt? finite strict statement →
    Reads (fun depth json => optional? (fun json => stmt? depth json) (some json))
      (encodeStmt? statement) statement
  | none, _ => fun _ _ => rfl
  | some statement, h => fun depth hd =>
    optional?_of_ne_null statement.encode_ne_null (statement.reads h depth hd)

theorem stmts_read {strict} : (statements : List (Stmt Unit)) → MeetStmts finite strict statements →
    Reads (fun depth => list? fun json => stmt? depth json) (.array (encodeStmts statements))
      statements
  | [], _ => fun _ _ => rfl
  | statement :: rest, h => .cons (statement.reads h.1) (stmts_read rest h.2)

end

/-! ### Programs -/

theorem Stmt.isNamed_encode (statement : Stmt Unit) : isNamed statement.encode = true := by
  cases statement with
  | declare decl => cases decl; rfl
  | function fn => cases fn; rfl
  | block block => cases block; rfl
  | _ => rfl

theorem named_read {strict} : {statements : List (Stmt Unit)} → MeetStmts finite strict statements →
    (encodeStmts statements).mapM (fun json =>
      if isNamed json then stmt? (fuelOf json) json else none) = some statements
  | [], _ => rfl
  | statement :: rest, h => by
    have hs : stmt? (fuelOf statement.encode) statement.encode = some statement :=
      statement.reads h.1 _ .refl
    rw [encodeStmts, List.mapM_cons, if_pos statement.isNamed_encode, hs, named_read h.2]
    rfl

theorem Goal.ofSymbol?_symbol (goal : Goal) : ofSymbol? goal.symbol = some goal := by
  cases goal <;> rfl

/-- A program whose numbers are finite is read from its encoding. -/
theorem Program.ofJson?_encode {program} (h : program.Meets finite) :
    Program.ofJson? program.encode = some program := by
  obtain ⟨body, goal, imports⟩ := program
  have hgoal : choice? false Goal.ofSymbol? (.string goal.symbol) = some goal :=
    goal.ofSymbol?_symbol
  change (do
    let goal ← choice? false Goal.ofSymbol? (.string goal.symbol)
    let imports ← list? name? (.array (imports.map encodeName))
    return ⟨← (encodeStmts body).mapM fun json =>
      if isNamed json then stmt? (fuelOf json) json else none, goal, imports⟩ :
      Option (Program Unit)) = _
  rw [hgoal, list?_encodeName, named_read h]
  rfl

/-! ## Finite programs from finite values -/

/-- What a reader may give has a property. -/
def Ensures {α : Type} (p : α → Prop) (read : Option α) : Prop := ∀ a, read = some a → p a

/-- What a reader gives of a finite value has a property. -/
def Keeps {α : Type} (p : α → Prop) (read? : Json → Option α) : Prop :=
  ∀ json, json.Finite → Ensures p (read? json)

def FiniteField (field : Option Json) : Prop := Ensures Json.Finite field

section

variable {α β : Type} {p : α → Prop} {q : β → Prop} {json : Json} {names : List String}

theorem Ensures.pure {a : α} (h : p a) : Ensures p (Pure.pure a) :=
  fun _ he => Option.some.inj he ▸ h

theorem Ensures.refused : Ensures p (none : Option α) := fun _ he => by cases he

theorem Ensures.bind {x : Option α} {f : α → Option β} (hx : Ensures p x)
    (hf : ∀ a, p a → Ensures q (f a)) : Ensures q (x >>= f) := by
  intro b hb
  obtain ⟨a, ha, hb⟩ := Option.bind_eq_some_iff.mp hb
  exact hf a (hx a ha) b hb

theorem Ensures.map {x f} (hx : Ensures p x) (hf : ∀ a, p a → q (f a)) : Ensures q (x.map f) := by
  intro b hb
  obtain ⟨a, ha, rfl⟩ := Option.map_eq_some_iff.mp hb
  exact hf a (hx a ha)

/-- Any part that holds no number. -/
theorem Ensures.skip {x : Option α} {f : α → Option β} (hf : ∀ a, Ensures q (f a)) :
    Ensures q (x >>= f) :=
  @Ensures.bind _ _ (fun _ => True) _ _ _ (fun _ _ => trivial) fun a _ => hf a

theorem Ensures.part {field : Option Json} {read? : Json → Option α} {f : α → Option β}
    (h : FiniteField field) (hr : Keeps p read?) (hf : ∀ a, p a → Ensures q (f a)) :
    Ensures q (field >>= fun json => read? json >>= f) :=
  .bind h fun _ hj => .bind (hr _ hj) hf

theorem Keeps.list {all read?} (hn : all []) (hc : ∀ a rest, p a → all rest → all (a :: rest))
    (hr : Keeps p read?) : Keeps all (list? read?) := by
  intro json h
  cases json with
  | array items =>
    change Ensures all (items.mapM read?)
    induction items with
    | nil => exact .pure hn
    | cons item items ih =>
      rw [List.mapM_cons]
      exact .bind (hr _ h.1) fun a ha => .bind (ih h.2) fun rest hrest => .pure (hc a rest ha hrest)
  | _ => exact .refused

theorem FiniteField.optional {some? : Option α → Prop} {field : Option Json}
    {read? : Json → Option α} (hn : some? none) (hs : ∀ a, p a → some? (some a))
    (h : FiniteField field) (hr : Keeps p read?) : Ensures some? (optional? read? field) := by
  intro a ha
  unfold optional? at ha
  split at ha
  · exact Option.some.inj ha ▸ hn
  · exact Option.some.inj ha ▸ hn
  · next json hnull =>
    obtain ⟨b, hb, rfl⟩ := Option.map_eq_some_iff.mp ha
    exact hs b (hr json (h json rfl) b hb)

theorem FiniteField.mk (h : json.Finite) : FiniteField (some json) :=
  fun _ he => Option.some.inj he ▸ h

theorem finite_of_mem_valuesOf {name value} :
    {members : List (String × Json)} → Json.FiniteMembers members →
    value ∈ Json.valuesOf name members → value.Finite
  | [], _, hm => by cases hm
  | (other, first) :: members, h, hm => by
    rw [Json.valuesOf, List.filter_cons] at hm
    split at hm
    · rcases List.mem_cons.mp hm with rfl | hm
      · exact h.1
      · exact finite_of_mem_valuesOf h.2 hm
    · exact finite_of_mem_valuesOf h.2 hm

theorem finite_of_mem_items {value} : {items : List Json} → Json.FiniteItems items →
    value ∈ items → value.Finite
  | [], _, hm => by cases hm
  | _ :: _, h, hm => by
    rcases List.mem_cons.mp hm with rfl | hm
    · exact h.1
    · exact finite_of_mem_items h.2 hm

theorem Ensures.mapM {f} (hf : ∀ b, Ensures p (f b)) (items : List β) :
    Ensures (fun row => ∀ a ∈ row, p a) (items.mapM f) := by
  induction items with
  | nil => exact .pure (List.forall_mem_nil _)
  | cons item items ih =>
    rw [List.mapM_cons]
    exact .bind (hf item) fun a ha => .bind ih fun row hr =>
      .pure (List.forall_mem_cons.mpr ⟨ha, hr⟩)

theorem record?_keeps (names : List String) :
    Keeps (fun row => ∀ field ∈ row, FiniteField field) (record? names) := by
  intro json h
  cases json with
  | object members =>
    refine Ensures.mapM (fun name => ?_) names
    have hv := fun value => @finite_of_mem_valuesOf name value members h
    split
    · exact .pure .refused
    · next value he => exact .pure (.mk (hv value (he ▸ List.mem_singleton_self _)))
    · exact .refused
  | array items =>
    rw [record?]
    split
    · refine .pure fun field hm => ?_
      rcases List.mem_append.mp hm with hm | hm
      · obtain ⟨item, hi, rfl⟩ := List.mem_map.mp hm
        exact .mk (finite_of_mem_items h hi)
      · exact (List.mem_replicate.mp hm).2 ▸ .refused
    · exact .refused
  | _ => exact .refused

theorem typed?_keeps (types : List String) : Keeps (fun node => node.2.Finite) (typed? types) := by
  intro json h
  cases json with
  | object members =>
    rw [typed?]
    split
    · exact .skip fun _ => .pure h
    · exact .refused
  | array items =>
    cases items with
    | nil => exact .refused
    | cons type fields => exact .skip fun _ => .pure h.2
  | _ => exact .refused

theorem literal?_keeps : Keeps Literal.Finite literal? := by
  intro json h
  cases json with
  | integer value | real value => exact .pure h
  | array items | object members => exact .refused
  | _ => exact .pure trivial

theorem Ensures.all {ι : Type} {p : ι → α → Prop} {x : Option α} (h : ∀ i, Ensures (p i) x) :
    Ensures (fun a => ∀ i, p i a) x :=
  fun a ha i => h i a ha

theorem bare?_ensures {a : α} (h : p a) : Ensures p (bare? a json) := by
  unfold bare?
  split
  · exact .refused
  · exact .pure h

/-- The fields of a record, as many as there may be. -/
theorem Ensures.row (h : json.Finite) {k : List (Option Json) → Option α}
    (hk : ∀ row, (∀ field ∈ row, FiniteField field) → Ensures p (k row)) :
    Ensures p (record? names json >>= k) :=
  (record?_keeps names _ h).bind hk

end

/-- At a depth, what is read of a finite value is finite. -/
structure KeepsAt (depth : Nat) : Prop where
  expr : ∀ {strict}, Keeps (Expr.Meets finite strict) (expr? depth)
  property : ∀ {strict}, Keeps
    (fun prop => prop.key.Meets finite strict ∧ prop.value.Meets finite strict)
    (property? depth)
  func : ∀ {strict}, Keeps (Func.Meets finite strict) (func? depth)
  /-- Whether code is strict, its body says. -/
  body : Keeps (fun body => ∀ strict, body.Meets finite strict) (body? depth)
  declarator : ∀ {strict}, Keeps (fun declarator => MeetExpr? finite strict declarator.init)
    (declarator? depth)
  declaration : ∀ {strict} bare, Keeps (Declaration.Meets finite strict) (declaration? depth bare)
  block : ∀ {strict}, Keeps (Block.Meets finite strict) (block? depth)
  case : ∀ {strict}, Keeps
    (fun clause => MeetExpr? finite strict clause.test ∧ MeetStmts finite strict clause.consequent)
    (case? depth)
  clause : ∀ {strict}, Keeps (fun clause => MeetCatch? finite strict (some clause)) (catch? depth)
  head : ∀ {strict}, Keeps (Head.Meets finite strict) (head? depth)
  stmt : ∀ {strict}, Keeps (Stmt.Meets finite strict) (stmt? depth)

namespace KeepsAt

variable {depth : Nat} {strict : Bool} (h : KeepsAt depth) {field : Option Json}

include h

theorem exprs : Keeps (MeetExprs finite strict) (list? fun json => expr? depth json) :=
  .list trivial (fun _ _ ha hr => ⟨ha, hr⟩) h.expr

theorem expr? (hf : FiniteField field) :
    Ensures (MeetExpr? finite strict) (optional? (fun json => Syntax.expr? depth json) field) :=
  hf.optional trivial (fun _ ha => ha) h.expr

theorem stmts : Keeps (MeetStmts finite strict) (list? fun json => stmt? depth json) :=
  .list trivial (fun _ _ ha hr => ⟨ha, hr⟩) h.stmt

theorem properties : Keeps (MeetProperties finite strict)
    (list? fun json => property? depth json) :=
  .list trivial (fun prop _ ha hr => by cases prop; exact ⟨fun _ => ha.1, ha.2, hr⟩) h.property

theorem elements : Keeps (MeetElements finite strict)
    (list? fun json => optional? (fun json => Syntax.expr? depth json) (some json)) :=
  .list trivial (fun _ _ ha hr => ⟨ha, hr⟩) fun _ hj => h.expr? (.mk hj)

theorem declarators : Keeps (MeetDeclarators finite strict)
    (list? fun json => declarator? depth json) :=
  .list trivial (fun declarator _ ha hr => by cases declarator; exact ⟨ha, hr⟩) h.declarator

theorem cases : Keeps (MeetCases finite strict) (list? fun json => case? depth json) :=
  .list trivial (fun clause _ ha hr => by cases clause; exact ⟨ha.1, ha.2, hr⟩) h.case

theorem expr_succ : Keeps (Expr.Meets finite strict) (Syntax.expr? (depth + 1)) := by
  intro json hj
  rw [Syntax.expr?]
  refine (typed?_keeps _ _ hj).bind fun ⟨type, fields⟩ hf => ?_
  dsimp only at hf ⊢
  split
  -- A row with more or fewer fields than the node has is refused.
  all_goals try
    refine .row hf fun row hr => ?_
    split
    rotate_left
    · exact .refused
  · exact .skip fun _ => .pure trivial
  · exact .part (hr _ (by simp)) literal?_keeps fun _ ha => .pure ha
  · exact .skip fun _ => .skip fun _ => .part (hr _ (by simp)) h.exprs fun _ ha => .pure ha
  · exact bare?_ensures trivial
  · exact .part (hr _ (by simp)) h.elements fun _ ha => .pure ha
  · exact .part (hr _ (by simp)) h.properties fun _ ha => .pure ha
  · exact (h.func _ hf).bind fun _ ha => .pure ha
  · exact (h.func _ hf).bind fun _ ha => .pure ha
  · exact .skip fun _ => .skip fun _ => .part (hr _ (by simp)) h.expr fun _ ha => .pure ha
  · exact .skip fun _ => .skip fun _ => .skip fun _ => .skip fun _ =>
      .part (hr _ (by simp)) h.expr fun _ ha => .pure ha
  · exact .skip fun _ => .skip fun _ => .part (hr _ (by simp)) h.expr fun _ ha =>
      .part (hr _ (by simp)) h.expr fun _ hb => .pure ⟨ha, hb⟩
  · exact .skip fun _ => .skip fun _ => .part (hr _ (by simp)) h.expr fun _ ha =>
      .part (hr _ (by simp)) h.expr fun _ hb => .pure ⟨ha, hb⟩
  · exact .skip fun _ => .skip fun _ => .part (hr _ (by simp)) h.expr fun _ ha =>
      .part (hr _ (by simp)) h.expr fun _ hb => .pure ⟨ha, hb⟩
  · exact .part (hr _ (by simp)) h.expr fun _ ha => .part (hr _ (by simp)) h.expr fun _ hb =>
      .part (hr _ (by simp)) h.expr fun _ hc => .pure ⟨ha, hb, hc⟩
  · exact .part (hr _ (by simp)) h.expr fun _ ha => .part (hr _ (by simp)) h.exprs fun _ hb =>
      .pure ⟨ha, hb⟩
  · exact .part (hr _ (by simp)) h.expr fun _ ha => .part (hr _ (by simp)) h.exprs fun _ hb =>
      .pure ⟨ha, hb⟩
  · exact .part (hr _ (by simp)) h.expr fun _ ha => .part (hr _ (by simp)) h.expr fun _ hb =>
      .skip fun _ => .pure ⟨ha, fun _ => hb⟩
  · exact .part (hr _ (by simp)) h.exprs fun _ ha => .pure ha
  · exact .bind (h.expr? (hr _ (by simp))) fun _ ha => .skip fun _ => .pure ha
  · exact .part (hr _ (by simp)) h.expr fun _ ha => .pure ha
  · exact .refused

theorem property_succ : Keeps
    (fun prop => prop.key.Meets finite strict ∧ prop.value.Meets finite strict)
    (property? (depth + 1)) := by
  intro json hj
  rw [property?]
  refine .row hj fun row hr => ?_
  split
  · exact .part (hr _ (by simp)) h.expr fun _ ha => .part (hr _ (by simp)) h.expr fun _ hb =>
      .skip fun _ => .pure ⟨ha, hb⟩
  · exact .refused

theorem func_succ : Keeps (Func.Meets finite strict) (func? (depth + 1)) := by
  intro json hj
  rw [func?]
  refine (record?_keeps _ _ hj).bind fun row hr => ?_
  split
  · exact .skip fun _ => .skip fun _ => .skip fun _ => .part (hr _ (by simp)) h.body fun _ ha =>
      .skip fun _ => .skip fun _ => .pure ⟨trivial, ha _⟩
  · exact .refused

theorem body_succ : Keeps (fun body => ∀ strict, body.Meets finite strict) (body? (depth + 1)) := by
  intro json hj body hb strict
  rw [body?] at hb
  split at hb
  · next block he =>
    obtain rfl := Option.some.inj hb
    have ha := @h.block strict _ hj block he
    cases block
    exact ha.2
  · obtain ⟨value, hv, rfl⟩ := Option.map_eq_some_iff.mp hb
    exact h.expr _ hj value hv

theorem declarator_succ : Keeps (fun declarator => MeetExpr? finite strict declarator.init)
      (declarator? (depth + 1)) := by
  intro json hj
  rw [declarator?]
  refine .row hj fun row hr => ?_
  split
  · exact .skip fun _ => .skip fun _ => .bind (h.expr? (hr _ (by simp))) fun _ ha => .pure ha
  · exact .refused

theorem declaration_succ (bare : Bool) :
    Keeps (Declaration.Meets finite strict) (declaration? (depth + 1) bare) := by
  intro json hj
  rw [declaration?]
  refine .row hj fun row hr => ?_
  split
  · exact .skip fun _ => .skip fun _ => .part (hr _ (by simp)) h.declarators fun _ ha => .pure ha
  · exact .refused

theorem block_succ : Keeps (Block.Meets finite strict) (block? (depth + 1)) := by
  intro json hj
  rw [block?]
  refine .row hj fun row hr => ?_
  split
  · exact .part (hr _ (by simp)) h.stmts fun _ ha => .pure ⟨trivial, ha⟩
  · exact .refused

theorem case_succ : Keeps
    (fun clause => MeetExpr? finite strict clause.test ∧ MeetStmts finite strict clause.consequent)
    (case? (depth + 1)) := by
  intro json hj
  rw [case?]
  refine .row hj fun row hr => ?_
  split
  · exact .bind (h.expr? (hr _ (by simp))) fun _ ha => .part (hr _ (by simp)) h.stmts fun _ hb =>
      .pure ⟨ha, hb⟩
  · exact .refused

theorem clause_succ : Keeps (fun clause => MeetCatch? finite strict (some clause))
    (catch? (depth + 1)) := by
  intro json hj
  rw [catch?]
  refine .row hj fun row hr => ?_
  split
  · exact .skip fun _ => .part (hr _ (by simp)) h.block fun _ ha => .pure ha
  · exact .refused

theorem head_succ : Keeps (Head.Meets finite strict) (head? (depth + 1)) := by
  intro json hj
  rw [head?]
  split
  · next decl hd => exact .pure (h.declaration false _ hj decl hd)
  · exact (h.expr _ hj).map fun _ ha => ha

theorem stmt_succ : Keeps (Stmt.Meets finite strict) (stmt? (depth + 1)) := by
  intro json hj
  rw [stmt?]
  refine (typed?_keeps _ _ hj).bind fun ⟨type, fields⟩ hf => ?_
  dsimp only at hf ⊢
  split
  -- A row with more or fewer fields than the node has is refused.
  all_goals try
    refine .row hf fun row hr => ?_
    split
    rotate_left
    · exact .refused
  · exact (h.declaration true _ hf).bind fun _ ha => .pure ha
  · exact (h.func _ hf).bind fun _ ha => .pure ha
  · exact .part (hr _ (by simp)) h.expr fun _ ha => .pure ha
  · exact (h.block _ hf).bind fun _ ha => .pure ha
  · exact .part (hr _ (by simp)) h.expr fun _ ha => .part (hr _ (by simp)) h.stmt fun _ hb =>
      .bind (FiniteField.optional trivial (fun _ ha => ha) (hr _ (by simp)) h.stmt) fun _ hc =>
      .pure ⟨ha, hb, hc⟩
  · exact .part (hr _ (by simp)) h.expr fun _ ha => .part (hr _ (by simp)) h.cases fun _ hb =>
      .pure ⟨ha, trivial, hb⟩
  · exact .part (hr _ (by simp)) h.expr fun _ ha => .part (hr _ (by simp)) h.stmt fun _ hb =>
      .pure ⟨ha, hb⟩
  · exact .part (hr _ (by simp)) h.stmt fun _ ha => .part (hr _ (by simp)) h.expr fun _ hb =>
      .pure ⟨ha, hb⟩
  · exact .bind (FiniteField.optional trivial (fun _ ha => ha) (hr _ (by simp)) h.head) fun _ ha =>
      .bind (h.expr? (hr _ (by simp))) fun _ hb => .bind (h.expr? (hr _ (by simp))) fun _ hc =>
      .part (hr _ (by simp)) h.stmt fun _ hd => .pure ⟨fun _ _ => trivial, ha, hb, hc, hd⟩
  · exact .part (hr _ (by simp)) h.head fun _ ha => .part (hr _ (by simp)) h.expr fun _ hb =>
      .part (hr _ (by simp)) h.stmt fun _ hc => .pure ⟨hb, trivial, ha, hc⟩
  · exact .part (hr _ (by simp)) h.head fun _ ha => .part (hr _ (by simp)) h.expr fun _ hb =>
      .part (hr _ (by simp)) h.stmt fun _ hc => .pure ⟨hb, trivial, ha, hc⟩
  · exact .bind (h.expr? (hr _ (by simp))) fun _ ha => .pure ha
  · exact .skip fun _ => .pure trivial
  · exact .skip fun _ => .pure trivial
  · exact .part (hr _ (by simp)) h.expr fun _ ha => .pure ha
  · exact .part (hr _ (by simp)) h.block fun _ ha =>
      .bind (FiniteField.optional trivial (fun _ ha => ha) (hr _ (by simp)) h.clause) fun _ hb =>
      .bind (FiniteField.optional trivial (fun _ ha => ha) (hr _ (by simp)) h.block) fun _ hc =>
      .pure ⟨ha, hb, hc⟩
  · exact .part (hr _ (by simp)) h.expr fun _ ha => .part (hr _ (by simp)) h.stmt fun _ hb =>
      .pure ⟨trivial, ha, hb⟩
  · exact .skip fun _ => .skip fun _ => .part (hr _ (by simp)) h.stmt fun _ ha => .pure ha
  · exact bare?_ensures trivial
  · exact bare?_ensures trivial
  · exact .refused

end KeepsAt

theorem keepsAt (depth : Nat) : KeepsAt depth := by
  induction depth with
  | zero =>
    constructor
    case declaration => exact fun _ _ _ => .refused
    all_goals exact fun _ _ => .refused
  | succ depth ih =>
    exact ⟨ih.expr_succ, ih.property_succ, ih.func_succ, ih.body_succ, ih.declarator_succ,
      ih.declaration_succ, ih.block_succ, ih.case_succ, ih.clause_succ, ih.head_succ, ih.stmt_succ⟩

theorem named_keeps {strict} : Keeps (MeetStmts finite strict)
    (list? fun json => if isNamed json then stmt? (fuelOf json) json else none) := by
  refine .list trivial (fun _ _ ha hr => ⟨ha, hr⟩) fun json hj => ?_
  split
  · exact (keepsAt _).stmt _ hj
  · exact .refused

theorem Program.ofJson?_keeps : Keeps (Program.Meets finite) Program.ofJson? := by
  intro json h
  refine (record?_keeps _ _ h).bind fun row hr => ?_
  split
  · refine .bind (hr _ (by simp)) fun body hb => ?_
    dsimp only
    split <;> refine .skip fun _ => ?_ <;> split <;>
      exact .skip fun _ => (Ensures.all fun strict => @named_keeps strict _ hb).bind
        fun _ ha => .pure (ha _)
  · exact .refused

/-- A program with finite numbers is what its encoding is read as, and what is read from a value
with finite numbers is such a program. An expression never passes for a block, a declaration or an
absent part, and `null` is read as its place demands. -/
theorem program_roundTrip :
    (∀ program : Program Unit, program.Meets finite →
      Program.ofJson? program.encode = some program) ∧
    (∀ (json : Json) (program : Program Unit), json.Finite →
      Program.ofJson? json = some program → Program.ofJson? program.encode = some program) ∧
    (∀ (value : Expr Unit) (depth : Nat), value.encode ≠ .null ∧
      block? depth value.encode = none ∧ ∀ bare, declaration? depth bare value.encode = none) ∧
    (∀ (value : Expr Unit) (depth : Nat) (strict : Bool), value.Meets finite strict →
      fuelOf value.encode < depth →
      body? depth (Body.expression value).encode = some (.expression value) ∧
      head? depth (Head.expression value).encode = some (.expression value)) ∧
    ∀ (elements : List (Option (Expr Unit))) (depth : Nat) (strict : Bool),
      MeetElements finite strict elements →
      fuelOf (Expr.array elements).encode ≤ depth →
      expr? depth (Expr.array elements).encode = some (.array elements) ∧
      literal? Literal.null.encode = some .null :=
  ⟨fun _ => Program.ofJson?_encode,
    fun json program hj hp => Program.ofJson?_encode (Program.ofJson?_keeps json hj program hp),
    fun value depth => ⟨value.encode_ne_null, value.block?_encode depth,
      value.declaration?_encode depth⟩,
    fun value depth _ h hd => ⟨Body.reads (.expression value) h depth hd,
      Head.reads (.expression value) h depth hd⟩,
    fun elements depth _ h hd => ⟨Expr.reads (.array elements) h depth hd, rfl⟩⟩

/-- A program with a hole, an absent name, a null literal, and a function whose body is an
expression that has a body. -/
def holedProgram : Program Unit :=
  ⟨[.expression (.array [none, some (.literal .null),
      some (.arrow ⟨(), none, ["x"], .expression (.function ⟨(), none, [], .block [], false, true⟩),
        true, false⟩)]),
    .forIn () (.expression (.identifier "x")) (.literal (.number 1.5)) .empty], .script, ["y"]⟩

def numberProgram : Program Unit :=
  ⟨[.expression (.literal (.number (Float.ofInt 7)))], .module, []⟩

theorem program_roundTrip_holed :
    Program.ofJson? holedProgram.encode = some holedProgram ∧
    Program.ofJson? numberProgram.encode = some numberProgram :=
  have hf : (1.5 : Float).isFinite = true ∧ (Float.ofInt 7).isFinite = true := by decide
  ⟨program_roundTrip.1 holedProgram
      ⟨⟨trivial, trivial, ⟨trivial, trivial, trivial⟩, trivial⟩, ⟨hf.1, trivial, trivial, trivial⟩,
        trivial⟩,
    program_roundTrip.2.1 (.array [.array [.array [.string "ExpressionStatement",
        .array [.string "Literal", .integer 7]]], .string "module"]) numberProgram
      ⟨⟨⟨trivial, ⟨trivial, hf.2, trivial⟩, trivial⟩, trivial⟩, trivial, trivial⟩ rfl⟩

end Syntax

end Ecma
