/-
Codes in step: templates whose instructions pair off, point by point, so that a frame in one and
its twin in the other do the same. At two places the codes may differ: the declarations of a
block stand in line or in a unit apart, and a switch goes by a table or by tests.
-/
import Mathlib.Data.List.Forall2
import Ecma.Code.Draft
import Ecma.Proofs.TandemStep

namespace Ecma

open Code (Template Instruction Operand Constant Op HandlerKind Handler SwitchKey SwitchTable)

/-! ## Points -/

/-- What is known of the records where codes are in step. -/
inductive Scene where
  | any
  /-- The frame was never resumed, and its record is still empty. -/
  | start
  /-- The record of the frame holds so many bindings. -/
  | cells (count : Nat)
  /-- Some names are no global variables, and others no global lexical ones. -/
  | globals (lexical vars : List String)

/-- What is known where codes are in step: the height of the stack and the records. -/
structure Shape where
  height : Nat
  scene : Scene := .any

namespace Scene

/-- A scene on a machine, for a frame. -/
def Holds (m : Machine) (fr : Frame) : Scene → Prop
  | any => True
  | start => fr.resumption = none ∧
      ∃ parent, m.heap.record fr.record = .declarative (some parent) #[]
  | cells count => ∃ parent cells,
      m.heap.record fr.record = .declarative (some parent) cells ∧ cells.size = count
  | globals names vars => ∀ obj lexical varNames,
      m.heap.record m.realm.globalRecord = .global obj lexical varNames →
      (∀ name ∈ names, name ∉ varNames) ∧ ∀ name ∈ vars, ∀ cell ∈ lexical, cell.name ≠ name

/-- A scene that says no more than another. -/
inductive Fits : Scene → Scene → Prop
  | refl {scene} : Fits scene scene
  | any {scene} : Fits scene any
  | start : Fits start (cells 0)

theorem Fits.trans {one other last : Scene} (h : one.Fits other) (h' : other.Fits last) :
    one.Fits last := by
  cases h with
  | refl => exact h'
  | any => cases h' <;> exact .any
  | start =>
    cases h' with
    | refl => exact .start
    | any => exact .any

theorem Holds.fits {m fr} {scene other : Scene} (h : scene.Holds m fr) (hf : scene.Fits other)
    : other.Holds m fr := by
  cases hf with
  | refl => exact h
  | any => trivial
  | start =>
    obtain ⟨-, parent, hr⟩ := h
    exact ⟨parent, #[], hr, rfl⟩

end Scene

/-- A shape that says no more than another. -/
structure Shape.Fits (shape other : Shape) : Prop where
  height : shape.height = other.height
  scene : shape.scene.Fits other.scene

theorem Shape.Fits.refl (shape : Shape) : shape.Fits shape := ⟨rfl, .refl⟩

theorem Shape.Fits.trans {one other last : Shape} (h : one.Fits other) (h' : other.Fits last) :
    one.Fits last :=
  ⟨h.height.trans h'.height, h.scene.trans h'.scene⟩

/-- The positions at which two codes are in step. -/
abbrev Points : Type := Nat → Nat → Shape → Prop

/-- Positions that are in step for all that fits a shape. -/
def Points.Leads (points : Points) (first second : Nat) (shape : Shape) : Prop :=
  ∃ other, points first second other ∧ shape.Fits other

/-! ## Instructions -/

/-- What a pair of instructions refers to. -/
structure Surroundings where
  /-- A constant at its index in either code. -/
  share : Nat → Nat → Constant → Prop
  /-- The targets of a jump. -/
  goes : Operand → Operand → Shape → Prop
  /-- Where a suspension continues. -/
  rests : Nat → Nat → Prop
  /-- What comes next. -/
  falls : Shape → Prop

namespace Code

/-- Whether an operation adds a binding to the record of the frame. -/
def Op.binds : Op → Bool
  | .createMutableBinding | .createImmutableBinding => true
  | _ => false

/-- Whether an operation only checks that a script may declare a name. -/
def Op.checksDeclarable : Op → Bool
  | .checkGlobalFunction | .checkGlobalVarDeclarable => true
  | _ => false

/-- Whether an operation jumps by the value on top of the stack. -/
def Op.branches : Op → Bool
  | .jumpIfTrue | .jumpIfFalse => true
  | _ => false

/-- Whether an operation jumps by the way in which the frame was resumed. -/
def Op.branchesOnResumption : Op → Bool
  | .jumpIfResumeThrow | .jumpIfResumeReturn => true
  | _ => false

/-- Whether an operation never goes on to the next. -/
def Op.leaves : Op → Bool
  | .returnValue | .tailCall | .throwValue | .throwNewError | .rethrow => true
  | _ => false

/-- Instructions that do the same at a point. -/
inductive Instruction.Alike (around : Surroundings) (shape : Shape) :
    Instruction → Instruction → Prop
  | plain {op one other} : op.isPlain = true → Operand.Same around.share one other →
    around.falls ⟨Instruction.after ⟨op, one⟩ shape.height, .any⟩ →
    Alike around shape ⟨op, one⟩ ⟨op, other⟩
  | clear : around.falls ⟨0, .any⟩ → Alike around shape ⟨.clearStack, none⟩ ⟨.clearStack, none⟩
  | enter : around.falls ⟨shape.height, .cells 0⟩ →
    Alike around shape ⟨.pushBlockEnv, none⟩ ⟨.pushBlockEnv, none⟩
  | begin : shape.scene = .start → around.falls ⟨shape.height, .cells 0⟩ →
    Alike around shape ⟨.resumeDispatch, none⟩ ⟨.resumeDispatch, none⟩
  | bind {op a b name flag count} : op.binds = true → around.share a b (.string name) →
    shape.scene = .cells count → around.falls ⟨shape.height, .cells (count + 1)⟩ →
    Alike around shape ⟨op, some (.binding a flag)⟩ ⟨op, some (.binding b flag)⟩
  | function {index} : around.falls ⟨shape.height + 1, shape.scene⟩ →
    Alike around shape ⟨.closure, some (.function index)⟩ ⟨.closure, some (.function index)⟩
  | checkLexical {a b name names vars} : around.share a b (.string name) →
    shape.scene = .globals names vars →
    around.falls ⟨shape.height, .globals (name :: names) vars⟩ →
    Alike around shape ⟨.checkGlobalLexical, some (.name a)⟩ ⟨.checkGlobalLexical, some (.name b)⟩
  | checkVar {a b name names vars} : around.share a b (.string name) →
    shape.scene = .globals names vars →
    around.falls ⟨shape.height, .globals names (name :: vars)⟩ →
    Alike around shape ⟨.checkGlobalVar, some (.name a)⟩ ⟨.checkGlobalVar, some (.name b)⟩
  | check {op a b name} : op.checksDeclarable = true → around.share a b (.string name) →
    around.falls shape → Alike around shape ⟨op, some (.name a)⟩ ⟨op, some (.name b)⟩
  | declareLexical {a b name flag names vars} : around.share a b (.string name) →
    shape.scene = .globals names vars → name ∈ names → name ∉ vars →
    around.falls shape →
    Alike around shape ⟨.createGlobalLexical, some (.binding a flag)⟩
      ⟨.createGlobalLexical, some (.binding b flag)⟩
  | declareVar {a b name flag names vars} : around.share a b (.string name) →
    shape.scene = .globals names vars → name ∈ vars → name ∉ names →
    around.falls shape →
    Alike around shape ⟨.createGlobalVar, some (.binding a flag)⟩
      ⟨.createGlobalVar, some (.binding b flag)⟩
  | declareFunction {a b name flag names vars} : around.share a b (.string name) →
    shape.scene = .globals names vars → name ∈ vars → name ∉ names →
    around.falls ⟨shape.height - 1, shape.scene⟩ →
    Alike around shape ⟨.createGlobalFunction, some (.binding a flag)⟩
      ⟨.createGlobalFunction, some (.binding b flag)⟩
  | jump {one other} : around.goes one other ⟨shape.height, .any⟩ →
    Alike around shape ⟨.jump, some one⟩ ⟨.jump, some other⟩
  | branch {op one other} : op.branches = true →
    around.goes one other ⟨shape.height - 1, .any⟩ → around.falls ⟨shape.height - 1, .any⟩ →
    Alike around shape ⟨op, some one⟩ ⟨op, some other⟩
  | resumed {op one other} : op.branchesOnResumption = true →
    around.goes one other ⟨shape.height, .any⟩ → around.falls ⟨shape.height, .any⟩ →
    Alike around shape ⟨op, some one⟩ ⟨op, some other⟩
  | finish {one other} : around.goes one other ⟨shape.height + 1, .any⟩ →
    around.falls ⟨shape.height, .any⟩ →
    Alike around shape ⟨.returnAfterResume, some one⟩ ⟨.returnAfterResume, some other⟩
  | leave {op one other} : op.leaves = true → Operand.Same around.share one other →
    Alike around shape ⟨op, one⟩ ⟨op, other⟩
  | suspend {state} : around.rests state (shape.height - 1) →
    Alike around shape ⟨.suspend, some (.state state)⟩ ⟨.suspend, some (.state state)⟩

theorem Operand.Same.mono {share share' one other} (h : Operand.Same share one other)
    (hs : ∀ a b c, share a b c → share' a b c) : Operand.Same share' one other := by
  cases h with
  | none => exact .none
  | constant h => exact .constant (hs _ _ _ h)
  | name h => exact .name (hs _ _ _ h)
  | binding h => exact .binding (hs _ _ _ h)
  | error h => exact .error (hs _ _ _ h)
  | absolute h => exact .absolute h

/-! ## Declarations of a block -/

/-- Declarations of a block, after so many bindings: bindings are added, then functions are made
and stored. -/
inductive Declares (share : Nat → Nat → Constant → Prop) (fns : Nat) :
    Nat → List Instruction → List Instruction → Prop
  | done {count} : Declares share fns count [] []
  | bind {count op a b name flag rest rest'} : op.binds = true → share a b (.string name) →
    Declares share fns (count + 1) rest rest' →
    Declares share fns count (⟨op, some (.binding a flag)⟩ :: rest)
      (⟨op, some (.binding b flag)⟩ :: rest')
  | function {count index slot rest rest'} : index < fns → slot < count →
    Declares share fns count rest rest' →
    Declares share fns count
      (⟨.closure, some (.function index)⟩ :: ⟨.initializeBinding, some (.slot 0 slot)⟩ :: rest)
      (⟨.closure, some (.function index)⟩ :: ⟨.initializeBinding, some (.slot 0 slot)⟩ :: rest')

def Template.Holds (code : Template) (pos : Nat) (instructions : List Instruction) : Prop :=
  ∀ index, index < instructions.length → code.instructions[pos + index]? = instructions[index]?

/-- Instructions that stand at a position, in line or in a unit apart, and where the code goes on
after them. -/
inductive Template.Stands (code : Template) (pos : Nat) (instructions : List Instruction) :
    Nat → Prop
  | inline : code.Holds pos instructions →
    Stands code pos instructions (pos + instructions.length)
  | apart {unit entry} : code.instructions[pos]? = some ⟨.callUnit, some (.unit unit)⟩ →
    code.units[unit]? = some entry → code.Holds entry (instructions ++ [⟨.returnUnit, none⟩]) →
    Stands code pos instructions (pos + 1)

/-! ## Dispatch of a switch -/

/-- The position for a value. -/
def SwitchTable.target (table : SwitchTable) : Value → Nat
  | .number v => table.numberTarget v
  | .string v => table.stringTarget v
  | _ => table.default

/-- Whether a value is the one that a case asks for. -/
def SwitchKey.matches : SwitchKey → Value → Bool
  | .number key, .number v =>
    Number.integerIn? Number.minInt32 Number.maxInt32 v == some key
  | .string key, .string v => key == v
  | _, _ => false

/-- Where a switch goes for a value: to the first case that asks for it. -/
def landing (cases : List (SwitchKey × Nat)) (otherwise : Nat) (v : Value) : Nat :=
  ((cases.find? fun case => case.1.matches v).map Prod.snd).getD otherwise

/-- A constant that is the literal of a case. -/
inductive SwitchKey.Spells : SwitchKey → Constant → Prop
  | number {key v} : Number.integerIn? Number.minInt32 Number.maxInt32 v = some key →
    Spells (.number key) (.number v)
  | string {text} : Spells (.string text) (.string text)

/-- The tests of a switch at a position, one after the other. -/
inductive Template.Tests (code : Template) (reg otherwise : Nat) :
    Nat → List (SwitchKey × Nat) → Prop
  | done {pos} : code.instructions[pos]? = some ⟨.jump, some (.jump otherwise)⟩ →
    Tests code reg otherwise pos []
  | case {pos key target index constant rest} :
    code.instructions[pos]? = some ⟨.loadReg, some (.register reg)⟩ →
    code.instructions[pos + 1]? = some ⟨.const, some (.constant index)⟩ →
    code.constants[index]? = some constant → key.Spells constant →
    code.instructions[pos + 2]? = some ⟨.relation .strictEqual, none⟩ →
    code.instructions[pos + 3]? = some ⟨.jumpIfTrue, some (.jump target)⟩ →
    Tests code reg otherwise (pos + 4) rest →
    Tests code reg otherwise pos ((key, target) :: rest)

/-- The dispatch of a switch on a register, with the operands that it needs room for. -/
inductive Template.Dispatches (code : Template) (reg : Nat) (pos : Nat)
    (cases : List (SwitchKey × Nat)) (otherwise : Nat) : Nat → Prop
  | table {index table} :
    code.instructions[pos]? = some ⟨.loadReg, some (.register reg)⟩ →
    code.instructions[pos + 1]? = some ⟨.switchTable, some (.table index)⟩ →
    code.tables[index]? = some table →
    (∀ v, table.target v = landing cases otherwise v) →
    Dispatches code reg pos cases otherwise 1
  | tests : code.Tests reg otherwise pos cases →
    Dispatches code reg pos cases otherwise 2

/-! ## Templates -/

/-- The height of the stack where a handler takes control. -/
def HandlerKind.entryHeight? : HandlerKind → Option Nat
  | .catches => some 1
  | .finalizes _ => some 0
  | .supersedes _ | .closes _ => none

/-- Handlers that do the same. -/
structure Handler.Alike (points : Points) (one other : Handler) : Prop where
  kind : one.kind = other.kind
  target : ∀ height, one.kind.entryHeight? = some height →
    points.Leads one.target other.target ⟨height, .any⟩

/-- The handlers over two positions pair off. -/
def HandlersAlike (first second : Template) (points : Points) (pos pos' : Nat) : Prop :=
  List.Forall₂ (Handler.Alike points) (first.handlers.filter fun handler => handler.covers pos)
    (second.handlers.filter fun handler => handler.covers pos')

/-- What instructions at two positions refer to. -/
def Template.around (first second : Template) (points : Points) (pos pos' : Nat) :
    Surroundings where
  share := first.Share second
  goes one other shape := ∃ target target', one = .jump target ∧ other = .jump target' ∧
    points.Leads target target' shape
  rests state height := first.kind.isResumable = true ∧ ∃ target target',
    first.resume[state]? = some target ∧ second.resume[state]? = some target' ∧
      points.Leads target target' ⟨height, .any⟩
  falls := points.Leads (pos + 1) (pos' + 1)

/-- What makes two positions points: instructions that do the same, declarations of a block, or
the dispatch of a switch. -/
inductive Aligned (room : Nat) (first second : Template) (points : Points)
    (pos pos' : Nat) (shape : Shape) : Prop
  | step {one other} : first.instructions[pos]? = some one →
    second.instructions[pos']? = some other →
    Instruction.Alike (first.around second points pos pos') shape one other →
    HandlersAlike first second points pos pos' →
    Aligned room first second points pos pos' shape
  | declare {one other next next'} : 1 ≤ room → shape = ⟨0, .cells 0⟩ → one ≠ [] →
    Declares (first.Share second) first.functions.length 0 one other →
    first.Stands pos one next → second.Stands pos' other next' →
    points.Leads next next' ⟨0, .any⟩ →
    Aligned room first second points pos pos' shape
  | dispatch {reg one other otherwise otherwise' need need'} : need ≤ room → need' ≤ room →
    shape.height = 0 → first.Dispatches reg pos one otherwise need →
    second.Dispatches reg pos' other otherwise' need' →
    List.Forall₂ (fun case case' => case.1 = case'.1 ∧ points.Leads case.2 case'.2 ⟨0, .any⟩)
      one other →
    points.Leads otherwise otherwise' ⟨0, .any⟩ →
    Aligned room first second points pos pos' shape

/-- What is known where code begins. -/
def FunctionKind.entry : FunctionKind → Shape
  | .script => ⟨0, .globals [] []⟩
  | _ => ⟨0, .start⟩

/-- Templates whose instructions pair off at points. -/
structure Matching (room : Nat) (first second : Template) (points : Points) : Prop where
  agrees : first.Agrees second
  functions : first.functions.length = second.functions.length
  entry : points.Leads 0 0 first.kind.entry
  aligned : ∀ {pos pos' shape}, points pos pos' shape →
    Aligned room first second points pos pos' shape
  /-- Points lie in the body, not in units apart. -/
  inside : ∀ {pos pos' shape}, points pos pos' shape →
    (∀ entry ∈ first.units, pos < entry) ∧ ∀ entry ∈ second.units, pos' < entry
  /-- Code that can be suspended begins with the way back. -/
  begins : first.kind.isResumable = true →
    first.instructions[0]? = some ⟨.resumeDispatch, none⟩ ∧
      second.instructions[0]? = some ⟨.resumeDispatch, none⟩ ∧ HandlersAlike first second points 0 0

/-- Templates in step, with their functions. -/
inductive InStep (room : Nat) : Template → Template → Prop
  | intro {first second} (points : Points) : Matching room first second points →
    (∀ (index : Nat) one other, first.functions[index]? = some one →
      second.functions[index]? = some other → InStep room one other) →
    InStep room first second

end Code

end Ecma
