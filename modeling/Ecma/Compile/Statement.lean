/-
Code for the forms of statements, each from the code of its parts. A finalizer
is emitted once for every way of leaving the block it belongs to.
-/
import Ecma.Compile.Control
import Ecma.Compile.Declaration
import Ecma.Compile.Expression
import Ecma.Number.Integer

namespace Ecma.Compile

open Code

/-! ## Simple statements -/

/-- Statements in a row, up to the first that cannot complete normally. -/
def inOrder : List (Emit Completion) → Emit Completion
  | [] => return .normal
  | statement :: rest => do
    let completion ← statement
    if completion.isAbrupt then return completion else inOrder rest

/-- An expression; a script keeps its value. -/
def expressionForm (value : Emit ValueType) : Emit Completion := do
  let _ ← value
  match (← read).completion with
  | some register => opRegister .storeReg register
  | none => op .pop
  return .normal

/-- The declaration of one variable. A lexical one without a value gets
undefined; a `var` without a value is left alone. -/
def declaratorForm (kind : Syntax.VariableKind) (name : String)
    (init : Option (Emit ValueType)) : Emit Unit := do
  match kind.isLexical, init with
  | true, some init =>
    let _ ← init
    initializeName name
  | true, none =>
    op .pushUndefined
    initializeName name
  | false, some init =>
    let _ ← init
    storeName name
  | false, none => pure ()

def ifForm (test : Emit ValueType) (consequent : Emit Completion)
    (alternate : Option (Emit Completion)) : Emit Completion := do
  condition test
  let otherwise ← newLabel
  jump .jumpIfFalse otherwise
  let first ← consequent
  match alternate with
  | none =>
    place otherwise
    return first.select .normal
  | some alternate =>
    let done ← newLabel
    if !first.isAbrupt then jump .jump done
    place otherwise
    let second ← alternate
    place done
    return first.select second

/-- A statement whose names are looked up in an object first. -/
def withForm (opened : Option ScopeId) (object : Emit ValueType) (body : Emit Completion) :
    Emit Completion := do
  let _ ← object
  let scope ← scopeOf opened
  op .pushWithEnv
  let completion ← inScope scope true body
  if !completion.isAbrupt then op .popEnv
  return completion

/-- A statement, not a loop, that can be left by its labels. -/
def labelledForm (labels : List String) (body : Emit Completion) : Emit Completion := do
  let (completion, jumps) ← inBreakable labels false body
  place jumps.breakLabel
  return completion.orReachable jumps.breakUsed

/-- The functions declared in a body. The last declaration of a name comes first
and is the only one. -/
def declaredFunctions (functions : List (String × Emit Template)) :
    List (String × Emit Template) :=
  functions.reverse.foldl
    (fun kept function => if kept.any (·.1 == function.1) then kept else kept ++ [function]) []

def hoist (scope : ScopeId) (functions : List (String × Emit Template)) : Emit Unit :=
  (declaredFunctions functions).forM fun (name, template) => do
    pushClosure (← template)
    initializeIn scope name

def hoistGlobal (functions : List (String × Emit Template)) : Emit Unit :=
  (declaredFunctions functions).forM fun (name, template) => do
    pushClosure (← template)
    opBinding .createGlobalFunction name false

def blockForm (opened : Option ScopeId) (functions : List (String × Emit Template))
    (body : Emit Completion) : Emit Completion := do
  let scope ← scopeOf opened
  inBlock scope do
    declareBlock scope (hoist scope functions)
    body

/-! ## Switches -/

/-- A clause of a switch: its test, none for the default clause, and its
statements. -/
structure Clause where
  test : Option (Emit ValueType)
  body : Emit Completion

def switchKey? {σ : Type} : Syntax.Expr σ → Option SwitchKey
  | .literal (.number value) =>
    (Number.integerIn? Number.minInt32 Number.maxInt32 value).map .number
  | .literal (.string text) => some (.string text)
  | _ => none

/-- Whether two keys are both numbers or both strings. -/
def SwitchKey.sameKind : SwitchKey → SwitchKey → Bool
  | .number _, .number _ | .string _, .string _ => true
  | _, _ => false

/-- The keys of all tests with the index of their clause, if all are literals of
one kind. -/
def switchKeys? {σ : Type} (cases : List (Syntax.Case σ)) : Option (List (SwitchKey × Nat)) := do
  let tests := cases.zipIdx.filterMap fun (clause, index) =>
    clause.test.map fun test => (test, index)
  let keys ← tests.mapM fun (test, index) => do return (← switchKey? test, index)
  match keys with
  | [] => return []
  | (first, _) :: _ =>
    if keys.all fun (key, _) => SwitchKey.sameKind first key then return keys else none

def tableDispatch (register : Nat) (keys : List (SwitchKey × Nat)) (entries : List Label)
    (otherwise : Label) : Emit Unit := do
  let cases := keys.foldl (fun (cases : List (SwitchKey × Label)) (key, index) =>
    if cases.any (·.1 == key) then cases else cases ++ [(key, entries.getD index otherwise)]) []
  let table ← onDraft fun draft => draft.addTable ⟨cases, otherwise⟩
  opRegister .loadReg register
  opWith .switchTable (.table table)

/-- The dispatch of a switch by one comparison after another. -/
def testDispatch (register : Nat) (clauses : List (Clause × Label)) (otherwise : Label) :
    Emit Unit := do
  for (clause, entry) in clauses do
    match clause.test with
    | none => pure ()
    | some test =>
      opRegister .loadReg register
      let _ ← test
      op (.relation .strictEqual)
      jump .jumpIfTrue entry
  jump .jump otherwise

/-- The statements of the clauses, each falling through to the next. The
completion is that of the last clause. -/
def clauseBodies : List (Clause × Label) → Emit Completion
  | [] => return .normal
  | [(clause, entry)] => do
    place entry
    clause.body
  | (clause, entry) :: rest => do
    place entry
    let _ ← clause.body
    clauseBodies rest

/-- The dispatch and the clauses of a switch whose value is in a register. -/
def switchBody (register : Nat) (keys : Option (List (SwitchKey × Nat)))
    (clauses : List Clause) : Emit Completion := do
  let default := clauses.findIdx? fun clause => clause.test.isNone
  let (completion, jumps) ← inBreakable [] true do
    let entries ← clauses.mapM fun _ => newLabel
    let otherwise ←
      match default.bind fun index => entries[index]? with
      | some entry => pure entry
      | none => useBreak
    match keys with
    | some keys => tableDispatch register keys entries otherwise
    | none => testDispatch register (clauses.zip entries) otherwise
    clauseBodies (clauses.zip entries)
  place jumps.breakLabel
  return completion.orReachable (jumps.breakUsed || default.isNone)

/-- A switch; enough literal cases of one kind make a table. -/
def switchForm (opened : Option ScopeId) (discriminant : Emit ValueType)
    (keys : Option (List (SwitchKey × Nat))) (functions : List (String × Emit Template))
    (clauses : List Clause) : Emit Completion := do
  let _ ← discriminant
  let register ← newRegister
  opRegister .storeReg register
  let scope ← scopeOf opened
  let least := max (← read).options.switchMinCases 1
  inBlock scope do
    declareBlock scope (hoist scope functions)
    switchBody register (keys.filter fun keys => least ≤ keys.length) clauses

/-! ## Loops -/

/-- A test that is a literal, and true. -/
def isConstantTrue {σ : Type} : Syntax.Expr σ → Bool
  | .literal (.boolean value) => value
  | .literal (.number value) => value != 0 && !value.isNaN
  | .literal (.string text) => !text.isEmpty
  | _ => false

/-- The test of a loop, unless it is always true: leaves the loop if false. -/
def loopTest : Option (Emit ValueType) → Emit Unit
  | none => pure ()
  | some test => do
    condition test
    jump .jumpIfFalse (← useBreak)

/-- A loop that tests first; without a test it goes on for ever. -/
def whileForm (labels : List String) (test : Option (Emit ValueType)) (body : Emit Completion) :
    Emit Completion := do
  let (_, jumps) ← inLoop labels fun head => do
    place head
    loopTest test
    if !(← body).isAbrupt then jump .jump head
  place jumps.breakLabel
  return jumps.loopCompletion test.isNone

def doWhileForm (labels : List String) (test : Option (Emit ValueType))
    (body : Emit Completion) : Emit Completion := do
  let (_, jumps) ← inLoop labels fun next => do
    let start ← newLabel
    place start
    let completion ← body
    if !completion.isAbrupt || (← continueUsed) then
      place next
      match test with
      | none => jump .jump start
      | some test =>
        condition test
        jump .jumpIfTrue start
  place jumps.breakLabel
  return jumps.loopCompletion test.isNone

def dropped (value : Emit ValueType) : Emit Unit := do
  let _ ← value
  op .pop

/-- A loop with a head. If `copies`, every round has its own copy of the
variables of the head. -/
def forForm (labels : List String) (opened : Option ScopeId) (init : Emit Unit)
    (copies : Bool) (test update : Option (Emit ValueType)) (body : Emit Completion) :
    Emit Completion := do
  let scope ← scopeOf opened
  let materializes := (← scopeAt scope).materializes
  let copies := copies && materializes
  if materializes then op .pushBlockEnv
  let completion ← inScope scope materializes do
    if materializes then createBindings scope
    init
    if copies then op .copyEnv
    let (_, jumps) ← inLoop labels fun next => do
      let head ← newLabel
      place head
      loopTest test
      let completion ← body
      if !completion.isAbrupt || (← continueUsed) then
        place next
        if copies then op .copyEnv
        match update with
        | some update => dropped update
        | none => pure ()
        jump .jump head
    place jumps.breakLabel
    return jumps.loopCompletion test.isNone
  if materializes && !completion.isAbrupt then op .popEnv
  return completion

/-- One round of a loop over an iterator, after its value was pushed: a lexical
head has a new record, any other head is assigned. -/
def roundForm (scope : ScopeId) (assign : Emit Unit) (body : Emit Completion) (next : Label) :
    Emit Unit := do
  let materializes := (← scopeAt scope).materializes
  if materializes then op .pushBlockEnv
  let completion ← inScope scope materializes do
    if materializes then
      createBindings scope
      initializeSlot 0
    else assign
    body
  if !completion.isAbrupt then
    if materializes then op .popEnv
    jump .jump next

/-- The rounds of a loop over the iterator in a register. The value is left on
the stack at `done`. -/
def roundsForm (labels : List String) (opened : Option ScopeId) (iterator : Nat)
    (closes : Bool) (assign : Emit Unit) (body : Emit Completion) : Emit (Label × Jumps) :=
  inLoop labels fun next => do
    let done ← newLabel
    place next
    opRegister .loadReg iterator
    op .pushUndefined
    op .iteratorNext
    op .dup
    op .iteratorComplete
    jump .jumpIfTrue done
    op .iteratorValue
    if closes then openClosing
    roundForm (← scopeOf opened) assign body next
    return done

/-- A loop over the values of an iterable, which closes its iterator when it is
left early, or over the keys of an object. -/
def forEachForm (labels : List String) (opened : Option ScopeId) (right : Emit ValueType)
    (overValues : Bool) (assign : Emit Unit) (body : Emit Completion) : Emit Completion := do
  let _ ← right
  op (if overValues then .getIterator else .enumerateKeys)
  let iterator ← newRegister
  opRegister .storeReg iterator
  let rounds := roundsForm labels opened iterator overValues assign body
  let (done, jumps) ← if overValues then closingIterator iterator rounds else rounds
  place done
  op .pop
  if jumps.breakUsed then
    let exit ← newLabel
    jump .jump exit
    place jumps.breakLabel
    if overValues then
      opRegister .loadReg iterator
      op .iteratorClose
    place exit
  return .normal

/-! ## Returns -/

/-- Returns the value on the stack, through finalizers if there are any. -/
def emitReturn : Emit Unit := do
  if ← hasCleanup then
    opRegister .storeReg (← returnRegister)
    exitTo .function
  else op .returnValue

/-- Whether a call here may take the place of the function. -/
def tailCallAllowed : Emit Bool := do
  let context ← read
  return context.options.tailCalls && context.strict
    && (context.kind == .normal || context.kind == .arrow)
    && context.tryDepth == 0 && !(← hasCleanup)

/-- Returns a value; `tailCall` is the code of a call in its place. -/
def returnOf (value : Emit ValueType) (tailCall : Option (Emit Unit)) : Emit Unit := do
  match tailCall, ← tailCallAllowed with
  | some call, true => call
  | _, _ =>
    let _ ← value
    emitReturn

/-- A return statement; without a value it returns undefined. -/
def returnForm (code : Option (Emit Unit)) : Emit Completion := do
  let kind := (← read).kind
  if kind == .script || kind == .module then throw .returnOutsideFunction
  match code with
  | some code => code
  | none =>
    op .pushUndefined
    emitReturn
  return .returns

/-! ## Protected blocks -/

def addHandler (start stop : Nat) (target : Label) (kind : HandlerKind) : Emit Unit :=
  changeDraft fun draft => draft.addHandler ⟨start, stop, target, kind⟩

/-- A catch clause, entered with the exception on the stack. -/
def catchForm (opened : Option ScopeId) (savedEnv : Nat) (body : Emit Completion) :
    Emit Completion := do
  opRegister .restoreEnv savedEnv
  let scope ← scopeOf opened
  let materializes := (← scopeAt scope).materializes
  if materializes then op .pushBlockEnv
  let completion ← inScope scope materializes do
    if materializes then
      createBindings scope
      initializeSlot 0
    else op .pop
    body
  if materializes && !completion.isAbrupt then op .popEnv
  return completion

def tryCatch (block catchClause : Emit Completion) : Emit Completion := do
  let start ← position
  let completion ← guarded block
  let stop ← position
  let after ← newLabel
  if !completion.isAbrupt then jump .jump after
  let entry ← newLabel
  addHandler start stop entry .catches
  place entry
  let caught ← catchClause
  place after
  return completion.select caught

/-- The part of a block that its finalizer protects: the block, and its catch
clause if it has one. Both go to `fallthrough` at their end. -/
def finallyProtected (block : Emit Completion) (catchClause : Option (Emit Completion))
    (fallthrough : Label) : Emit Completion := guarded do
  let start ← position
  let completion ← block
  let stop ← position
  if !completion.isAbrupt then jump .jump fallthrough
  match catchClause with
  | none => return completion
  | some catchClause =>
    let entry ← newLabel
    addHandler start stop entry .catches
    place entry
    let caught ← catchClause
    if !caught.isAbrupt then jump .jump fallthrough
    return completion.select caught

/-- The copy of a finalizer that an exception runs: it throws the exception again
at its end, and an exception of its own supersedes it. -/
def finallyRethrow (savedEnv pending : Nat) (entry : Label) (finalizer : Emit Completion) :
    Emit Completion := do
  place entry
  opRegister .restoreEnv savedEnv
  let start ← position
  let completion ← finalizer
  addHandler start (← position) entry (.supersedes pending)
  if !completion.isAbrupt then opRegister .rethrow pending
  return completion

def finallyExits (savedEnv : Nat) (finalizer : Emit Completion) (leadsOn : Bool)
    (exits : List (Label × Exit)) : Emit Unit := do
  for (label, target) in exits do
    place label
    opRegister .restoreEnv savedEnv
    let _ ← finalizer
    if leadsOn then exitTo target

/-- A block with a finalizer, and perhaps a catch clause. -/
def tryFinally (savedEnv : Nat) (block : Emit Completion)
    (catchClause : Option (Emit Completion)) (finalizer : Emit Completion) :
    Emit Completion := do
  let pending ← newRegister
  let fallthrough ← newLabel
  let start ← position
  let (completion, exits) ← underFinalizer (finallyProtected block catchClause fallthrough)
  let stop ← position
  let onException ← newLabel
  addHandler start stop onException (.finalizes pending)
  let last ← finallyRethrow savedEnv pending onException finalizer
  let done ← newLabel
  if !completion.isAbrupt then
    place fallthrough
    let _ ← finalizer
    if !last.isAbrupt then jump .jump done
  finallyExits savedEnv finalizer (!last.isAbrupt) exits
  place done
  return if last.isAbrupt then last else completion

/-- A protected block. The catch clause gets the register of the record to
return to. -/
def tryForm (block : Emit Completion) (catchClause : Option (Nat → Emit Completion))
    (finalizer : Option (Emit Completion)) : Emit Completion := do
  let savedEnv ← newRegister
  opRegister .saveEnv savedEnv
  match catchClause.map (· savedEnv), finalizer with
  | some catchClause, none => tryCatch block catchClause
  | catchClause, some finalizer => tryFinally savedEnv block catchClause finalizer
  | none, none => throw .tryWithoutHandler

end Ecma.Compile
