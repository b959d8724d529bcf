/-
A law is upheld by all that a machine does: by each function of the machine if what it calls upholds
the law, and so by running and calling, and by whole programs.
-/
import Ecma.Proofs.Law

namespace Ecma

variable {α : Type} {law : Law}

namespace Action

/-! ## Errors and properties -/

section

variable (v a b : Value) (key : PropertyKey) (ref : ObjectRef)

instance {kind} : Upholds law (newError kind) := by
  unfold newError
  infer_instance

instance createError_upholds (kind : ErrorKind) (message : String) :
    Upholds law (createError kind message) := by
  unfold createError
  infer_instance

instance {cause} : Upholds law (errorOf cause) := createError_upholds _ _

instance {exception} : Upholds law (materialize exception) := by
  unfold materialize
  split <;> infer_instance

instance : Upholds law (payload ref) := .look _

instance {thrown} : Upholds law (caughtValue thrown) := by
  unfold caughtValue
  split
  · refine .payload fun payload _ => ?_
    split
    · exact ((UpholdsFrom.setCommon rfl ⟨rfl, rfl⟩).bind fun _ => inferInstance).bind fun _ => inferInstance
    · exact Upholds.anywhere inferInstance
  · infer_instance

instance getProperty_upholds : Upholds law (getProperty v key) := by
  unfold getProperty
  infer_instance

instance getNamed_upholds (name : String) : Upholds law (getNamed v name) := getProperty_upholds _ _

instance : Upholds law (isCallable v) := .look _

instance : Upholds law (getMethod v key) := by
  unfold getMethod
  infer_instance

instance {strict cause} : Upholds law (failIfStrict strict cause) := by
  unfold failIfStrict
  infer_instance

instance {strict} : Upholds law (putProperty a key b strict) := by
  unfold putProperty
  split <;> infer_instance

instance : Upholds law (defineProperty ref key v) := by
  unfold defineProperty
  infer_instance

instance : Upholds law (toObject v) := by
  unfold toObject
  split <;> infer_instance

instance {strict} : Upholds law (deleteProperty v key strict) := by
  unfold deleteProperty
  infer_instance

instance : Upholds law (instanceOf a b) := by
  unfold instanceOf
  refine .next fun callable => ?_
  split
  · split
    · refine .next fun prototype => ?_
      split <;> infer_instance
    · refine .next fun _ => ?_
      refine .next fun prototype => ?_
      split <;> infer_instance
  · infer_instance

instance : Upholds law (typeName v) := .look _

end

/-! ## Functions that call -/

section

variable {call : Caller} [Caller.Upholds law call]

section

variable (v a b : Value)

instance firstPrimitive_upholds : (methods : List String) → Upholds law (firstPrimitive call v methods)
  | [] => inferInstanceAs (Upholds law (fail _))
  | name :: rest => by
    have := firstPrimitive_upholds rest
    unfold firstPrimitive
    infer_instance

instance {hint} : Upholds law (toPrimitive call v hint) := by
  unfold toPrimitive
  infer_instance

instance : Upholds law (toNumber call v) := by
  unfold toNumber
  infer_instance

instance : Upholds law (toText call v) := by
  unfold toText
  infer_instance

instance : Upholds law (toPropertyKey call v) := by
  unfold toPropertyKey
  refine .next fun primitive => ?_
  split <;> infer_instance

instance display_upholds : Upholds law (display call v) := by
  unfold display
  refine .next fun outcome => ?_
  split <;> infer_instance

instance : Upholds law (looseEquals call a b) := by
  unfold looseEquals
  split <;> infer_instance

instance {leftFirst} : Upholds law (less call a b leftFirst) := by
  unfold less
  infer_instance

instance : Upholds law (hasProperty call a b) := by
  unfold hasProperty
  split <;> infer_instance

instance : Upholds law (add call a b) := by
  unfold add
  refine .next fun x => .next fun y => ?_
  split <;> infer_instance

instance : Upholds law (concat call a b) := by
  unfold concat
  infer_instance

instance {operator} : Upholds law (arithmetic call operator a b) := by
  unfold arithmetic
  infer_instance

instance {r} : Upholds law (relation call r a b) := by
  cases r <;> unfold relation <;> infer_instance

instance {done} : Upholds law (iterResult v done) := by
  unfold iterResult
  infer_instance

instance : Upholds law (getIterator call v) := by
  unfold getIterator
  infer_instance

instance : Upholds law (requireObject v) := by
  unfold requireObject
  infer_instance

instance {sent} : Upholds law (iteratorNext call v sent) := by
  unfold iteratorNext
  infer_instance

instance : Upholds law (iteratorComplete v) := by
  unfold iteratorComplete
  infer_instance

instance : Upholds law (iteratorValue v) := getNamed_upholds _ _

instance : Upholds law (iteratorClose call v) := by
  unfold iteratorClose
  infer_instance

instance : Upholds law (enumerate v) := by
  unfold enumerate
  infer_instance

theorem createClosure_upholds {code} (h : law.standard.code code) (record : RecordRef)
    (recv : Option Value) : Upholds law (createClosure code record recv) := by
  unfold createClosure
  refine .next fun realm => ?_
  refine @Upholds.bind _ _ _ _ _ (.allocFunction h) fun ref => ?_
  refine .next fun _ => ?_
  refine .next fun _ => ?_
  refine .next fun realm => ?_
  split <;> infer_instance

instance {callee closure recv args} : Upholds law (newFrame callee closure recv args) := by
  unfold newFrame
  infer_instance

instance {callee fallback} : Upholds law (prototypeOf callee fallback) :=
  .look _

instance {kind args} : Upholds law (constructError call kind args) := by
  unfold constructError
  infer_instance

instance {args} : Upholds law (construct call v args) := by
  unfold construct
  split
  · refine .next fun payload => ?_
    split <;> infer_instance
  · infer_instance

end

/-! ## Builtin functions -/

section

variable (recv : Value)

instance : Upholds law (receiverArray recv) := by
  unfold receiverArray
  split <;> infer_instance

instance {vs} : Upholds law (arrayPush recv vs) := by
  unfold arrayPush
  infer_instance

instance : Upholds law (elementText call recv) := by
  unfold elementText
  infer_instance

instance {separator} : Upholds law (arrayJoin call recv separator) := by
  unfold arrayJoin
  infer_instance

instance : Upholds law (arrayValues recv) := by
  unfold arrayValues
  infer_instance

instance : Upholds law (arrayIteratorNext recv) := by
  unfold arrayIteratorNext
  split
  · refine .payload fun payload _ => ?_
    split
    · exact (UpholdsFrom.setCommon rfl ⟨rfl, rfl⟩).bind fun _ => inferInstance
    · exact (UpholdsFrom.setCommon rfl ⟨rfl, rfl⟩).bind fun _ => inferInstance
    · exact Upholds.anywhere inferInstance
  · infer_instance

instance {ref name absent} : Upholds law (propertyText call ref name absent) := by
  unfold propertyText
  refine .next fun found => ?_
  split <;> infer_instance

instance : Upholds law (errorToString call recv) := by
  unfold errorToString
  split <;> infer_instance

instance {vs} : Upholds law (print call vs) := by
  unfold print
  infer_instance

end

end

/-! ## Calls -/

theorem Gives.nested {post : α → Prop} {action : Action α} (h : Gives post action) :
    Gives post (nested action) := by
  refine ⟨fun {m a later} he => ?_⟩
  unfold Action.nested at he
  split at he
  · cases he
  · split at he <;> cases he
    exact h.gives ‹_›

theorem newFrame_gives {closure} (h : law.standard.code closure.code) (callee : ObjectRef)
    (recv : Value) (args : List Value) :
    Gives (fun fr => law.standard.frame fr ∧ fr.code = closure.code)
      (newFrame callee closure recv args) :=
  .after fun _ => .after fun _ => .pure ⟨law.standard.start _ _ _ _ #[] h, rfl⟩

section

variable {run : Runner} [hr : Runner.Upholds law run]

theorem startGenerator_upholds {closure : Closure} (h : law.standard.code closure.code)
    (hk : closure.code.kind = .generator) (callee : ObjectRef) (recv : Value) (args : List Value) :
    Upholds law (startGenerator run callee closure recv args) := by
  have hnew := newFrame_gives h callee recv args
  have hbegun : Upholds law (newFrame callee closure recv args >>= run) :=
    .bind_gives inferInstance hnew fun _ hf => hr.runs hf.1
  have hgives : Gives (Exit.Has fun kept => law.standard.frame kept ∧ kept.code = closure.code)
      (newFrame callee closure recv args >>= run) :=
    hnew.bind fun _ hf => hf.2 ▸ hr.stays hf.1
  refine .bind_gives (@Upholds.nested _ _ _ hbegun) hgives.nested fun exit he => ?_
  cases exit with
  | suspended v fr =>
    have hallocated := fun prototype => @Upholds.allocGenerator law prototype fr
      ⟨he.1, fun _ => he.2 ▸ hk⟩
    dsimp only
    infer_instance
  | _ => exact .fail _

end

section

variable {n : Nat} [Caller.Upholds law (call n)] [Runner.Upholds law (run n)] [law.Complete]

instance {builtin recv args} : Upholds law (callBuiltin (call n) (run n) builtin recv args) := by
  have := Law.Complete.resumeGenerator (inferInstance : Runner.Upholds law (run n))
  cases builtin <;> dsimp only [callBuiltin] <;> infer_instance

variable {activate : Frame → Action Value} [ha : Activator.Upholds law activate]

theorem callClosure_upholds {closure} (h : law.standard.code closure.code) (callee : ObjectRef)
    (recv : Value) (args : List Value) :
    Upholds law (callClosure (call n) (run n) activate callee closure recv args) := by
  have hbody : Upholds law (nested (newFrame callee closure recv args >>= activate)) :=
    @Upholds.nested _ _ _ (.bind_gives inferInstance (newFrame_gives h callee recv args)
      fun _ hf => ha.runs hf.1)
  unfold callClosure
  cases hk : closure.code.kind with
  | generator => exact startGenerator_upholds h hk callee recv args
  | async | asyncArrow =>
    exact Law.Complete.startAsync inferInstance inferInstance callee closure recv args h
      (by rw [hk]; rfl)
  | _ => exact hbody

instance {callee recv args} :
    Upholds law (callValue (call n) (run n) activate callee recv args) := by
  unfold callValue
  dsimp only
  split
  · refine .payload fun payload hp => Upholds.anywhere ?_
    split
    · exact callClosure_upholds hp _ recv args
    all_goals infer_instance
  · infer_instance

end

/-! ## Instructions -/

section

variable (fr : Frame) (instr : Code.Instruction)

instance : Upholds law (badOperand instr : Action α) := .fail _

instance (view : Code.Operand → Option α) : Upholds law (operand instr view) := by
  unfold operand
  split <;> infer_instance

instance : Upholds law (nameOf fr instr) := by
  unfold nameOf
  infer_instance

instance : Upholds law (bindingOf fr instr) := by
  unfold bindingOf
  infer_instance

instance : Upholds law (registerOf fr instr) := by
  unfold registerOf
  refine .next fun index => ?_
  split <;> infer_instance

instance : Upholds law (pop fr) := by
  unfold pop
  split <;> infer_instance

instance {count} : Upholds law (popMany fr count) := by
  unfold popMany
  split <;> infer_instance

instance : Upholds law (topObject fr) := by
  unfold topObject
  split <;> infer_instance

instance pushing_upholds {x} [Upholds law x] : Upholds law (pushing fr x) := by
  unfold pushing
  infer_instance

instance going_upholds {x} [Upholds law x] : Upholds law (going fr x) := by
  unfold going
  infer_instance

instance {f} [∀ a, Upholds law (f a)] : Upholds law (unary fr f) := by
  unfold unary
  infer_instance

instance {f} [∀ a b, Upholds law (f a b)] : Upholds law (binary fr f) := by
  unfold binary
  infer_instance

instance {count f} : Upholds law (rearrange fr count f) := by
  unfold rearrange
  infer_instance

instance : Upholds law (popCall fr instr) := by
  unfold popCall
  infer_instance

instance {record} : Upholds law (enterRecord fr record) := by
  unfold enterRecord
  infer_instance

instance {name} : Upholds law (resolveBound fr name) := by
  unfold resolveBound resolve
  refine .next fun found => ?_
  split <;> infer_instance

instance {record name} : Upholds law (valueIn record name) := .query _

instance : Upholds law globalRecord := by
  unfold globalRecord
  infer_instance

instance (vs : Array Value) : Upholds law (loadFrom fr instr vs) := by
  unfold loadFrom
  infer_instance

instance (wanted : Bool) : Upholds law (jumpIf fr instr wanted) := by
  unfold jumpIf
  infer_instance

instance (test : Resumption → Bool) :
    Upholds law (jumpIfResumed fr instr test) := by
  unfold jumpIfResumed
  infer_instance

instance : Upholds law (leaveRecord fr) := by
  unfold leaveRecord
  refine .next fun record => ?_
  split <;> infer_instance

instance : Upholds law (restoreRecord fr instr) := by
  unfold restoreRecord
  refine .next fun content => ?_
  split <;> infer_instance

instance : Upholds law (setName fr instr) := by
  unfold setName resolve
  refine .next fun binding => ?_
  refine .next fun popped => ?_
  refine .next fun found => ?_
  split <;> infer_instance

instance : Upholds law (deleteName fr instr) := by
  unfold deleteName resolve
  refine .next fun name => ?_
  refine @pushing_upholds _ _ _ (.next fun found => ?_)
  split <;> infer_instance

instance : Upholds law (typeofName fr instr) := by
  unfold typeofName resolve
  refine .next fun name => ?_
  refine @pushing_upholds _ _ _ (.next fun found => ?_)
  split <;> infer_instance

instance : Upholds law (declareLexical fr instr) := by
  unfold declareLexical
  refine .next fun binding => ?_
  refine .next fun record => ?_
  refine @going_upholds _ _ _ (@Upholds.change _ _ ⟨fun heap => ?_⟩)
  split
  · exact Heap.Calm.calms (f := fun heap => heap.createImmutable record binding.1 true) heap
  · exact Heap.Calm.calms (f := fun heap => heap.createMutable record binding.1 false) heap

instance : Upholds law (pushConstant fr instr) := by
  unfold pushConstant
  split
  · split <;> infer_instance
  · infer_instance

theorem makeClosure_upholds (h : law.standard.code fr.code) :
    Upholds law (makeClosure fr instr) := by
  unfold makeClosure
  split
  · split
    · next code hc =>
      have := createClosure_upholds (law.standard.functions h (List.mem_of_getElem? hc))
      dsimp only
      infer_instance
    · infer_instance
  · infer_instance

instance : Upholds law (switchTable fr instr) := by
  unfold switchTable
  split
  · split <;> infer_instance
  · infer_instance

instance : Upholds law (callUnit fr instr) := by
  unfold callUnit
  split
  · split <;> infer_instance
  · infer_instance

instance : Upholds law (throwNewError fr instr) := by
  unfold throwNewError
  split <;> infer_instance

instance : Upholds law (rethrow fr instr) := by
  unfold rethrow
  refine .next fun content => ?_
  dsimp only
  split <;> infer_instance

instance : Upholds law (suspend fr instr) := by
  unfold suspend
  split <;> infer_instance

instance : Upholds law (returnAfterResume fr instr) := by
  unfold returnAfterResume
  refine .next fun target => ?_
  split <;> infer_instance

instance : Upholds law (returnUnit fr) := by
  unfold returnUnit
  split <;> infer_instance

instance : Upholds law (resumeDispatch fr) := by
  unfold resumeDispatch
  split
  · infer_instance
  · split <;> infer_instance

instance : Upholds law (throwAfterResume fr) := by
  unfold throwAfterResume
  split <;> infer_instance

variable {call : Caller} [Caller.Upholds law call]

instance {f} : Upholds law (numeric call fr f) := by
  unfold numeric
  infer_instance

instance {base key action} : Upholds law (elementKey call base key action) := by
  unfold elementKey
  infer_instance

variable [law.Complete]

theorem step_upholds (h : law.standard.code fr.code) : Upholds law (step call fr instr) := by
  have := makeClosure_upholds fr instr h
  obtain ⟨op, operand⟩ := instr
  cases op <;> dsimp only [step, copyRecord, saveRecord, enterObject, addVariable, addConstant,
    firstValue, getSlot, getSlotChecked, setSlot, getName, getNameWithThis, getGlobal,
    setGlobal, initGlobal, typeofGlobal, checkLexical, checkVar, checkFunction,
    checkDeclarable, declareFunction, declareVar, loadRegister, storeRegister, tailCall,
    getProp, setProp, deleteProp, defineField, newArray, jump, createArguments, newObject,
    returnValue, throwValue, resumeValue, callFunction, constructObject, getElem, setElem,
    deleteElem, defineComputed] <;> infer_instance

omit [law.Complete]

instance {thrown handlers} : Upholds law (unwind call fr thrown handlers) := by
  induction handlers generalizing fr thrown with
  | nil => exact .raise _
  | cons handler rest ih =>
    unfold unwind
    split
    · infer_instance
    · infer_instance
    · split <;> infer_instance
    · infer_instance

instance {pos exception} : Upholds law (handle call fr pos exception) := by
  unfold handle
  split <;> infer_instance

variable [law.Complete]

theorem advance_upholds (h : law.standard.frame fr) : Upholds law (advance call fr) := by
  unfold advance
  split
  · infer_instance
  · next instr _ =>
    have hcode : law.standard.code fr.code := law.standard.holds h
    have : Upholds law (step call (fr.jump (fr.position + 1)) instr) := step_upholds _ _ hcode
    unfold guardedStep
    refine .next fun outcome => ?_
    split <;> infer_instance

end

/-! ## Running and calling -/

theorem run_keeps {standard : Standard} : {n : Nat} → {fr : Frame} → standard.frame fr →
      Gives (Exit.Has fun kept => standard.frame kept ∧ kept.code = fr.code) (run n fr)
  | 0, _, _ => ⟨nofun⟩
  | n + 1, fr, h => by
    have hgives : Gives (Progress.Has fun kept => standard.frame kept ∧ kept.code = fr.code)
        (advance (call n) fr) := by
      refine ⟨fun {m progress later} he => ?_⟩
      have hs := (standard.advances h).gives he
      have hc := advance_stays.gives he
      cases progress with
      | next following => exact ⟨hs, hc⟩
      | exit left =>
        cases left with
        | suspended v kept => exact ⟨hs, hc⟩
        | _ => trivial
    rw [run]
    refine hgives.bind fun progress hp => ?_
    cases progress with
    | next following => exact hp.2 ▸ run_keeps hp.1
    | exit left => exact .pure hp

mutual

theorem run_upholds [law.Complete] : (n : Nat) → {fr : Frame} → law.standard.frame fr →
    Upholds law (run n fr)
  | 0, _, _ => .stop _
  | n + 1, fr, h => by
    have : Caller.Upholds law (call n) := ⟨call_upholds n⟩
    rw [run]
    refine .bind_gives (advance_upholds fr h) (law.standard.advances h) fun progress hp => ?_
    cases progress with
    | next following => exact run_upholds n hp
    | exit left => exact .pure _

theorem activate_upholds [law.Complete] : (n : Nat) → {fr : Frame} → law.standard.frame fr →
    Upholds law (activate n fr)
  | 0, _, _ => .stop _
  | n + 1, fr, h => by
    have : Caller.Upholds law (call n) := ⟨call_upholds n⟩
    rw [activate]
    refine @Upholds.bind _ _ _ _ _ (run_upholds n h) fun exit => ?_
    cases exit with
    | tailCall callee recv args => exact tailCalled_upholds n callee recv args
    | _ => infer_instance

theorem tailCalled_upholds [law.Complete] (n : Nat) (callee recv : Value) (args : List Value) :
    Upholds law (do
      match ← look fun heap => tailTarget? heap callee with
      | some (ref, closure) =>
        let fr ← newFrame ref closure recv args
        activate n fr
      | none => call n callee recv args) := by
  refine ⟨fun {m later} hm he => ?_⟩
  change Action.reached? (match tailTarget? m.heap callee with
    | some (ref, closure) => newFrame ref closure recv args >>= activate n
    | none => call n callee recv args) m = some later at he
  cases ht : tailTarget? m.heap callee with
  | none =>
    rw [ht] at he
    exact (call_upholds n callee recv args).upholds hm he
  | some target =>
    obtain ⟨ref, closure⟩ := target
    rw [ht] at he
    have hcode : law.standard.code closure.code := by
      unfold tailTarget? at ht
      split at ht
      · next found =>
        split at ht
        · next other hp =>
          split at ht
          · cases ht
          · cases ht
            have := hm.admits ref
            rwa [Heap.payload, hp] at this
        · cases ht
      · cases ht
    exact (Upholds.bind_gives inferInstance (newFrame_gives hcode ref recv args)
      fun _ hf => activate_upholds n hf.1).upholds hm he

theorem call_upholds [law.Complete] : (n : Nat) → (callee recv : Value) → (args : List Value) →
    Upholds law (call n callee recv args)
  | 0, _, _, _ => .stop _
  | n + 1, callee, recv, args => by
    have : Caller.Upholds law (call n) := ⟨call_upholds n⟩
    have : Runner.Upholds law (run n) := ⟨run_upholds n, run_keeps⟩
    have : Activator.Upholds law (activate n) := ⟨activate_upholds n⟩
    rw [call]
    infer_instance

end

instance [law.Complete] {n} : Caller.Upholds law (call n) := ⟨call_upholds n⟩

instance [law.Complete] (n : Nat) : Runner.Upholds law (run n) := ⟨run_upholds n, run_keeps⟩

end Action

end Ecma
