/-
Instructions in tandem: the same operation, in code that places it elsewhere, does the same to a
frame. The operands that it takes and leaves are counted on the way.
-/
import Ecma.Proofs.FrameCode
import Ecma.Proofs.TandemMachine

namespace Ecma

open Code (Template Instruction Operand Constant Op)

abbrev Frame.onto (fr : Frame) (code : Template) (pos : Nat) (returns : List Nat) : Frame :=
  { fr with code, position := pos, returns }

namespace Code

/-- A constant that two templates share, at the index where each has it. -/
def Template.Share (first second : Template) (a b : Nat) (constant : Constant) : Prop :=
  first.constants[a]? = some constant ∧ second.constants[b]? = some constant

theorem Template.Share.nameAt_eq {first second : Template} {a b : Nat} {text : String}
    (h : first.Share second a b (.string text)) : first.nameAt a = second.nameAt b := by
  unfold nameAt
  rw [h.1, h.2]

/-- Whether an operand means the same in every template. -/
def Operand.isAbsolute : Operand → Bool
  | .slot .. | .register _ | .argCount _ | .count _ | .flag _ => true
  | _ => false

theorem Operand.name?_of_isAbsolute {operand : Operand} (h : operand.isAbsolute = true) :
    operand.name? = none := by
  cases operand <;> simp_all [isAbsolute, name?]

theorem Operand.binding?_of_isAbsolute {operand : Operand} (h : operand.isAbsolute = true) :
    operand.binding? = none := by
  cases operand <;> simp_all [isAbsolute, binding?]

/-- Operands that mean the same, given the constants that are shared. -/
inductive Operand.Same (share : Nat → Nat → Constant → Prop) :
    Option Operand → Option Operand → Prop
  | none : Same share none none
  | constant {a b c} : share a b c → Same share (some (.constant a)) (some (.constant b))
  | name {a b text} : share a b (.string text) → Same share (some (.name a)) (some (.name b))
  | binding {a b text flag} : share a b (.string text) →
    Same share (some (.binding a flag)) (some (.binding b flag))
  | error {kind a b text} : share a b (.string text) →
    Same share (some (.error kind a)) (some (.error kind b))
  | absolute {operand} : operand.isAbsolute = true → Same share (some operand) (some operand)

namespace Op

/-- Whether an operation leaves nothing behind but the frame that goes on after it, whatever the
records are. -/
def isPlain : Op → Bool
  | .clearStack | .pushBlockEnv | .createMutableBinding | .createImmutableBinding
  | .checkGlobalLexical | .checkGlobalVar | .checkGlobalFunction | .checkGlobalVarDeclarable
  | .createGlobalFunction | .createGlobalVar | .createGlobalLexical | .callUnit | .returnUnit
  | .closure | .tailCall | .returnValue | .jump | .jumpIfTrue | .jumpIfFalse | .switchTable
  | .throwValue | .throwNewError | .rethrow | .resumeDispatch | .suspend | .returnAfterResume
  | .jumpIfResumeThrow | .jumpIfResumeReturn => false
  | _ => true

/-- The operands that a plain operation takes; some say how many in the instruction. -/
def takes (count : Nat) : Op → Nat
  | .pop | .dup | .storeReg | .pushWithEnv | .initializeBinding | .setSlot | .setName | .setGlobal
  | .initGlobal | .getProp | .deleteProp | .defineField | .neg | .bitNot | .not | .inc | .dec
  | .typeof | .isNullish | .toBoolean | .toNumber | .toInt32 | .toUint32 | .toText | .toObject
  | .toPropertyKey | .toPrimitive | .await | .createIterResult | .getIterator | .iteratorComplete
  | .iteratorValue | .iteratorClose | .getMethod | .requireObject | .enumerateKeys => 1
  | .dup2 | .swap | .getElem | .setProp | .deleteElem | .defineComputed | .add | .concat
  | .arithmetic _ | .relation _ | .iteratorNext => 2
  | .rot3 | .setElem => 3
  | .rot4 => 4
  | .call => count + 2
  | .construct => count + 1
  | .newArray => count
  | _ => 0

/-- The operands that a plain operation leaves in their place. -/
def gives : Op → Nat
  | .pop | .storeReg | .popEnv | .copyEnv | .saveEnv | .restoreEnv | .pushWithEnv
  | .initializeBinding | .setSlot | .setName | .setGlobal | .initGlobal | .defineField
  | .defineComputed | .throwAfterResume | .iteratorClose | .nop => 0
  | .dup | .swap | .getNameWithThis => 2
  | .rot3 => 3
  | .dup2 | .rot4 => 4
  | _ => 1

end Op

/-- The height of the stack after a plain instruction. -/
def Instruction.after (instr : Instruction) (height : Nat) : Nat :=
  height - instr.op.takes ((instr.operand.bind Operand.count?).getD 0) +
    instr.op.gives

end Code

namespace Action

variable {like : Likeness} {call : Caller} {more : Nat → Caller} [Caller.Keeps like call more]

/-! ## Frames -/

/-- Frames that differ from an origin in their operands, registers and records. -/
structure Variant (origin fr : Frame) : Prop where
  code : fr.code = origin.code
  position : fr.position = origin.position
  returns : fr.returns = origin.returns

/-- What a plain instruction makes of a frame and of its twin in other code: a frame of some
height that goes on, or the same exception. -/
inductive Moved (origin : Frame) (code : Template) (pos : Nat) (returns : List Nat)
    (height : Nat) : Effect → Effect → Prop
  | next {fr} : Variant origin fr → fr.stack.size = height →
    Moved origin code pos returns height (.next fr) (.next (fr.onto code pos returns))
  | raise {exception fr} : Variant origin fr →
    Moved origin code pos returns height (.raise exception fr)
      (.raise exception (fr.onto code pos returns))

/-- Values taken from the stack of a frame and of its twin. -/
inductive Taken {α : Type} (origin : Frame) (code : Template) (pos : Nat) (returns : List Nat)
    (height : Nat) : α × Frame → α × Frame → Prop
  | intro {v fr} : Variant origin fr → fr.stack.size = height →
    Taken origin code pos returns height (v, fr) (v, fr.onto code pos returns)

theorem Variant.refl (fr : Frame) : Variant fr fr := ⟨rfl, rfl, rfl⟩

end Action

namespace Action

/-! ## Ways to take operands -/

section

variable {like : Likeness} {origin fr : Frame} {code : Template} {pos : Nat} {returns : List Nat}
  {height : Nat} {m m' : Machine}

theorem pop_tracks (hv : Variant origin fr) (hm : like.Machines m m') :
    like.Tracks (fun a b _ => Taken origin code pos returns (fr.stack.size - 1) a b)
      (pop fr) (fun _ => pop (fr.onto code pos returns)) m m' := by
  unfold pop Frame.onto
  dsimp only
  cases he : fr.stack.pop? with
  | none => exact .raise hm
  | some top => exact .pure hm (.intro ⟨hv.code, hv.position, hv.returns⟩ (Stack.size_of_pop? he))

/-- A piece of code with the top of the stack. -/
theorem pop_then {γ δ : Type} {further : γ → δ → Machine → Prop} {k : Value × Frame → Action γ}
    {l : Nat → Value × Frame → Action δ} (hv : Variant origin fr) (hm : like.Machines m m')
    (hk : ∀ {v rest later later'}, Variant origin rest →
      rest.stack.size = fr.stack.size - 1 → like.Machines later later' →
      like.Tracks further (k (v, rest))
        (fun n => l n (v, rest.onto code pos returns)) later later') :
    like.Tracks further (pop fr >>= k)
      (fun n => pop (fr.onto code pos returns) >>= l n) m m' := by
  refine .bind (pop_tracks hv hm) fun a b later later' hm ht => ?_
  obtain ⟨hv, hs⟩ := ht
  exact hk hv hs hm

theorem popMany_tracks (hv : Variant origin fr) (count : Nat) (hm : like.Machines m m') :
    like.Tracks (fun a b _ => a.1.length = count ∧
        Taken origin code pos returns (fr.stack.size - count) a b)
      (popMany fr count) (fun _ => popMany (fr.onto code pos returns) count) m m' := by
  unfold popMany Frame.onto
  dsimp only
  cases he : fr.stack.popMany? count with
  | none => exact .raise hm
  | some top =>
    obtain ⟨hl, hs⟩ := Stack.size_of_popMany? he
    exact .pure hm ⟨hl, .intro ⟨hv.code, hv.position, hv.returns⟩ (by dsimp only; omega)⟩

theorem popMany_then {γ δ : Type} {further : γ → δ → Machine → Prop}
    {k : List Value × Frame → Action γ} {l : Nat → List Value × Frame → Action δ}
    (hv : Variant origin fr) (count : Nat) (hm : like.Machines m m')
    (hk : ∀ {vs rest later later'}, vs.length = count → Variant origin rest →
      rest.stack.size = fr.stack.size - count → like.Machines later later' →
      like.Tracks further (k (vs, rest))
        (fun n => l n (vs, rest.onto code pos returns)) later later') :
    like.Tracks further (popMany fr count >>= k)
      (fun n => popMany (fr.onto code pos returns) count >>= l n) m m' := by
  refine .bind (popMany_tracks hv count hm) fun a b later later' hm ht => ?_
  obtain ⟨hl, hv, hs⟩ := ht
  exact hk hl hv hs hm

theorem moved_push (hv : Variant origin fr) (v : Value) (hh : fr.stack.size + 1 = height) :
    Moved origin code pos returns height (.next (fr.push v))
      (.next ((fr.onto code pos returns).push v)) :=
  .next ⟨hv.code, hv.position, hv.returns⟩ hh

theorem pushing_tracks {x : Action Value} {y : Nat → Action Value} [hk : like.Keeps x y]
    (hv : Variant origin fr) (hh : fr.stack.size + 1 = height) (hm : like.Machines m m') :
    like.Tracks (fun a b _ => Moved origin code pos returns height a b) (pushing fr x)
      (fun n => pushing (fr.onto code pos returns) (y n)) m m' := by
  refine .on (hk.tracks hm) fun v hm => ?_
  exact .pure hm (moved_push hv v hh)

theorem going_tracks {x : Action Unit} {y : Nat → Action Unit} [hk : like.Keeps x y]
    (hv : Variant origin fr) (hh : fr.stack.size = height) (hm : like.Machines m m') :
    like.Tracks (fun a b _ => Moved origin code pos returns height a b) (going fr x)
      (fun n => going (fr.onto code pos returns) (y n)) m m' :=
  .bind (hk.tracks hm) fun _ _ _ _ hm _ => .pure hm (.next hv hh)

theorem unary_tracks {f : Value → Action Value} {g : Nat → Value → Action Value}
    [∀ a, like.Keeps (f a) (fun n => g n a)] (hv : Variant origin fr)
    (hh : fr.stack.size - 1 + 1 = height) (hm : like.Machines m m') :
    like.Tracks (fun a b _ => Moved origin code pos returns height a b) (unary fr f)
      (fun n => unary (fr.onto code pos returns) (g n)) m m' := by
  refine pop_then hv hm fun hv hs hm => ?_
  exact pushing_tracks hv (by omega) hm

theorem binary_tracks {f : Value → Value → Action Value} {g : Nat → Value → Value → Action Value}
    [∀ a b, like.Keeps (f a b) (fun n => g n a b)] (hv : Variant origin fr)
    (hh : fr.stack.size - 2 + 1 = height) (hm : like.Machines m m') :
    like.Tracks (fun a b _ => Moved origin code pos returns height a b) (binary fr f)
      (fun n => binary (fr.onto code pos returns) (g n)) m m' := by
  refine pop_then hv hm fun hv hs hm => ?_
  refine pop_then hv hm fun hv hs' hm => ?_
  exact pushing_tracks hv (by omega) hm

theorem rearrange_tracks {f : List Value → List Value} {count : Nat} (size : Nat)
    (hf : ∀ vs, vs.length = count → (f vs).length = size) (hv : Variant origin fr)
    (hh : fr.stack.size - count + size = height) (hm : like.Machines m m') :
    like.Tracks (fun a b _ => Moved origin code pos returns height a b) (rearrange fr count f)
      (fun _ => rearrange (fr.onto code pos returns) count f) m m' := by
  refine popMany_then hv count hm fun hl hv hs hm => ?_
  refine .pure hm (.next ⟨hv.code, hv.position, hv.returns⟩ ?_)
  rw [Stack.size_pushMany, hf _ hl, hs, hh]

end

/-! ## Operands of the instruction -/

section

variable {first second : Template} {op : Op} {operand operand' : Option Operand}
  (h : Operand.Same (first.Share second) operand operand')

include h

omit h in
theorem operand_eq {α : Type} {view : Operand → Option α}
    (hv : operand.bind view = operand'.bind view) :
    Action.operand ⟨op, operand⟩ view = Action.operand ⟨op, operand'⟩ view := by
  unfold Action.operand
  rw [hv]
  rfl

theorem count_eq : Action.operand ⟨op, operand⟩ Operand.count? =
    Action.operand ⟨op, operand'⟩ Operand.count? :=
  operand_eq (by cases h <;> rfl)

theorem slot_eq : Action.operand ⟨op, operand⟩ Operand.slot? =
    Action.operand ⟨op, operand'⟩ Operand.slot? :=
  operand_eq (by cases h <;> rfl)

theorem register_eq : Action.operand ⟨op, operand⟩ Operand.register? =
    Action.operand ⟨op, operand'⟩ Operand.register? :=
  operand_eq (by cases h <;> rfl)

theorem nameOf_eq (fr fr' : Frame) (hf : fr.code = first) (hf' : fr'.code = second) :
    nameOf fr ⟨op, operand⟩ = nameOf fr' ⟨op, operand'⟩ := by
  subst hf hf'
  cases h with
  | name hs | binding hs => simp [nameOf, Action.operand, Operand.name?, hs.nameAt_eq]
  | absolute ha => simp [nameOf, Action.operand, Operand.name?_of_isAbsolute ha, badOperand]; rfl
  | _ => rfl

theorem bindingOf_eq (fr fr' : Frame) (hf : fr.code = first) (hf' : fr'.code = second) :
    bindingOf fr ⟨op, operand⟩ = bindingOf fr' ⟨op, operand'⟩ := by
  subst hf hf'
  cases h with
  | binding hs => simp [bindingOf, Action.operand, Operand.binding?, hs.nameAt_eq]
  | absolute ha => simp [bindingOf, Action.operand, Operand.binding?_of_isAbsolute ha, badOperand]; rfl
  | _ => rfl

theorem registerOf_eq (fr fr' : Frame) (hf : fr.registers = fr'.registers) :
    registerOf fr ⟨op, operand⟩ = registerOf fr' ⟨op, operand'⟩ := by
  unfold registerOf
  rw [register_eq h, hf]

end

section

variable {like : Likeness} {α : Type} (fr : Frame) (instr : Instruction)

instance : like.Stills (α := α) (badOperand instr) := by
  unfold badOperand
  infer_instance

instance (view : Operand → Option α) : like.Stills (operand instr view) := by
  unfold operand
  split <;> infer_instance

instance : like.Stills (nameOf fr instr) := by
  unfold nameOf
  infer_instance

instance : like.Stills (bindingOf fr instr) := by
  unfold bindingOf
  infer_instance

instance : like.Stills (registerOf fr instr) := by
  unfold registerOf
  refine .next fun index => ?_
  split <;> infer_instance

section

variable (code : Template) (pos : Nat) (returns : List Nat)

instance : like.Keeps (topObject fr)
    (fun _ => topObject (fr.onto code pos returns)) := by
  unfold topObject
  dsimp only
  split <;> infer_instance

instance {name} : like.Keeps (resolve fr name)
    (fun _ => resolve (fr.onto code pos returns) name) :=
  .look _ _ fun hh => hh.resolve? fr.record name

instance {name} : like.Keeps (resolveBound fr name)
    (fun _ => resolveBound (fr.onto code pos returns) name) := by
  unfold resolveBound
  refine .next fun found => ?_
  split <;> infer_instance

end

instance {record name} : like.Stills (valueIn record name) :=
  .query _ _ fun hh => hh.getBinding record name true

instance : like.Stills globalRecord := by
  unfold globalRecord
  infer_instance

instance {record name v strict} : like.Stills (update (Heap.setBinding record name v strict)) :=
  .update _ _ fun hh => hh.setBinding record name v strict

instance {call more} [Caller.Keeps like call more] {base key action}
    : like.Keeps (elementKey call base key action)
      (fun n => elementKey (more n) base key action) := by
  have := Likeness.Keeps.look like
    (fun heap => Cause.elementOfNullish action (heap.describe base) (heap.describe key))
    fun hh => by rw [hh.describe, hh.describe]
  unfold elementKey
  infer_instance

end

/-- What a piece of code does to a frame, another one does to its twin: both go on with a stack of
some height. -/
abbrev Moves (like : Likeness) (origin : Frame) (code : Template) (pos : Nat)
    (returns : List Nat) (height : Nat) (x : Frame → Action Effect) (y : Nat → Frame → Action Effect)
    (m m' : Machine) : Prop :=
  like.Tracks (fun a b _ => Moved origin code pos returns height a b) (x origin)
    (fun n => y n (origin.onto code pos returns)) m m'

/-! ## Plain instructions -/

section

variable {like : Likeness} {call : Caller} {more : Nat → Caller} [Caller.Keeps like call more]
  {origin fr : Frame} {code : Template} {pos : Nat} {returns : List Nat} {op : Op}
  {operand operand' : Option Operand}
  (h : Operand.Same (origin.code.Share code) operand operand') (hv : Variant origin fr)
  {m m' : Machine} (hm : like.Machines m m')

section

include h hm

/-- A count in the instruction is the one by which operands are counted. -/
theorem count_tracks : like.Tracks (fun a b _ => a = b ∧ (operand.bind Operand.count?).getD 0 = a)
    (Action.operand ⟨op, operand⟩ Operand.count?)
    (fun _ => Action.operand ⟨op, operand'⟩ Operand.count?) m m' := by
  rw [← count_eq h]
  unfold Action.operand
  cases operand.bind Operand.count? with
  | none => exact .raise hm
  | some count => exact .pure hm ⟨rfl, rfl⟩

theorem slot_tracks : like.Tracks (fun a b _ => a = b) (Action.operand ⟨op, operand⟩ Operand.slot?)
    (fun _ => Action.operand ⟨op, operand'⟩ Operand.slot?) m m' := by
  rw [← slot_eq h]
  exact Likeness.Keeps.tracks hm

theorem registerIndex_tracks : like.Tracks (fun a b _ => a = b)
    (Action.operand ⟨op, operand⟩ Operand.register?)
    (fun _ => Action.operand ⟨op, operand'⟩ Operand.register?) m m' := by
  rw [← register_eq h]
  exact Likeness.Keeps.tracks hm

theorem register_tracks : like.Tracks (fun a b _ => a = b) (registerOf fr ⟨op, operand⟩)
    (fun _ => registerOf (fr.onto code pos returns) ⟨op, operand'⟩) m m' := by
  rw [← registerOf_eq h fr (fr.onto code pos returns) rfl]
  exact Likeness.Keeps.tracks hm

include hv

theorem name_tracks : like.Tracks (fun a b _ => a = b) (nameOf fr ⟨op, operand⟩)
    (fun _ => nameOf (fr.onto code pos returns) ⟨op, operand'⟩) m m' := by
  rw [← nameOf_eq h fr (fr.onto code pos returns) hv.code rfl]
  exact Likeness.Keeps.tracks hm

theorem binding_tracks : like.Tracks (fun a b _ => a = b) (bindingOf fr ⟨op, operand⟩)
    (fun _ => bindingOf (fr.onto code pos returns) ⟨op, operand'⟩) m m' := by
  rw [← bindingOf_eq h fr (fr.onto code pos returns) hv.code rfl]
  exact Likeness.Keeps.tracks hm

end

include h hm

theorem pushConstant_tracks :
    Moves like origin code pos returns (origin.stack.size + 1) (pushConstant · ⟨op, operand⟩)
      (fun _ => (pushConstant · ⟨op, operand'⟩)) m m' := by
  unfold Moves pushConstant Frame.onto
  cases h with
  | constant hs =>
    dsimp only
    rw [hs.1, hs.2]
    split
    · exact .pure hm (moved_push (.refl origin) _ rfl)
    · exact .pure hm (moved_push (.refl origin) _ rfl)
    · exact .raise hm
  | @absolute operand ha =>
    cases operand with
    | constant index => cases ha
    | _ => exact .raise hm
  | _ => exact .raise hm

/-! ### Slots and names -/

/-! ### Functions and objects -/

theorem loadFrom_tracks (vs : Array Value) : Moves like origin code pos returns
      (origin.stack.size + 1) (loadFrom · ⟨op, operand⟩ vs)
      (fun _ => (loadFrom · ⟨op, operand'⟩ vs)) m m' := by
  refine .bind (count_tracks h hm) fun index _ later later' hm he => ?_
  obtain ⟨rfl, -⟩ := he
  exact .pure hm (moved_push (.refl origin) _ rfl)

theorem popCall_tracks : like.Tracks (fun a b _ => Taken origin code pos returns
        (origin.stack.size - ((operand.bind Operand.count?).getD 0 + 2)) a b)
      (popCall origin ⟨op, operand⟩)
      (fun _ => popCall (origin.onto code pos returns) ⟨op, operand'⟩) m m' := by
  refine .bind (count_tracks h hm) fun count _ later later' hm he => ?_
  obtain ⟨rfl, hc⟩ := he
  refine popMany_then (.refl origin) count hm fun _ hv hs hm => ?_
  refine pop_then hv hm fun hv hs' hm => ?_
  refine pop_then hv hm fun hv hs'' hm => ?_
  exact .pure hm (.intro hv (by omega))

omit h

theorem deleteElem_tracks (hs : origin.code.strict = code.strict) :
    Moves like origin code pos returns (origin.stack.size - 2 + 1) (deleteElem call ·)
      (fun n => (deleteElem (more n) ·)) m m' := by
  unfold Moves deleteElem
  dsimp only
  rw [hs]
  exact binary_tracks (.refl origin) rfl hm

theorem numeric_tracks (f : Float → Float) :
    Moves like origin code pos returns (origin.stack.size - 1 + 1) (numeric call · f)
      (fun n => (numeric (more n) · f)) m m' :=
  unary_tracks (.refl origin) rfl hm

theorem throwAfterResume_tracks :
    Moves like origin code pos returns origin.stack.size throwAfterResume
      (fun _ => throwAfterResume) m m' := by
  unfold Moves throwAfterResume
  dsimp only
  split
  · exact .pure hm (.raise ⟨rfl, rfl, rfl⟩)
  · exact .pure hm (.next (.refl origin) rfl)

/-- A plain instruction does the same to a frame and to its twin in other code. -/
theorem step_plain_tracks (hp : op.isPlain = true)
    (h : Operand.Same (origin.code.Share code) operand operand')
    (hs : origin.code.strict = code.strict) : Moves like origin code pos returns
      (Instruction.after ⟨op, operand⟩ origin.stack.size) (step call · ⟨op, operand⟩)
      (fun n => (step (more n) · ⟨op, operand'⟩)) m m' := by
  cases op with
  | pop =>
    refine pop_then (.refl origin) hm fun hv hs hm => ?_
    exact .pure hm (.next hv hs)
  | dup =>
    dsimp only [step]
    exact rearrange_tracks 2 (fun vs hl => by simp [hl]) (.refl origin) rfl hm
  | dup2 =>
    dsimp only [step]
    exact rearrange_tracks 4 (fun vs hl => by simp [hl]) (.refl origin) rfl hm
  | swap =>
    dsimp only [step]
    exact rearrange_tracks 2 (fun vs hl => by simp [hl]) (.refl origin) rfl hm
  | rot3 =>
    dsimp only [step]
    exact rearrange_tracks 3 (fun vs hl => by rw [Stack.length_rotateRight, hl]) (.refl origin) rfl hm
  | rot4 =>
    dsimp only [step]
    exact rearrange_tracks 4 (fun vs hl => by rw [Stack.length_rotateRight, hl]) (.refl origin) rfl hm
  | const => exact pushConstant_tracks h hm
  | pushUndefined | pushNull | pushTrue | pushFalse =>
    exact .pure hm (moved_push (.refl origin) _ rfl)
  | loadReg =>
    refine .on (registerIndex_tracks h hm) fun index hm => ?_
    exact .pure hm (moved_push (.refl origin) _ rfl)
  | storeReg =>
    refine pop_then (.refl origin) hm fun hv hs hm => ?_
    refine .on (register_tracks h hm) fun reg hm => ?_
    exact .pure hm (.next ⟨hv.code, hv.position, hv.returns⟩ hs)
  | popEnv =>
    have hl : like.Stills (look fun heap => heap.record origin.record) := .look _ _ fun hh => hh.record _
    refine .on (hl.tracks hm) fun record hm => ?_
    cases record.parent? with
    | none => exact .raise hm
    | some parent => exact .pure hm (.next ⟨rfl, rfl, rfl⟩ rfl)
  | copyEnv =>
    have hc : like.Stills (apply fun heap => heap.copyRecord origin.record) := .apply _ _ fun hh => hh.copyRecord _
    refine .on (hc.tracks hm) fun record hm => ?_
    exact .pure hm (.next ⟨rfl, rfl, rfl⟩ rfl)
  | saveEnv =>
    refine .on (register_tracks h hm) fun reg hm => ?_
    exact .pure hm (.next ⟨rfl, rfl, rfl⟩ rfl)
  | restoreEnv =>
    refine .on (register_tracks h hm) fun reg hm => ?_
    obtain ⟨index, content⟩ := reg
    cases content with
    | record record => exact .pure hm (.next ⟨rfl, rfl, rfl⟩ rfl)
    | _ => exact .raise hm
  | pushWithEnv =>
    refine pop_then (.refl origin) hm fun hv hs hm => ?_
    refine .kept hm fun obj hm => ?_
    refine .kept hm fun record hm => ?_
    exact .pure hm (.next ⟨hv.code, hv.position, hv.returns⟩ hs)
  | initializeBinding =>
    refine .on (slot_tracks h hm) fun slot hm => ?_
    refine pop_then (.refl origin) hm fun hv hs hm => ?_
    have := fun record v => Likeness.Keeps.update like
      (Heap.initializeSlot record slot.1 slot.2 v) fun hh => hh.initializeSlot ..
    exact going_tracks hv hs hm
  | getSlot =>
    refine .on (slot_tracks h hm) fun slot hm => ?_
    have := fun record => Likeness.Keeps.query like
      (fun heap => heap.getSlotUnchecked record slot.1 slot.2) fun hh => hh.getSlotUnchecked ..
    exact pushing_tracks (.refl origin) rfl hm
  | getSlotChecked =>
    refine .on (slot_tracks h hm) fun slot hm => ?_
    have := fun record => Likeness.Keeps.query like
      (fun heap => heap.getSlot record slot.1 slot.2) fun hh => hh.getSlot ..
    exact pushing_tracks (.refl origin) rfl hm
  | setSlot =>
    refine .on (slot_tracks h hm) fun slot hm => ?_
    refine pop_then (.refl origin) hm fun hv hh hm => ?_
    have := fun record v => Likeness.Keeps.update like
      (Heap.setSlot record slot.1 slot.2 v code.strict) fun hh => hh.setSlot ..
    dsimp only
    rw [hv.code, hs]
    exact going_tracks hv hh hm
  | getName =>
    refine .on (name_tracks h (.refl origin) hm) fun name hm => ?_
    exact pushing_tracks (.refl origin) rfl hm
  | getNameWithThis =>
    refine .on (name_tracks h (.refl origin) hm) fun name hm => ?_
    refine .kept hm fun record hm => ?_
    refine .kept hm fun fn hm => ?_
    have hl : like.Stills (look fun heap => (heap.record record).withObject?) := .look _ _ fun hh => by rw [hh.record]
    refine .on (hl.tracks hm) fun base hm => ?_
    exact .pure hm (.next ⟨rfl, rfl, rfl⟩ rfl)
  | setName =>
    refine .on (binding_tracks h (.refl origin) hm) fun binding hm => ?_
    obtain ⟨name, strict⟩ := binding
    refine pop_then (.refl origin) hm fun hv hs hm => ?_
    refine .kept hm fun found hm => ?_
    cases found with
    | some record => exact going_tracks hv hs hm
    | none =>
      cases strict with
      | true =>
        refine .kept hm fun _ hm => ?_
        refine .kept hm fun realm hm => ?_
        exact going_tracks hv hs hm
      | false =>
        refine .kept hm fun realm hm => ?_
        exact going_tracks hv hs hm
  | deleteName =>
    refine .on (name_tracks h (.refl origin) hm) fun name hm => ?_
    have := fun record => Likeness.Keeps.apply like
      (fun heap => heap.deleteBinding record name) fun hh => hh.deleteBinding record name
    refine @pushing_tracks _ _ _ _ _ _ _ _ _ _ _ ?_ (.refl origin) rfl hm
    refine .next fun found => ?_
    split <;> infer_instance
  | typeofName =>
    refine .on (name_tracks h (.refl origin) hm) fun name hm => ?_
    refine @pushing_tracks _ _ _ _ _ _ _ _ _ _ _ ?_ (.refl origin) rfl hm
    refine .next fun found => ?_
    split <;> infer_instance
  | getGlobal =>
    refine .on (name_tracks h (.refl origin) hm) fun name hm => ?_
    exact pushing_tracks (.refl origin) rfl hm
  | setGlobal =>
    refine .on (binding_tracks h (.refl origin) hm) fun binding hm => ?_
    refine pop_then (.refl origin) hm fun hv hs hm => ?_
    refine .kept hm fun record hm => ?_
    exact going_tracks hv hs hm
  | initGlobal =>
    refine .on (name_tracks h (.refl origin) hm) fun name hm => ?_
    refine pop_then (.refl origin) hm fun hv hs hm => ?_
    refine .kept hm fun record hm => ?_
    have := fun v => Likeness.Keeps.update like
      (Heap.initializeBinding record name v) fun hh => hh.initializeBinding ..
    exact going_tracks hv hs hm
  | typeofGlobal =>
    refine .on (name_tracks h (.refl origin) hm) fun name hm => ?_
    have := fun record => Likeness.Keeps.look like
      (fun heap => heap.hasBinding record name) fun hh => hh.hasBinding record name
    exact pushing_tracks (.refl origin) rfl hm
  | loadImport | loadArg => exact loadFrom_tracks h hm _
  | loadCallee | this => exact .pure hm (moved_push (.refl origin) _ rfl)
  | createArguments =>
    have := fun prototype => allocWith_keeps like prototype (.array origin.arguments) rfl
    exact pushing_tracks (.refl origin) rfl hm
  | call =>
    refine .bind (popCall_tracks h hm) fun a b later later' hm ht => ?_
    obtain ⟨hv, hs⟩ := ht
    exact pushing_tracks hv (by dsimp only [Instruction.after, Op.takes, Op.gives]; omega) hm
  | construct =>
    refine .bind (count_tracks h hm) fun count _ later later' hm he => ?_
    obtain ⟨rfl, hc⟩ := he
    refine popMany_then (.refl origin) count hm fun _ hv hs hm => ?_
    refine pop_then hv hm fun hv hs' hm => ?_
    exact pushing_tracks hv (by dsimp only [Instruction.after, Op.takes, Op.gives]; omega) hm
  | getProp =>
    refine .on (name_tracks h (.refl origin) hm) fun name hm => ?_
    exact unary_tracks (.refl origin) rfl hm
  | setProp =>
    refine .on (name_tracks h (.refl origin) hm) fun name hm => ?_
    dsimp only
    rw [hs]
    exact binary_tracks (.refl origin) rfl hm
  | setElem =>
    refine pop_then (.refl origin) hm fun hv hh hm => ?_
    dsimp only
    rw [hv.code, hs]
    exact binary_tracks hv (by dsimp only [Instruction.after, Op.takes, Op.gives]; omega) hm
  | deleteProp =>
    refine .on (name_tracks h (.refl origin) hm) fun name hm => ?_
    dsimp only
    rw [hs]
    exact unary_tracks (.refl origin) rfl hm
  | deleteElem => exact deleteElem_tracks hm hs
  | newObject =>
    have := fun prototype => allocWith_keeps like prototype .ordinary rfl
    exact pushing_tracks (.refl origin) rfl hm
  | defineField =>
    refine .on (name_tracks h (.refl origin) hm) fun name hm => ?_
    refine pop_then (.refl origin) hm fun hv hs hm => ?_
    exact going_tracks hv hs hm
  | defineComputed =>
    refine pop_then (.refl origin) hm fun hv hs hm => ?_
    refine pop_then hv hm fun hv hs' hm => ?_
    refine .kept hm fun key hm => ?_
    exact going_tracks hv (by dsimp only [Instruction.after, Op.takes, Op.gives]; omega) hm
  | newArray =>
    refine .bind (count_tracks h hm) fun count _ later later' hm he => ?_
    obtain ⟨rfl, hc⟩ := he
    refine popMany_then (.refl origin) count hm fun _ hv hs hm => ?_
    have := fun prototype elements => allocWith_keeps like prototype (.array elements) rfl
    exact pushing_tracks hv (by dsimp only [Instruction.after, Op.takes, Op.gives]; omega) hm
  | getElem | add | concat | arithmetic operator | relation r | iteratorNext =>
    dsimp only [step]
    exact binary_tracks (.refl origin) rfl hm
  | neg | bitNot | inc | dec | toNumber | toInt32 | toUint32 => exact numeric_tracks hm _
  | not | typeof | isNullish | toBoolean | toText | toObject | toPropertyKey | toPrimitive | await
  | getIterator | iteratorComplete | iteratorValue | requireObject | enumerateKeys =>
    dsimp only [step]
    exact unary_tracks (.refl origin) rfl hm
  | createIterResult =>
    have he : (operand == some (.flag true)) = (operand' == some (.flag true)) := by
      cases h <;> rfl
    dsimp only [Moves, step]
    rw [← he]
    exact unary_tracks (.refl origin) rfl hm
  | iteratorClose =>
    refine pop_then (.refl origin) hm fun hv hs hm => ?_
    exact going_tracks hv hs hm
  | getMethod =>
    refine .on (name_tracks h (.refl origin) hm) fun name hm => ?_
    exact unary_tracks (.refl origin) rfl hm
  | throwAfterResume => exact throwAfterResume_tracks hm
  | resumeValue => exact .pure hm (.next ⟨rfl, rfl, rfl⟩ rfl)
  | nop => exact .pure hm (.next (.refl origin) rfl)
  | _ => cases hp

end

end Action

end Ecma
