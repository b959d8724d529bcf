/-
The steps of code making keep emitters abreast: instructions, labels, registers, constants and
protected ranges.
-/
import Ecma.Proofs.Options.CodeMaking

namespace Ecma.Compile

open Code (Instruction Operand Constant Op Label InStep)

/-- A place that is reached with so many operands. -/
def up (height : Nat) : Option Shape := some ⟨height, .any⟩

/-! ## Constants -/

theorem getElem?_addName (draft : Code.Draft) (name : String) :
    (draft.addName name).2.constants[(draft.addName name).1]? = some (.string name) := by
  unfold Code.Draft.addName
  split
  · next index hf =>
    obtain ⟨hlt, hp, -⟩ := Array.findIdx?_eq_some_iff_getElem.mp hf
    rw [Array.getElem?_eq_getElem hlt]
    cases hc : draft.constants[index] with
    | number v =>
      rw [hc] at hp
      cases hp
    | string other =>
      rw [hc] at hp
      rw [eq_of_beq hp]
  · simp [Code.Draft.pushConstant]

/-- A change of a draft that gives the index of a constant. -/
structure Enters (constant : Constant) (f : Code.Draft → Nat × Code.Draft) : Prop where
  found : ∀ draft, (f draft).2.constants[(f draft).1]? = some constant
  still : ∀ em : Emitter, em.Still { em with draft := (f em.draft).2 }
  stores : ∀ em : Emitter, em.Stores { em with draft := (f em.draft).2 }

theorem Enters.pushConstant (constant : Constant) :
    Enters constant fun draft => draft.pushConstant constant where
  found draft := by simp [Code.Draft.pushConstant]
  still em := by
    refine ⟨rfl, rfl, rfl, rfl, rfl, rfl, ?_, Nat.le_refl _⟩
    simp [Code.Draft.pushConstant]
  stores em := ⟨rfl, rfl, rfl, rfl⟩

theorem Enters.addName (text : String) : Enters (.string text) fun draft => draft.addName text where
  found draft := getElem?_addName draft text
  still em := by
    unfold Code.Draft.addName
    split
    · exact .refl em
    · exact (Enters.pushConstant (.string text)).still em
  stores em := by
    unfold Code.Draft.addName
    split <;> exact ⟨rfl, rfl, rfl, rfl⟩

variable {α β : Type} {opts : Choices} {ctx : Context} {hulls : List Hull}
  {es : List Exit} {fs fs' : List Fact} {here here' : Option Shape} {height : Nat}
  {scene : Scene} {shape : Shape}

namespace Pace

/-- Both emitters find the index of a constant. -/
theorem constant {v f} (hf : Enters v f) : Pace opts ctx hulls [] fs here (onDraft f) (onDraft f)
      fun a b fs' here' => fs' = .constant a b v :: fs ∧ here' = here := by
  intro cs one other hh hs
  obtain ⟨ledger, ha⟩ := hs.abreast
  refine .ok ⟨_, _, cs, ⟨rfl, rfl⟩, .refl cs, ⟨⟨ledger, ?_⟩, hs.one, hs.other⟩⟩
  refine (ha.still (hf.still one) (hf.still other) (.refl here) ?_).note rfl
    ⟨hf.found one.draft, hf.found other.draft⟩
  refine ha.stored.stores (.refl ledger) (hf.stores one) (hf.stores other) ?_
  rw [(hf.still one).resume, (hf.still other).resume]
  exact ha.stored.resume

theorem withConstant {v : Constant} {f : Code.Draft → Nat × Code.Draft} (hf : Enters v f)
    {k : Nat → Emit α} {j : Nat → Emit β} {after : After α β}
    (hk : ∀ a b, Pace opts ctx hulls es (.constant a b v :: fs) here (k a) (j b) after) :
    Pace opts ctx hulls es fs here (onDraft f >>= k) (onDraft f >>= j) after := by
  refine (constant hf).bind ?_
  rintro a b _ _ ⟨rfl, rfl⟩
  exact hk a b

/-! ## Registers -/

theorem newRegister : Pace opts ctx hulls [] fs here newRegister newRegister
    (Gives (fun _ => True) fs here) := by
  intro cs one other hh hs
  obtain ⟨ledger, ha⟩ := hs.abreast
  have hr : one.draft.registers = other.draft.registers := ha.stored.registers
  refine .ok ⟨fs, here, cs, ⟨hr.symm, trivial, rfl, rfl⟩, .refl cs,
    ⟨⟨ledger, ha.still ⟨rfl, rfl, rfl, rfl, rfl, rfl, List.prefix_rfl, Nat.le_refl _⟩
      ⟨rfl, rfl, rfl, rfl, rfl, rfl, List.prefix_rfl, Nat.le_refl _⟩ (.refl here) ?_⟩, hs.one, hs.other⟩⟩
  exact ⟨ha.stored.handlers, ha.stored.functions, congrArg (· + 1) hr, ha.stored.returnRegister,
    ha.stored.resume⟩

theorem returnRegister_eq (ctx : Context) (em : Emitter) :
    Compile.returnRegister ctx em =
      match em.returnRegister with
      | some reg => .ok (reg, em)
      | none => .ok (em.draft.registers,
          { em with draft := em.draft.addRegister.2,
                         returnRegister := some em.draft.registers }) := by
  change (match em.returnRegister with
    | some reg => (Pure.pure reg : Emit Nat)
    | none => do
      let reg ← Compile.newRegister
      modify fun em : Emitter => { em with returnRegister := some reg }
      return reg) ctx em = _
  cases em.returnRegister <;> rfl

theorem returnRegister : Pace opts ctx hulls [] fs here returnRegister returnRegister
    (Gives (fun _ => True) fs here) := by
  intro cs one other hh hs
  obtain ⟨ledger, ha⟩ := hs.abreast
  have hr : one.draft.registers = other.draft.registers := ha.stored.registers
  have hreturn : one.returnRegister = other.returnRegister := ha.stored.returnRegister
  rw [returnRegister_eq, returnRegister_eq, ← hreturn]
  cases one.returnRegister with
  | some reg =>
    exact .ok ⟨fs, here, cs, ⟨rfl, trivial, rfl, rfl⟩, .refl cs, hs⟩
  | none =>
    refine .ok ⟨fs, here, cs, ⟨hr.symm, trivial, rfl, rfl⟩, .refl cs,
      ⟨⟨ledger, ha.still ⟨rfl, rfl, rfl, rfl, rfl, rfl, List.prefix_rfl, Nat.le_refl _⟩
        ⟨rfl, rfl, rfl, rfl, rfl, rfl, List.prefix_rfl, Nat.le_refl _⟩ (.refl here) ?_⟩, hs.one,
        hs.other⟩⟩
    exact ⟨ha.stored.handlers, ha.stored.functions, congrArg (· + 1) hr, congrArg some hr,
      ha.stored.resume⟩

/-! ## Positions and labels -/

theorem position : Pace opts ctx hulls [] fs here position position
    fun a b fs' here' => fs' = .seam a b :: fs ∧ here' = here := by
  intro cs one other hh hs
  obtain ⟨ledger, ha⟩ := hs.abreast
  exact .ok ⟨_, _, cs, ⟨rfl, rfl⟩, .refl cs,
    ⟨⟨ledger, ha.note rfl ha.course.current⟩, hs.one, hs.other⟩⟩

theorem newLabel : Pace opts ctx hulls [] fs here newLabel newLabel
    fun l m fs' here' => fs' = .label l m none :: fs ∧ here' = here := by
  intro cs one other hh hs
  obtain ⟨ledger, ha⟩ := hs.abreast
  exact .ok ⟨_, _, cs, ⟨rfl, rfl⟩, .refl cs, ⟨⟨ledger, ha.label⟩, hs.one, hs.other⟩⟩

theorem withLabel {k j : Label → Emit α} {after : After α α}
    (hk : ∀ l m, Pace opts ctx hulls es (.label l m none :: fs) here (k l) (j m) after) :
    Pace opts ctx hulls es fs here (Compile.newLabel >>= k) (Compile.newLabel >>= j)
      after := by
  refine newLabel.bind ?_
  rintro l m _ _ ⟨rfl, rfl⟩
  exact hk l m

theorem withPosition {k j : Nat → Emit α} {after : After α α}
    (hk : ∀ p q, Pace opts ctx hulls es (.seam p q :: fs) here (k p) (j q) after) :
    Pace opts ctx hulls es fs here (Compile.position >>= k) (Compile.position >>= j)
      after := by
  refine position.bind ?_
  rintro p q _ _ ⟨rfl, rfl⟩
  exact hk p q

/-- A label gets its place where code arrives as those expect that aim at it. -/
theorem place {l m aimed} (before after : List Fact)
    (ha : ∀ height, aimed = some height → here = up height) :
    Pace opts ctx hulls [] (before ++ .label l m aimed :: after) here (place l) (place m)
      (Then (before ++ after) here) := by
  refine retain (.of_perm List.perm_middle.symm) ?_
  intro cs one other hh hs
  obtain ⟨ledger, hab⟩ := hs.abreast
  obtain ⟨later, hab, -, -⟩ := hab.placing ha
  exact .ok ⟨_, _, cs, ⟨rfl, rfl⟩, .refl cs, ⟨⟨later, hab⟩, hs.one, hs.other⟩⟩

/-- A label gets its place, and code that follows may aim at it. -/
theorem placeAim {l m aimed} (before after : List Fact)
    (ha : ∀ found, aimed = some found → found = height) :
    Pace opts ctx hulls [] (before ++ .label l m aimed :: after) (up height)
      (Compile.place l) (Compile.place m)
      (Then (.aim l m height :: (before ++ after)) (up height)) := by
  refine retain (.of_perm List.perm_middle.symm) ?_
  intro cs one other hh hs
  obtain ⟨ledger, hab⟩ := hs.abreast
  obtain ⟨later, hab, ht, -⟩ := hab.placing fun found h => by rw [ha found h]; rfl
  exact .ok ⟨_, _, cs, ⟨rfl, rfl⟩, .refl cs,
    ⟨⟨later, hab.note rfl (ht height rfl)⟩, hs.one, hs.other⟩⟩

/-! ## Instructions -/

theorem emit {more i j} (ha : Aims fs fs' more)
    (hi : ∀ ledger one other, (∀ fact ∈ fs, fact.Holds ⟨ledger, some shape, one, other⟩) →
      Instruction.Alike (emitting ledger more here' one other) shape i j) :
    Pace opts ctx hulls [] fs (some shape) (changeDraft fun draft => draft.emit i)
      (changeDraft fun draft => draft.emit j) (Then fs' here') := by
  intro cs one other hh hs
  obtain ⟨ledger, hab⟩ := hs.abreast
  obtain ⟨later, hab⟩ := hab.emit (ha.append_right _)
    (hi ledger one other fun fact hf => hab.holds fact (List.mem_append_left _ hf))
  exact .ok ⟨_, _, cs, ⟨rfl, rfl⟩, .refl cs, ⟨⟨later, hab⟩, hs.one, hs.other⟩⟩

/-- A place that is reached falls through to what is known next. -/
theorem falls {ledger more one other next}
    : (emitting ledger more (some next) one other).falls next :=
  ⟨next, rfl, .refl next⟩

theorem opWith {o operand} (hp : o.isPlain = true) (ho : operand.isAbsolute = true) {height'}
    (hh : Instruction.after ⟨o, some operand⟩ height = height') :
    Pace opts ctx hulls [] fs (some ⟨height, scene⟩) (opWith o operand)
      (Compile.opWith o operand) (Then fs (up height')) :=
  emit (.nothing fs) fun _ _ _ _ => .plain hp (.absolute ho) (hh ▸ falls)

theorem op {o} (hp : o.isPlain = true) {height'} (hh : Instruction.after ⟨o, none⟩ height = height') :
    Pace opts ctx hulls [] fs (some ⟨height, scene⟩) (op o) (Compile.op o)
      (Then fs (up height')) :=
  emit (.nothing fs) fun _ _ _ _ => .plain hp .none (hh ▸ falls)

theorem opRegister {o reg} (hp : o.isPlain = true) {height'}
    (hh : Instruction.after ⟨o, some (.register reg)⟩ height = height') :
    Pace opts ctx hulls [] fs (some ⟨height, scene⟩) (opRegister o reg)
      (Compile.opRegister o reg) (Then fs (up height')) :=
  opWith hp rfl hh

theorem opConstant {v : Constant} {f : Code.Draft → Nat × Code.Draft} (hf : Enters v f)
    {o : Op} {build : Nat → Operand} (hi : ∀ (around : Surroundings) a b, around.share a b v →
      (∀ next, here' = some next → around.falls next) →
      Instruction.Alike around shape ⟨o, some (build a)⟩ ⟨o, some (build b)⟩) :
    Pace opts ctx hulls [] fs (some shape) (do Compile.opWith o (build (← onDraft f)))
      (do Compile.opWith o (build (← onDraft f))) (Then fs here') := by
  refine bind (constant hf) ?_
  rintro a b _ _ ⟨rfl, rfl⟩
  have he : Pace opts ctx hulls [] (.constant a b v :: fs) (some shape)
      (Compile.opWith o (build a)) (Compile.opWith o (build b))
      (Then (.constant a b v :: fs) here') := by
    refine emit (.nothing _) fun ledger one other hfacts => hi _ a b
      (hfacts (.constant a b v) (.head _)) ?_
    rintro next rfl
    exact falls
  exact he.forget (.drop (fun _ _ _ => Fact.noConfusion) fs)

theorem opName {o : Op} {name} (hp : o.isPlain = true) {height'}
    (hh : ∀ index, Instruction.after ⟨o, some (.name index)⟩ height = height') :
    Pace opts ctx hulls [] fs (some ⟨height, scene⟩) (opName o name) (Compile.opName o name)
      (Then fs (up height')) :=
  opConstant (.addName name) fun _ a _ hs hn => .plain hp (.name hs) (hh a ▸ hn _ rfl)

theorem opBinding {o : Op} {name flag} (hp : o.isPlain = true) {height'}
    (hh : ∀ index, Instruction.after ⟨o, some (.binding index flag)⟩ height = height') :
    Pace opts ctx hulls [] fs (some ⟨height, scene⟩) (opBinding o name flag)
      (Compile.opBinding o name flag) (Then fs (up height')) :=
  opConstant (.addName name) fun _ a _ hs hn => .plain hp (.binding hs) (hh a ▸ hn _ rfl)

theorem pushNumber {v : Float} : Pace opts ctx hulls [] fs (some ⟨height, scene⟩)
    (pushNumber v) (Compile.pushNumber v) (Then fs (up (height + 1))) :=
  opConstant (.pushConstant (.number v)) fun _ _ _ hs hn => .plain rfl (.constant hs) (hn _ rfl)

theorem pushString {v : String} : Pace opts ctx hulls [] fs (some ⟨height, scene⟩)
    (pushString v) (Compile.pushString v) (Then fs (up (height + 1))) :=
  opConstant (.addName v) fun _ _ _ hs hn => .plain rfl (.constant hs) (hn _ rfl)

/-! ### Instructions that never go on -/

theorem leave {o} (hl : o.leaves = true) :
    Pace opts ctx hulls [] fs (some shape) (Compile.op o) (Compile.op o) (Then fs none) :=
  emit (.nothing fs) fun _ _ _ _ => .leave hl .none

theorem leaveWith {o operand} (hl : o.leaves = true) (ho : operand.isAbsolute = true) :
    Pace opts ctx hulls [] fs (some shape) (Compile.opWith o operand)
      (Compile.opWith o operand) (Then fs none) :=
  emit (.nothing fs) fun _ _ _ _ => .leave hl (.absolute ho)

theorem throwNewError {kind : ErrorKind} {message : String} :
    Pace opts ctx hulls [] fs (some shape) (throwNewError kind message)
      (Compile.throwNewError kind message) (Then fs none) :=
  opConstant (.addName message) fun _ _ _ hs _ => .leave rfl (.error hs)

/-! ### Jumps -/

/-- Labels that may be aimed at, and the facts once that was done. -/
inductive Target (l m : Label) (height : Nat) : List Fact → List Fact → Prop
  | aim {known : List Fact} : Fact.aim l m height ∈ known → Target l m height known known
  | label {aimed} (before after : List Fact) : aimed = none ∨ aimed = some height →
    Target l m height (before ++ .label l m aimed :: after)
      (before ++ .label l m (some height) :: after)

theorem Target.aims {l m} (h : Target l m height fs fs') :
    ∃ more, Aims fs fs' more ∧ ∀ stage : Stage, (∀ fact ∈ fs, fact.Holds stage) →
      stage.ledger.target l m ⟨height, .any⟩ ∨ more l m ⟨height, .any⟩ := by
  cases h with
  | aim h => exact ⟨_, .nothing fs, fun _ hf => .inl (hf _ h)⟩
  | label before after ha => exact ⟨_, .label ha before after, fun _ _ => .inr ⟨rfl, rfl, rfl⟩⟩

section

variable {l m : Label}

theorem jump (h : Target l m height fs fs') :
    Pace opts ctx hulls [] fs (some ⟨height, scene⟩) (jump .jump l)
      (Compile.jump .jump m) (Then fs' none) := by
  obtain ⟨more, ha, hg⟩ := h.aims
  exact emit ha fun _ _ _ hf => .jump ⟨l, m, rfl, rfl, hg _ hf⟩

theorem branch {o} (hb : o.branches = true) (h : Target l m height fs fs') :
    Pace opts ctx hulls [] fs (some ⟨height + 1, scene⟩) (Compile.jump o l)
      (Compile.jump o m) (Then fs' (up height)) := by
  obtain ⟨more, ha, hg⟩ := h.aims
  exact emit ha fun _ _ _ hf => .branch hb ⟨l, m, rfl, rfl, hg _ hf⟩ falls

theorem branchOnResumption {o} (hb : o.branchesOnResumption = true)
    (h : Target l m height fs fs') :
    Pace opts ctx hulls [] fs (some ⟨height, scene⟩) (Compile.jump o l)
      (Compile.jump o m) (Then fs' (up height)) := by
  obtain ⟨more, ha, hg⟩ := h.aims
  exact emit ha fun _ _ _ hf => .resumed hb ⟨l, m, rfl, rfl, hg _ hf⟩ falls

theorem returnAfterResume (h : Target l m (height + 1) fs fs') :
    Pace opts ctx hulls [] fs (some ⟨height, scene⟩)
      (Compile.jump .returnAfterResume l) (Compile.jump .returnAfterResume m)
      (Then fs' (up height)) := by
  obtain ⟨more, ha, hg⟩ := h.aims
  exact emit ha fun _ _ _ hf => .finish ⟨l, m, rfl, rfl, hg _ hf⟩ falls

end

/-! ### Records and suspensions -/

theorem clearStack : Pace opts ctx hulls [] fs (some shape) (Compile.op .clearStack)
    (Compile.op .clearStack) (Then fs (up 0)) :=
  emit (.nothing fs) fun _ _ _ _ => .clear falls

theorem pushBlockEnv : Pace opts ctx hulls [] fs (some ⟨height, scene⟩)
    (Compile.op .pushBlockEnv) (Compile.op .pushBlockEnv) (Then fs (some ⟨height, .cells 0⟩)) :=
  emit (.nothing fs) fun _ _ _ _ => .enter falls

/-- A binding is added to a record of known size. -/
theorem opBinds {o : Op} {name flag count} (hb : o.binds = true) :
    Pace opts ctx hulls [] fs (some ⟨height, .cells count⟩)
      (Compile.opBinding o name flag) (Compile.opBinding o name flag)
      (Then fs (some ⟨height, .cells (count + 1)⟩)) :=
  opConstant (.addName name) fun _ _ _ hs hn => .bind hb hs rfl (hn _ rfl)

theorem suspend (hk : ctx.kind.isResumable = true) :
    Pace opts ctx hulls [] fs (up (height + 1)) suspend suspend (Then fs (up height)) := by
  intro cs one other hh hs
  obtain ⟨ledger, hab⟩ := hs.abreast
  obtain ⟨later, hab⟩ := hab.label.suspending hk
  obtain ⟨later, hab, -, -⟩ := (hab.ease (.none (up height))).placing fun _ h => by
    cases h
    rfl
  exact .ok ⟨fs, _, cs, ⟨rfl, rfl⟩, .refl cs, ⟨⟨later, hab⟩, hs.one, hs.other⟩⟩

/-! ### Functions -/

theorem addFunction {template template'} (ht : InStep opts.room template template') :
    Pace opts ctx hulls [] fs here (onDraft fun draft => draft.addFunction template)
      (onDraft fun draft => draft.addFunction template') (Gives (fun _ => True) fs here) := by
  intro cs one other hh hs
  obtain ⟨ledger, hab⟩ := hs.abreast
  have hf : List.Forall₂ (InStep opts.room) one.draft.functions.toList
    other.draft.functions.toList := hab.stored.functions
  have hsize : one.draft.functions.size = other.draft.functions.size := by simpa using hf.length_eq
  refine .ok ⟨fs, here, cs, ⟨hsize.symm, trivial, rfl, rfl⟩, .refl cs,
    ⟨⟨ledger, hab.still ⟨rfl, rfl, rfl, rfl, rfl, rfl, List.prefix_rfl, ?_⟩
      ⟨rfl, rfl, rfl, rfl, rfl, rfl, List.prefix_rfl, ?_⟩ (.refl here)
      ⟨hab.stored.handlers, ?_, hab.stored.registers, hab.stored.returnRegister,
        hab.stored.resume⟩⟩, hs.one, hs.other⟩⟩
  · simp
  · simp
  · simpa [Code.Draft.addFunction] using List.rel_append hf (.cons ht .nil)

theorem pushClosure {template template'} (ht : InStep opts.room template template') :
    Pace opts ctx hulls [] fs (some ⟨height, scene⟩) (pushClosure template)
      (Compile.pushClosure template') (Then fs (some ⟨height + 1, scene⟩)) :=
  with_ (addFunction ht) fun _ _ =>
    emit (.nothing fs) fun _ _ _ _ => .function falls

/-! ## Protected ranges -/

/-- Both emitters protect a range by a handler that does not take control. -/
theorem addHandler {start start' stop stop' l m kind} (hk : kind.entryHeight? = none)
    (hstart : Fact.seam start start' ∈ fs) (hstop : Fact.seam stop stop' ∈ fs) :
    Pace opts ctx hulls [] fs here (addHandler start stop l kind)
      (Compile.addHandler start' stop' m kind) (Then fs here) := by
  intro cs one other hh hs
  obtain ⟨ledger, hab⟩ := hs.abreast
  have hfact := fun fact hf => hab.holds fact (List.mem_append_left _ hf)
  refine .ok ⟨fs, here, cs, ⟨rfl, rfl⟩, .refl cs, ⟨⟨ledger, hab.handling
    ⟨hfact _ hstart, hfact _ hstop, rfl, fun height hh => ?_⟩⟩, hs.one, hs.other⟩⟩
  rw [hk] at hh
  cases hh

/-- Both emitters protect a range by a handler that takes control at a label. -/
theorem addTaking {start start' stop stop' l m kind} (hk : kind.entryHeight? = some height)
    (ht : Target l m height fs fs') (hstart : Fact.seam start start' ∈ fs)
    (hstop : Fact.seam stop stop' ∈ fs) :
    Pace opts ctx hulls [] fs here (Compile.addHandler start stop l kind)
      (Compile.addHandler start' stop' m kind) (Then fs' here) := by
  intro cs one other hh hs
  obtain ⟨ledger, hab⟩ := hs.abreast
  have hfact := fun fact hf => hab.holds fact (List.mem_append_left _ hf)
  obtain ⟨more, ha, hg⟩ := ht.aims
  refine .ok ⟨fs', here, cs, ⟨rfl, rfl⟩, .refl cs, ⟨⟨ledger.aiming more,
    (hab.aim (ha.append_right _)).handling ⟨hfact _ hstart, hfact _ hstop, rfl, fun found hh => ?_⟩⟩,
    hs.one, hs.other⟩⟩
  cases hk.symm.trans hh
  exact hg _ hfact

end Pace

end Ecma.Compile
