/-
The forms of expressions keep emitters abreast if their parts do: each leaves its operands on top
of what was there.
-/
import Ecma.Proofs.Options.Steps

namespace Ecma.Compile

open Code (Instruction)

/-! ## Kinds of code -/

/-- What two expressions leave behind, with what is known of it and the operands that it has on
the stack. -/
inductive Left : Emitted → Emitted → List Fact → Nat → Prop
  | value {type} : Left (.value type) (.value type) [] 1
  | binding {name resolved} : Left (.binding name resolved) (.binding name resolved) [] 0
  | property {a b text} : Left (.property a) (.property b) [.constant a b (.string text)] 1
  | element : Left .element .element [] 2

/-- Code for an expression, at one pace. -/
def PacedExpr (opts : Choices) (x : Emit Emitted) : Prop :=
  ∀ ctx hulls, ∃ es, ∀ fs height, Pace opts ctx hulls es fs (up height) x x
    fun a b fs' here' => ∃ known operands, Left a b known operands ∧ fs' = known ++ fs ∧
      here' = up (height + operands)

/-- Something of an expression is left behind. -/
def LeftBehind (fs : List Fact) (height : Nat) : After Emitted Emitted :=
  fun a b fs' here' => ∃ known operands, Left a b known operands ∧ fs' = known ++ fs ∧
    here' = up (height + operands)

/-- Code for a value, at one pace. -/
def PacedValue (opts : Choices) (x : Emit ValueType) : Prop :=
  ∀ ctx hulls, ∃ es, ∀ fs height, Pace opts ctx hulls es fs (up height) x x
    (Gives (fun _ => True) fs (up (height + 1)))

/-- Code that replaces operands by others, at one pace. -/
def PacedCode (opts : Choices) (x : Emit Unit) (takes gives : Nat) : Prop :=
  ∀ ctx hulls, ∃ es, ∀ fs height, Pace opts ctx hulls es fs
    (up (height + takes)) x x (Then fs (up (height + gives)))

/-- Code that makes no exits and replaces operands by others. -/
def PacedPlain (opts : Choices) (x : Emit Unit) (takes gives : Nat) : Prop :=
  ∀ {ctx hulls fs height}, Pace opts ctx hulls [] fs (up (height + takes)) x x
    (Then fs (up (height + gives)))

theorem PacedPlain.code {opts x takes gives} (h : PacedPlain opts x takes gives)
    : PacedCode opts x takes gives :=
  fun _ _ => ⟨[], fun _ _ => h⟩

/-- Plain code, and code after it. -/
theorem PacedCode.after_plain {opts x y takes gives last} (hx : PacedPlain opts x takes gives)
    (hy : PacedCode opts y gives last) : PacedCode opts (do x; y) takes last := by
  intro ctx hulls
  obtain ⟨es, h⟩ := hy ctx hulls
  exact ⟨es, fun fs height => .step hx fun _ _ => h fs height⟩

variable {opts : Choices} {ctx : Context} {hulls : List Hull} {fs fs' : List Fact}
  {here here' : Option Shape}

namespace Pace

theorem resolve {name} : Pace opts ctx hulls [] fs here (resolve name) (Compile.resolve name)
    (Gives (fun found => found = opts.scopes.resolve ctx.scope name) fs here) :=
  read (pure ⟨rfl, rfl, rfl, rfl⟩)

theorem scopeAt {id} : Pace opts ctx hulls [] fs here (scopeAt id)
    (Compile.scopeAt id) (Gives (fun found => found = opts.scopes.scope id) fs here) :=
  read (pure ⟨rfl, rfl, rfl, rfl⟩)

theorem scopeOf {opened} : Pace opts ctx hulls [] fs here
    (scopeOf opened) (Compile.scopeOf opened)
    (Gives (fun found => opened = some found) fs here) := by
  cases opened with
  | none => exact throw rfl
  | some scope => exact pure ⟨rfl, rfl, rfl, rfl⟩

end Pace

/-! ## One piece after another -/

section

variable {x : Emit ValueType} {height : Nat}

theorem Pace.value {type : ValueType} : Pace opts ctx hulls [] fs (up (height + 1))
    (Pure.pure (Emitted.value type)) (Pure.pure (Emitted.value type)) (LeftBehind fs height) :=
  .pure ⟨_, _, .value, rfl, rfl⟩

/-- A value, and what is done with it. -/
theorem PacedValue.then_ {k takes gives} (h : PacedValue opts x)
    (hk : ∀ type, PacedPlain opts (k type) (takes + 1) gives) :
    PacedCode opts (x >>= k) takes gives := by
  intro ctx hulls
  obtain ⟨es, h⟩ := h ctx hulls
  exact ⟨es ++ [], fun fs height => (h fs (height + takes)).with_ fun type _ => hk type⟩

theorem PacedValue.seq {code takes gives} (h : PacedValue opts x)
    (hc : PacedCode opts code (takes + 1) gives) :
    PacedCode opts (x >>= fun _ => code) takes gives := by
  intro ctx hulls
  obtain ⟨es, h⟩ := h ctx hulls
  obtain ⟨es', hc⟩ := hc ctx hulls
  exact ⟨es ++ es', fun fs height =>
    (h fs (height + takes)).with_ fun _ _ => hc fs height⟩

theorem PacedValue.expr {k} (h : PacedValue opts x)
    (hk : ∀ {ctx hulls fs height} type, Pace opts ctx hulls [] fs
      (up (height + 1)) (k type) (k type) (LeftBehind fs height)) :
    PacedExpr opts (x >>= k) := by
  intro ctx hulls
  obtain ⟨es, h⟩ := h ctx hulls
  exact ⟨es ++ [], fun fs height => (h fs height).with_ fun type _ => hk type⟩

theorem PacedValue.both {y : Emit ValueType} {k : ValueType → ValueType → Emit Emitted}
    (hx : PacedValue opts x) (hy : PacedValue opts y)
    (hk : ∀ {ctx hulls fs height} a b, Pace opts ctx hulls [] fs
      (up (height + 2)) (k a b) (k a b) (LeftBehind fs height)) :
    PacedExpr opts (do k (← x) (← y)) := by
  intro ctx hulls
  obtain ⟨es, hx⟩ := hx ctx hulls
  obtain ⟨es', hy⟩ := hy ctx hulls
  exact ⟨es ++ (es' ++ []), fun fs height => (hx fs height).with_ fun a _ =>
    (hy fs (height + 1)).with_ fun b _ => hk a b⟩

end

/-- Code on top of operands that it does not touch, and what comes after it. -/
theorem PacedCode.over {x y takes gives last} (below : Nat) (hx : PacedCode opts x takes gives)
    (hy : PacedPlain opts y (below + gives) last) :
    PacedCode opts (do x; y) (below + takes) last := by
  intro ctx hulls
  obtain ⟨es, h⟩ := hx ctx hulls
  refine ⟨es ++ [], fun fs height => ?_⟩
  rw [← Nat.add_assoc]
  refine .andThen (h fs (height + below)) fun _ _ => ?_
  rw [Nat.add_assoc]
  exact hy

/-! ## Variables -/

theorem load_paced (name : String) (resolved : Resolved) :
    PacedPlain opts (load name resolved) 0 1 := by
  intro ctx hulls fs height
  unfold load
  split
  · split <;> exact .opWith rfl rfl rfl
  · exact .opName rfl fun _ => rfl
  · exact .opName rfl fun _ => rfl
  · exact .opName rfl fun _ => rfl

theorem store_paced (name : String) (resolved : Resolved) :
    PacedPlain opts (store name resolved) 1 0 := by
  intro ctx hulls fs height
  unfold store
  split
  · exact .opWith rfl rfl rfl
  · exact .read (.opBinding rfl fun _ => rfl)
  · exact .read (.opBinding rfl fun _ => rfl)
  · exact .read (.opBinding rfl fun _ => rfl)

theorem storeName_paced (name : String) : PacedPlain opts (storeName name) 1 0 :=
  fun {_ _ _ _} => .with_ .resolve fun _ _ => store_paced name _

theorem initializeName_paced (name : String) : PacedPlain opts (initializeName name) 1 0 := by
  intro ctx hulls fs height
  refine .with_ .resolve fun resolved _ => ?_
  split
  · exact .opWith rfl rfl rfl
  · exact .opName rfl fun _ => rfl
  · exact .throw rfl
  · exact .throw rfl

theorem typeOfName_paced (name : String) : PacedPlain opts (typeOfName name) 0 1 := by
  intro ctx hulls fs height
  refine .with_ .resolve fun resolved _ => ?_
  split
  · exact .andThen (load_paced name resolved) fun _ _ => .op rfl rfl
  · exact .opName rfl fun _ => rfl
  · exact .opName rfl fun _ => rfl
  · exact .opName rfl fun _ => rfl

theorem deleteName_paced (name : String) : PacedPlain opts (deleteName name) 0 1 := by
  intro ctx hulls fs height
  refine .with_ .resolve fun resolved _ => ?_
  split
  · exact .op rfl rfl
  · exact .opName rfl fun _ => rfl

theorem loadCallee_paced (name : String) : PacedPlain opts (loadCallee name) 0 2 := by
  intro ctx hulls fs height
  refine .with_ .resolve fun resolved _ => ?_
  split
  · exact .opName rfl fun _ => rfl
  · exact .opName rfl fun _ => rfl
  · exact .andThen (load_paced name resolved) fun _ _ => .op rfl rfl
  · exact .andThen (load_paced name resolved) fun _ _ => .op rfl rfl

/-! ## Values -/

theorem propertyOp_paced {o a b height height' text scene} (hp : o.isPlain = true)
    (hh : Instruction.after ⟨o, some (.name a)⟩ height = height') :
    Pace opts ctx hulls [] (.constant a b (.string text) :: fs) (some ⟨height, scene⟩)
      (opWith o (.name a)) (opWith o (.name b))
      (Then (.constant a b (.string text) :: fs) (up height')) :=
  .emit (.nothing _) fun _ _ _ hf =>
    .plain hp (.name (hf (.constant a b (.string text)) (.head _))) (hh ▸ Pace.falls)

theorem lastPropertyOp_paced {o a b height height' text scene} (hp : o.isPlain = true)
    (hh : Instruction.after ⟨o, some (.name a)⟩ height = height') :
    Pace opts ctx hulls [] (.constant a b (.string text) :: fs) (some ⟨height, scene⟩)
      (opWith o (.name a)) (opWith o (.name b)) (Then fs (up height')) :=
  (propertyOp_paced hp hh).forget (.drop (fun _ _ _ => Fact.noConfusion) fs)

theorem read?_paced {a b known operands height} (h : Left a b known operands)
    : Pace opts ctx hulls [] (known ++ fs) (up (height + operands)) (read? a) (read? b)
      (Gives (fun _ => True) fs (up (height + 1))) := by
  cases h with
  | value => exact .pure ⟨rfl, trivial, rfl, rfl⟩
  | binding => exact .andThen (load_paced _ _) fun _ _ => .pure ⟨rfl, trivial, rfl, rfl⟩
  | property => exact .step (lastPropertyOp_paced rfl rfl) fun _ _ => .pure ⟨rfl, trivial, rfl, rfl⟩
  | element => exact .step (.op rfl rfl) fun _ _ => .pure ⟨rfl, trivial, rfl, rfl⟩

theorem valueOf_paced {x} (h : PacedExpr opts x) : PacedValue opts (valueOf x) := by
  intro ctx hulls
  obtain ⟨es, h⟩ := h ctx hulls
  refine ⟨es ++ [], fun fs height => (h fs height).bind ?_⟩
  rintro a b _ _ ⟨known, operands, hl, rfl, rfl⟩
  exact read?_paced hl

theorem storedOf_paced {x} (h : PacedExpr opts x) : PacedValue opts (storedOf x) := by
  intro ctx hulls
  obtain ⟨es, h⟩ := valueOf_paced h ctx hulls
  exact ⟨_, fun fs height => (h fs height).with_ fun _ _ => .pure ⟨rfl, trivial, rfl, rfl⟩⟩

/-! ## Conversions -/

theorem convert_paced {p} [Decidable p] {o} (ho : o.isPlain = true)
    (hh : ∀ height, Instruction.after ⟨o, none⟩ (height + 1) = height + 1) :
    PacedPlain opts (if p then Pure.pure () else op o) 1 1 := by
  intro ctx hulls fs height
  split
  · exact .pure ⟨rfl, rfl⟩
  · exact .op ho (hh height)

theorem toBoolean_paced (type : ValueType) : PacedPlain opts (toBoolean type) 1 1 :=
  convert_paced rfl fun _ => rfl

theorem toNumber_paced (type : ValueType) : PacedPlain opts (toNumber type) 1 1 :=
  convert_paced rfl fun _ => rfl

theorem toPrimitive_paced (type : ValueType) : PacedPlain opts (toPrimitive type) 1 1 :=
  convert_paced rfl fun _ => rfl

theorem toText_paced (type : ValueType) : PacedPlain opts (toText type) 1 1 :=
  convert_paced rfl fun _ => rfl

theorem toPropertyKey_paced (type : ValueType) : PacedPlain opts (toPropertyKey type) 1 1 :=
  convert_paced rfl fun _ => rfl

/-! ## Properties -/

/-- A key whose code is at one pace. -/
def PacedKey (opts : Choices) : Key → Prop
  | .named _ => True
  | .computed key => PacedValue opts key

theorem pushKey_paced {key} (h : PacedValue opts key) : PacedCode opts (pushKey key) 0 1 :=
  h.then_ toPropertyKey_paced

/-- What stands for a property that is stored to. -/
inductive Over : Emitted → Emitted → List Fact → Nat → Prop
  | property {a b text} : Over (.property a) (.property b) [.constant a b (.string text)] 1
  | element : Over .element .element [] 2

/-- Code for a property that is stored to, at one pace. -/
def PacedMember (opts : Choices) (x : Emit Emitted) : Prop :=
  ∀ ctx hulls, ∃ es, ∀ fs height, Pace opts ctx hulls es fs (up height) x x
    fun a b fs' here' => ∃ known operands, Over a b known operands ∧ fs' = known ++ fs ∧
      here' = up (height + operands)

theorem memberOf_member {obj key} (ho : PacedValue opts obj) (hk : PacedKey opts key)
    : PacedMember opts (memberOf obj key) := by
  intro ctx hulls
  obtain ⟨es, ho⟩ := ho ctx hulls
  cases key with
  | named name =>
    refine ⟨es ++ [], fun fs height => ?_⟩
    refine .with_ (ho fs height) fun _ _ => ?_
    refine .withConstant (.addName name) fun _ _ => ?_
    exact .pure ⟨_, 1, .property, rfl, rfl⟩
  | computed key =>
    obtain ⟨es', hk⟩ := pushKey_paced hk ctx hulls
    refine ⟨es ++ (es' ++ []), fun fs height => ?_⟩
    refine .with_ (ho fs height) fun _ _ => ?_
    refine .andThen (hk fs (height + 1)) fun _ _ => ?_
    exact .pure ⟨_, 2, .element, rfl, rfl⟩

theorem PacedMember.expr {x} (h : PacedMember opts x) : PacedExpr opts x := by
  intro ctx hulls
  obtain ⟨es, h⟩ := h ctx hulls
  refine ⟨es, fun fs height => (h fs height).weaken ?_⟩
  rintro a b fs' here' ⟨known, operands, hover, hfacts, hhere⟩
  refine ⟨fs', here', .refl fs', .refl here', known, operands, ?_, hfacts, hhere⟩
  cases hover with
  | property => exact .property
  | element => exact .element

section

variable {obj : Emit ValueType} {key : Key} (ho : PacedValue opts obj) (hk : PacedKey opts key)

include ho hk

theorem deleteMember_paced : PacedCode opts (deleteMember obj key) 0 1 := by
  cases key with
  | named name => exact ho.then_ fun _ {_ _ _ _} => .opName rfl fun _ => rfl
  | computed key => exact ho.seq ((pushKey_paced hk).over 1 (.op rfl rfl))

theorem loadMethod_paced : PacedCode opts (loadMethod obj key) 0 2 := by
  cases key with
  | named name =>
    refine ho.then_ fun _ {_ _ _ height} => .step (.op rfl rfl) fun _ _ => ?_
    exact .step (.opName rfl fun _ => (rfl : _ = height + 2)) fun _ _ => .op rfl rfl
  | computed key =>
    refine ho.seq (.after_plain (.op rfl rfl) ((pushKey_paced hk).over 2 ?_))
    exact .step (.op rfl rfl) fun _ _ => .op rfl rfl

theorem storeMember_paced : PacedCode opts (storeMember obj key) 1 0 := by
  cases key with
  | named name =>
    refine ho.then_ fun _ {_ _ _ _} => .withConstant (.addName name) fun a b => ?_
    refine .step (.op rfl rfl) fun _ _ => ?_
    exact .step (lastPropertyOp_paced rfl rfl) fun _ _ => .op rfl rfl
  | computed key =>
    refine ho.seq ((pushKey_paced hk).over 2 fun {_ _ _ _} => .step (.op rfl rfl) fun _ _ => ?_)
    refine .step (.op rfl rfl) fun _ _ => .step (.op rfl rfl) fun _ _ => ?_
    exact .op rfl rfl

end

/-! ## Operators -/

theorem literal_paced (v : Syntax.Literal) : PacedExpr opts (literal v) := by
  intro ctx hulls
  refine ⟨[], fun fs height => ?_⟩
  unfold literal
  split
  · exact .step (.op rfl rfl) fun _ _ => .value
  · exact .step (.op rfl rfl) fun _ _ => .value
  · exact .step (.op rfl rfl) fun _ _ => .value
  · exact .step .pushNumber fun _ _ => .value
  · exact .step .pushString fun _ _ => .value

theorem substitution_paced {v} (h : PacedValue opts v) (quasi : Option String)
    : PacedCode opts (substitution v quasi) 1 1 := by
  intro ctx hulls
  obtain ⟨es, h⟩ := h ctx hulls
  refine ⟨es ++ [], fun fs height => ?_⟩
  refine .with_ (h fs (height + 1)) fun type _ => ?_
  refine .step (toText_paced type) fun _ _ => ?_
  refine .step (.op rfl rfl) fun _ _ => ?_
  split
  · split
    · exact .step .pushString fun _ _ => .op rfl rfl
    · exact .pure ⟨rfl, rfl⟩
  · exact .pure ⟨rfl, rfl⟩

section

variable {v : Emit ValueType} (h : PacedValue opts v)

include h

theorem insteadOf_paced {o} (ho : o.isPlain = true)
    (hh : ∀ height, Instruction.after ⟨o, none⟩ height = height + 1) (type : ValueType) :
    PacedExpr opts (insteadOf v o type) :=
  h.expr fun _ => .step (.op rfl rfl) fun _ _ => .step (.op ho (hh _)) fun _ _ => .value

theorem unaryOp_paced {o} (ho : o.isPlain = true)
    (hh : ∀ height, Instruction.after ⟨o, none⟩ (height + 1) = height + 1) (type : ValueType) :
    PacedExpr opts (unaryOp v o type) :=
  h.expr fun _ => .step (.op ho (hh _)) fun _ _ => .value

theorem unaryPlus_paced : PacedExpr opts (unaryPlus v) :=
  h.expr fun type => .step (toNumber_paced type) fun _ _ => .value

end

section

variable {left right : Emit ValueType} (hl : PacedValue opts left) (hr : PacedValue opts right)

include hl hr

theorem arithmetic_paced (operator : Number.Arithmetic) (rightIsLiteral : Bool) :
    PacedExpr opts (arithmetic operator left right rightIsLiteral) := by
  intro ctx hulls
  obtain ⟨es, hl⟩ := hl ctx hulls
  obtain ⟨es', hr⟩ := hr ctx hulls
  refine ⟨es ++ (es' ++ []), fun fs height => ?_⟩
  refine .with_ (hl fs height) fun type _ => ?_
  have hlast : ∀ type', Pace opts ctx hulls [] fs (up (height + 1 + 1))
      (do toNumber type'; op (.arithmetic operator); return .value (arithmeticType operator))
      (do toNumber type'; op (.arithmetic operator); return .value (arithmeticType operator))
      (LeftBehind fs height) := fun type' =>
    .step (toNumber_paced type') fun _ _ => .step (.op rfl rfl) fun _ _ =>
      .value
  by_cases hearly : (type.isPrimitive || rightIsLiteral) = true
  · simp only [hearly, if_true, Bool.not_true, Bool.false_eq_true, if_false]
    refine .step (toNumber_paced type) fun _ _ => ?_
    exact .with_ (hr fs (height + 1)) fun type' _ => hlast type'
  · simp only [hearly, Bool.false_eq_true, Bool.not_false, if_false, if_true]
    refine .with_ (hr fs (height + 1)) fun type' _ => ?_
    refine .step (.op rfl rfl) fun _ _ => ?_
    refine .step (.op rfl rfl) fun _ _ => ?_
    exact .step (.op rfl rfl) fun _ _ => hlast type'

theorem relation_paced (relation : Syntax.Relation) :
    PacedExpr opts (Compile.relation relation left right) :=
  hl.both hr fun _ _ => .step (.op rfl rfl) fun _ _ => .value

end

theorem primitiveText_paced {v : Emit ValueType} (h : PacedValue opts v) :
    PacedCode opts (primitiveText v) 0 1 :=
  h.then_ fun type {_ _ _ _} => .step (toPrimitive_paced type) fun _ _ => toText_paced type

section

variable {left right : Emit ValueType} (hl : PacedValue opts left) (hr : PacedValue opts right)

include hl hr

theorem addition_paced (leftText rightText : Option String) :
    PacedExpr opts (addition left right leftText rightText) := by
  intro ctx hulls
  obtain ⟨es, htl⟩ := primitiveText_paced hl ctx hulls
  obtain ⟨es', htr⟩ := primitiveText_paced hr ctx hulls
  unfold addition
  split
  · exact ⟨es' ++ [], fun fs height => .andThen (htr fs height) fun _ _ =>
      .value⟩
  · exact ⟨es ++ [], fun fs height => .andThen (htl fs height) fun _ _ =>
      .value⟩
  · refine ⟨es' ++ [], fun fs height => ?_⟩
    refine .step .pushString fun _ _ => ?_
    refine .andThen (htr fs (height + 1)) fun _ _ => ?_
    refine .step (.op rfl rfl) fun _ _ => ?_
    exact .value
  · refine ⟨es ++ [], fun fs height => ?_⟩
    refine .andThen (htl fs height) fun _ _ => ?_
    refine .step .pushString fun _ _ => ?_
    refine .step (.op rfl rfl) fun _ _ => ?_
    exact .value
  · exact hl.both hr (fun _ _ => .step (.op rfl rfl) fun _ _ => .value) ctx hulls

theorem logical_paced (operator : Syntax.LogicalOperator) :
    PacedExpr opts (logical operator left right) := by
  intro ctx hulls
  obtain ⟨es, hl⟩ := hl ctx hulls
  obtain ⟨es', hr⟩ := hr ctx hulls
  refine ⟨es ++ (es' ++ []), fun fs height => ?_⟩
  refine .with_ (hl fs height) fun type _ => ?_
  refine .withLabel fun l m => ?_
  refine .step (.op rfl rfl) fun _ _ => ?_
  have hlast : Pace opts ctx hulls (es' ++ []) (.label l m (some (height + 1)) :: fs)
      (up (height + 1))
      (do op .pop; let type' ← right; place l; return .value (type.join type'))
      (do op .pop; let type' ← right; place m; return .value (type.join type'))
      (LeftBehind fs height) := by
    refine .step (.op rfl rfl) fun _ _ => ?_
    refine .with_ (hr _ height) fun type' _ => ?_
    refine .step (.place [] fs fun _ h => by cases h; rfl) fun _ _ => ?_
    exact .value
  cases operator with
  | and | or =>
    refine .step (toBoolean_paced type) fun _ _ => ?_
    exact .step (.branch rfl (.label [] fs (.inl rfl))) fun _ _ => hlast
  | coalesce =>
    refine .step (.op rfl rfl) fun _ _ => ?_
    exact .step (.branch rfl (.label [] fs (.inl rfl))) fun _ _ => hlast

end

/-- A test leaves a boolean. -/
theorem condition_paced {test} (h : PacedValue opts test) : PacedCode opts (condition test) 0 1 :=
  h.then_ toBoolean_paced

theorem conditional_paced {test consequent alternate} (ht : PacedValue opts test)
    (hc : PacedValue opts consequent) (ha : PacedValue opts alternate) :
    PacedExpr opts (conditional test consequent alternate) := by
  intro ctx hulls
  obtain ⟨es₁, ht⟩ := condition_paced ht ctx hulls
  obtain ⟨es₂, hc⟩ := hc ctx hulls
  obtain ⟨es₃, ha⟩ := ha ctx hulls
  refine ⟨es₁ ++ (es₂ ++ (es₃ ++ [])), fun fs height => ?_⟩
  refine .andThen (ht fs height) fun _ _ => ?_
  refine .withLabel fun l m => .withLabel fun l' m' => ?_
  refine .step (.branch rfl (.label [.label l' m' none] fs (.inl rfl))) fun _ _ => ?_
  refine .with_ (hc _ height) fun _ _ => ?_
  refine .step (.jump (.label [] _ (.inl rfl))) fun _ _ => ?_
  refine .ease (.none (up height)) ?_
  refine .step (.place [_] fs fun _ h => by cases h; rfl) fun _ _ => ?_
  refine .with_ (ha _ height) fun _ _ => ?_
  refine .step (.place [] fs fun _ h => by cases h; rfl) fun _ _ => ?_
  exact .value

/-! ## Assignments -/

theorem compound_paced {operator} (ho : operator ≠ .plain) {height} :
    Pace opts ctx hulls [] fs (up (height + 2)) (compound operator) (compound operator)
      (Gives (fun _ => True) fs (up (height + 1))) := by
  cases operator with
  | plain => exact absurd rfl ho
  | add | arithmetic => exact .step (.op rfl rfl) fun _ _ => .pure ⟨rfl, trivial, rfl, rfl⟩

theorem assignName_paced (operator : Syntax.AssignOperator) (name : String) {v}
    (h : PacedValue opts v) : PacedExpr opts (assignName operator name v) := by
  intro ctx hulls
  obtain ⟨es, h⟩ := h ctx hulls
  refine ⟨es ++ [], fun fs height => ?_⟩
  refine .take .resolve fun resolved _ => ?_
  have hlast : ∀ type, Pace opts ctx hulls [] fs (up (height + 1))
      (do op .dup; store name resolved; return .value type)
      (do op .dup; store name resolved; return .value type)
      (LeftBehind fs height) := fun type =>
    .step (.op rfl rfl) fun _ _ => .step (store_paced name resolved) fun _ _ =>
      .value
  split
  · exact .with_ (h fs height) fun type _ => hlast type
  · rename_i ho
    refine .step (load_paced name resolved) fun _ _ => ?_
    refine .with_ (h fs (height + 1)) fun _ _ => ?_
    exact .take (compound_paced ho) fun type _ => hlast type

theorem loadOver_paced {a b known operands height} (h : Over a b known operands)
    : Pace opts ctx hulls [] (known ++ fs) (up (height + operands)) (loadOver a) (loadOver b)
      (Then (known ++ fs) (up (height + operands + 1))) := by
  cases h with
  | property => exact .step (.op rfl rfl) fun _ _ => propertyOp_paced rfl rfl
  | element => exact .step (.op rfl rfl) fun _ _ => .op rfl rfl

theorem storeOver_paced {a b known operands height} (h : Over a b known operands)
    : Pace opts ctx hulls [] (known ++ fs)
      (up (height + operands + 1)) (storeOver a) (storeOver b) (Then fs (up (height + 1))) := by
  cases h with
  | property => exact lastPropertyOp_paced rfl rfl
  | element => exact .op rfl rfl

theorem assignMember_paced (operator : Syntax.AssignOperator) {target v}
    (ht : PacedMember opts target) (hv : PacedValue opts v) :
    PacedExpr opts (assignMember operator target v) := by
  intro ctx hulls
  obtain ⟨es, ht⟩ := ht ctx hulls
  obtain ⟨es', hv⟩ := hv ctx hulls
  refine ⟨es ++ (es' ++ []), fun fs height => (ht fs height).bind ?_⟩
  rintro a b _ _ ⟨known, operands, hover, rfl, rfl⟩
  split
  · refine .with_ (hv _ _) fun _ _ => ?_
    refine .step (storeOver_paced hover) fun _ _ => ?_
    exact .value
  · rename_i ho
    refine .step (loadOver_paced hover) fun _ _ => ?_
    refine .with_ (hv _ _) fun _ _ => ?_
    refine .take (compound_paced ho) fun _ _ => ?_
    refine .step (storeOver_paced hover) fun _ _ => ?_
    exact .value

theorem stepOp_paced (operator : Syntax.UpdateOperator) :
    PacedPlain opts (op (stepOp operator)) 1 1 := by
  intro ctx hulls fs height
  cases operator <;> exact .op rfl rfl

theorem updateName_paced (operator : Syntax.UpdateOperator) (leading : Bool) (name : String) :
    PacedExpr opts (updateName operator leading name) := by
  intro ctx hulls
  refine ⟨[], fun fs height => ?_⟩
  refine .take .resolve fun resolved _ => ?_
  refine .step (load_paced name resolved) fun _ _ => ?_
  refine .step (.op rfl (rfl : _ = height + 1)) fun _ _ => ?_
  split
  · refine .step (stepOp_paced operator) fun _ _ => ?_
    refine .step (.op rfl rfl) fun _ _ => ?_
    refine .step (store_paced name resolved) fun _ _ => ?_
    exact .value
  · refine .step (.op rfl (rfl : _ = height + 1 + 1)) fun _ _ => ?_
    refine .step (stepOp_paced operator) fun _ _ => ?_
    refine .step (store_paced name resolved) fun _ _ => ?_
    exact .value

theorem updateMember_paced (operator : Syntax.UpdateOperator) (leading : Bool) {target}
    (ht : PacedMember opts target) : PacedExpr opts (updateMember operator leading target) := by
  intro ctx hulls
  obtain ⟨es, ht⟩ := ht ctx hulls
  refine ⟨es ++ [], fun fs height => (ht fs height).bind ?_⟩
  rintro a b _ _ ⟨known, operands, hover, rfl, rfl⟩
  refine .step (loadOver_paced hover) fun _ _ => ?_
  refine .step (.op rfl (rfl : _ = height + operands + 1)) fun _ _ => ?_
  cases leading with
  | true =>
    refine .step (stepOp_paced operator) fun _ _ => ?_
    refine .step (storeOver_paced hover) fun _ _ => ?_
    exact .value
  | false =>
    refine .step (.op rfl (rfl : _ = height + operands + 2)) fun _ _ => ?_
    refine .step (?keep : Pace _ _ _ _ _ _ _ _ (Then (known ++ fs)
      (up (height + 1 + operands + 1)))) fun _ _ => ?_
    case keep => cases hover <;> exact .op rfl rfl
    refine .step (stepOp_paced operator) fun _ _ => ?_
    refine .step (storeOver_paced hover) fun _ _ => ?_
    refine .step (.op rfl rfl) fun _ _ => ?_
    exact .value

end Ecma.Compile
