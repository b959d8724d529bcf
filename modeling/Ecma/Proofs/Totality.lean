/-
The forms of code, made as it is asked for. Most are made whatever their parts leave, as long as
their parts are. Only a few look at more: exits look for their target, declarations for their
slots, and suspensions for the kind of the function.
-/
import Ecma.Proofs.Opening

namespace Ecma.Compile

open Code

variable {α β : Type} {order : Order} {ctx : Context} {hulls : List Hull} {scope : ScopeId}
  {name : String} {type : ValueType} {owner : Syntax.Stmt (Option ScopeId)}

/-! ## Straight code -/

/-- An emitter with more straight code, and nothing else that control could look at. -/
structure Emitter.Straight (em later : Emitter) : Prop where
  instructions : ∃ added, later.draft.instructions.toList = em.draft.instructions.toList ++ added ∧
    ∀ instr ∈ added, instr.op.isStraight = true
  resume : later.draft.resume = em.draft.resume
  handlers : later.draft.handlers = em.draft.handlers
  control : later.control = em.control

theorem Emitter.Straight.trans {em mid later : Emitter} (h : em.Straight mid)
    (h' : mid.Straight later) : em.Straight later := by
  obtain ⟨added, he, hs⟩ := h.instructions
  obtain ⟨more, he', hs'⟩ := h'.instructions
  exact ⟨⟨added ++ more, by rw [he', he, List.append_assoc], List.forall_mem_append.mpr ⟨hs, hs'⟩⟩,
    h'.resume.trans h.resume, h'.handlers.trans h.handlers, h'.control.trans h.control⟩

/-- Code making that emits straight code only. -/
class Straight (ctx : Context) (code : Emit α) : Prop where
  straight : ∀ {em a later}, code ctx em = .ok (a, later) → em.Straight later

namespace Straight

theorem of_draft {em : Emitter} {draft : Draft} (hi : draft.instructions = em.draft.instructions)
    (hr : draft.resume = em.draft.resume) (hh : draft.handlers = em.draft.handlers) :
    em.Straight { em with draft } :=
  ⟨⟨[], by simp [hi], nofun⟩, hr, hh, rfl⟩

theorem of_same {code : Emit α} (h : ∀ {em a later}, code ctx em = .ok (a, later) → later = em) :
    Straight ctx code :=
  ⟨fun hc => h hc ▸ of_draft rfl rfl rfl⟩

instance pure {a : α} :
    Straight ctx (Pure.pure a : Emit α) := of_same fun h => (pure_ok.mp h).2.symm

instance throw {error : CompileError} : Straight ctx (throw error : Emit α) :=
  of_same fun h => (throw_ok.mp h).elim

theorem bind {x : Emit α} {f : α → Emit β} (hx : Straight ctx x) (hf : ∀ a, Straight ctx (f a)) :
    Straight ctx (x >>= f) := by
  refine ⟨fun h => ?_⟩
  obtain ⟨a, mid, hm, h⟩ := bind_ok.mp h
  exact (hx.straight hm).trans ((hf a).straight h)

instance (priority := low) seq {x : Emit α} {f : α → Emit β} [hx : Straight ctx x]
    [hf : ∀ a, Straight ctx (f a)] : Straight ctx (x >>= f) := hx.bind hf

instance choice {condition : Prop} [Decidable condition] {x y : Emit α} [Straight ctx x]
    [Straight ctx y] : Straight ctx (if condition then x else y) := by
  split <;> infer_instance

instance read : Straight ctx (MonadReader.read : Emit Context) := of_same fun h =>
    (read_ok.mp h).2.symm

theorem emit {em : Emitter} {instr} (h : instr.op.isStraight = true) :
    em.Straight (em.emit instr) :=
  ⟨⟨[instr], by simp [Emitter.emit, Draft.emit], List.forall_mem_singleton.mpr h⟩, rfl, rfl, rfl⟩

theorem opWith {o operand} (h : o.isStraight = true) : Straight ctx (opWith o operand) :=
  ⟨fun hc => opWith_ok.mp hc ▸ emit h⟩

theorem op {o : Op} (h : o.isStraight = true) : Straight ctx (op o) :=
  ⟨fun hc => op_ok.mp hc ▸ emit h⟩

instance addName {name} : Straight ctx (onDraft fun draft => draft.addName name) := by
  refine ⟨fun hc => ?_⟩
  obtain ⟨-, rfl⟩ := onDraft_ok.mp hc
  unfold Draft.addName Draft.pushConstant
  split <;> exact of_draft rfl rfl rfl

instance addFunction {template} :
    Straight ctx (onDraft fun draft => draft.addFunction template) := by
  refine ⟨fun hc => ?_⟩
  obtain ⟨-, rfl⟩ := onDraft_ok.mp hc
  exact of_draft rfl rfl rfl

theorem opBinding {o : Op} {name flag} (h : o.isStraight = true) :
    Straight ctx (opBinding o name flag) := addName.bind fun _ => opWith h

instance scopeAt {id : ScopeId} : Straight ctx (scopeAt id) :=
  of_same fun h => (scopeAt_ok.mp h).2.symm

theorem forIn {items : List β} {init : α} {f : β → α → Emit (ForInStep α)}
    (h : ∀ item ∈ items, ∀ a, Straight ctx (f item a)) : Straight ctx (forIn items init f) := by
  induction items generalizing init with
  | nil => exact pure
  | cons item rest ih =>
    rw [List.forIn_cons]
    refine (h item (.head _) init).bind fun step => ?_
    cases step with
    | done a => exact pure
    | yield a => exact ih fun item hm => h item (.tail _ hm)

theorem forM {items : List β} {f} (h : ∀ item ∈ items, Straight ctx (f item)) :
    Straight ctx (items.forM f) := by
  induction items with
  | nil => exact pure
  | cons item rest ih =>
    exact (h item (.head _)).bind fun _ =>
      ih fun item hm => h item (.tail _ hm)

instance createBindings {scope : ScopeId} : Straight ctx (createBindings scope) := by
  refine scopeAt.bind fun _ => forM fun binding _ => read.bind fun _ => ?_
  have hmutable := fun name flag => @opBinding ctx .createMutableBinding name flag rfl
  have himmutable := fun name flag => @opBinding ctx .createImmutableBinding name flag rfl
  split <;> infer_instance

instance initializeIn {scope : ScopeId} {name : String} :
    Straight ctx (initializeIn scope name) := by
  refine scopeAt.bind fun _ => ?_
  split
  · exact opWith rfl
  · exact throw

instance initializeVars {scope : ScopeId} : Straight ctx (initializeVars scope) := by
  refine scopeAt.bind fun scope => (forIn fun item _ _ => ?_).bind fun _ => pure
  obtain ⟨binding, slot⟩ := item
  have := @op ctx .pushUndefined rfl
  have : Straight ctx (initializeSlot slot) := opWith rfl
  dsimp only
  infer_instance

instance initializeParams {scope : ScopeId} {params : List String} :
    Straight ctx (initializeParams scope params) :=
  (forIn fun _ _ _ => (opWith rfl).bind fun _ => seq).bind fun _ => pure

instance initializeArguments {scope : ScopeId} : Straight ctx (initializeArguments scope) := by
  have := @op ctx .createArguments rfl
  unfold Compile.initializeArguments
  infer_instance

instance initializeCallee {scope : ScopeId} {name : Option String} :
    Straight ctx (initializeCallee scope name) := by
  have := @op ctx .loadCallee rfl
  cases name <;> unfold Compile.initializeCallee <;> infer_instance

theorem hoist {strict : Prop} {fns : List (String × Emit Template)} {scope : ScopeId}
    (hf : ∀ fn ∈ fns, YieldsCode strict ctx fn.2) : Straight ctx (hoist scope fns) := by
  refine forM fun fn hm => ?_
  have hcode : Straight ctx fn.2 := of_same fun {em a later} h => by
    obtain ⟨template, -, hc⟩ | ⟨-, error, hc⟩ := (hf fn (mem_declaredFunctions hm)).yields
    · rw [h] at hc
      cases hc
      rfl
    · rw [h] at hc
      cases hc
  exact hcode.bind fun _ => (addFunction.bind fun _ => opWith rfl).bind fun _ => initializeIn

end Straight

namespace Obeys

/-! ## Variables -/

instance load {resolved} : Obeys order ctx hulls (load name resolved) := by
  unfold Compile.load
  split <;> infer_instance

instance store {resolved} : Obeys order ctx hulls (store name resolved) := by
  unfold Compile.store
  split <;> infer_instance

instance storeName : Obeys order ctx hulls (storeName name) := seq

instance typeOfName : Obeys order ctx hulls (typeOfName name) := by
  refine resolve.bind fun resolved => ?_
  split <;> infer_instance

instance deleteName : Obeys order ctx hulls (deleteName name) := by
  refine resolve.bind fun resolved => ?_
  split <;> infer_instance

instance loadCallee : Obeys order ctx hulls (loadCallee name) := by
  refine resolve.bind fun resolved => ?_
  split <;> infer_instance

/-! ## Values -/

instance read? {emitted} : Obeys order ctx hulls (read? emitted) := by
  cases emitted <;> dsimp only [Compile.read?] <;> infer_instance

instance valueOf {code} [Obeys order ctx hulls code] : Obeys order ctx hulls (valueOf code) := seq

instance storedOf {code} [Obeys order ctx hulls code] : Obeys order ctx hulls (storedOf code) := seq

instance toBoolean : Obeys order ctx hulls (toBoolean type) := choice

instance toNumber : Obeys order ctx hulls (toNumber type) := choice

instance toPrimitive : Obeys order ctx hulls (toPrimitive type) := choice

instance toText : Obeys order ctx hulls (toText type) := choice

instance toPropertyKey : Obeys order ctx hulls (toPropertyKey type) := choice

end Obeys

/-- The code of a property's name is made, if it has any. -/
def Key.Obeys (order : Order) (ctx : Context) (hulls : List Hull) : Key → Prop
  | .named _ => True
  | .computed key => Compile.Obeys order ctx hulls key

/-- The code of the parts of a property access is made. -/
def ObeysMember (order : Order) (ctx : Context) (hulls : List Hull)
    (member : Option (Emit ValueType × Key)) : Prop :=
  ∀ object key, member = some (object, key) →
    Obeys order ctx hulls object ∧ key.Obeys order ctx hulls

namespace Obeys

/-! ## Properties -/

section

variable {object : Emit ValueType} {key : Key}

theorem memberOf (ho : Obeys order ctx hulls object) (hk : key.Obeys order ctx hulls) :
    Obeys order ctx hulls (memberOf object key) := by
  cases key with
  | named name => exact ho.bind fun _ => seq
  | computed key =>
    have hk : Obeys order ctx hulls key := hk
    exact ho.bind fun _ => (hk.bind fun _ => toPropertyKey).bind fun _ => pure

theorem deleteMember (ho : Obeys order ctx hulls object) (hk : key.Obeys order ctx hulls) :
    Obeys order ctx hulls (deleteMember object key) := by
  refine ho.bind fun _ => ?_
  cases key with
  | named name => exact opName
  | computed key =>
    have hk : Obeys order ctx hulls key := hk
    exact (hk.bind fun _ => toPropertyKey).bind fun _ => op

theorem loadMethod (ho : Obeys order ctx hulls object) (hk : key.Obeys order ctx hulls) :
    Obeys order ctx hulls (loadMethod object key) := by
  refine ho.bind fun _ => op.bind fun _ => ?_
  cases key with
  | named name => exact seq
  | computed key =>
    have hk : Obeys order ctx hulls key := hk
    exact (hk.bind fun _ => toPropertyKey).bind fun _ => seq

theorem storeMember (ho : Obeys order ctx hulls object) (hk : key.Obeys order ctx hulls) :
    Obeys order ctx hulls (storeMember object key) := by
  refine ho.bind fun _ => ?_
  cases key with
  | named name => exact seq
  | computed key =>
    have hk : Obeys order ctx hulls key := hk
    exact (hk.bind fun _ => toPropertyKey).bind fun _ => seq

end

/-! ## Operators -/

section

variable {left right v test consequent alternate : Emit ValueType}
  [Obeys order ctx hulls left] [Obeys order ctx hulls right]
  [Obeys order ctx hulls v] [Obeys order ctx hulls test]
  [Obeys order ctx hulls consequent] [Obeys order ctx hulls alternate]

instance literal {constant} : Obeys order ctx hulls (literal constant) := by
  unfold Compile.literal
  cases constant with
  | boolean v => cases v <;> exact seq
  | _ => exact seq

instance substitution {quasi} : Obeys order ctx hulls (substitution v quasi) := by
  unfold Compile.substitution
  cases quasi <;> infer_instance

theorem fixedKey {σ : Type} {key : Syntax.Expr σ} (h : order.strict → key.isFixedKey = true) :
    Obeys order ctx hulls (fixedKey key) := by
  cases key with
  | identifier name => exact pure
  | literal v =>
    cases v with
    | string text | number v => exact pure
    | boolean v | null => exact throw fun hs => by cases h hs
  | _ => exact throw fun hs => by cases h hs

instance insteadOf {replacement} : Obeys order ctx hulls (insteadOf v replacement type) := seq

instance arithmetic {operator isLiteral} :
    Obeys order ctx hulls (arithmetic operator left right isLiteral) := by
  unfold Compile.arithmetic
  dsimp only
  repeat' first | refine bind inferInstance fun _ => ?_ | split | infer_instance

instance relation {compares} : Obeys order ctx hulls (relation compares left right) := seq

instance primitiveText : Obeys order ctx hulls (primitiveText v) := seq

instance addition {leftText rightText} :
    Obeys order ctx hulls (addition left right leftText rightText) := by
  unfold Compile.addition
  split <;> infer_instance

instance logical {operator} : Obeys order ctx hulls (logical operator left right) := by
  unfold Compile.logical
  cases operator <;> infer_instance

instance condition : Obeys order ctx hulls (condition test) := seq

instance conditional : Obeys order ctx hulls (conditional test consequent alternate) := by
  unfold Compile.conditional
  repeat refine bind inferInstance fun _ => ?_
  infer_instance

instance compound {operator} : Obeys order ctx hulls (compound operator) := by
  cases operator <;> dsimp only [Compile.compound] <;> infer_instance

instance assignName {operator} : Obeys order ctx hulls (assignName operator name v) := by
  unfold Compile.assignName
  cases operator <;> infer_instance

instance loadOver {emitted} : Obeys order ctx hulls (loadOver emitted) := by
  unfold Compile.loadOver
  split <;> infer_instance

instance storeOver {emitted} : Obeys order ctx hulls (storeOver emitted) := by
  unfold Compile.storeOver
  split <;> infer_instance

instance assignMember {operator target} [Obeys order ctx hulls target] :
    Obeys order ctx hulls (assignMember operator target v) := by
  unfold Compile.assignMember
  cases operator <;> infer_instance

instance updateName {operator leading} :
    Obeys order ctx hulls (updateName operator leading name) := by
  unfold Compile.updateName
  dsimp only
  repeat' first | refine bind inferInstance fun _ => ?_ | split | infer_instance

instance updateMember {operator leading target} [Obeys order ctx hulls target] :
    Obeys order ctx hulls (updateMember operator leading target) := by
  unfold Compile.updateMember
  dsimp only
  repeat' first | refine bind inferInstance fun _ => ?_ | split | infer_instance

end

/-! ## Suspensions -/

instance suspend : Obeys order ctx hulls suspend := seq

instance generatorStart : Obeys order ctx hulls generatorStart := seq

instance returnFromStack : Obeys order ctx hulls returnFromStack := seq

theorem yieldOf {v} (h : Obeys order ctx hulls v) : Obeys order ctx hulls (yieldOf v) := by
  unfold Compile.yieldOf
  repeat refine bind inferInstance fun _ => ?_
  infer_instance

instance forwardTo {method iterator received missing} :
    Obeys order ctx hulls (forwardTo method iterator received missing) := by
  unfold Compile.forwardTo
  repeat refine bind inferInstance fun _ => ?_
  infer_instance

instance handThrow {iterator received check} :
    Obeys order ctx hulls (handThrow iterator received check) := by
  unfold Compile.handThrow
  repeat refine bind inferInstance fun _ => ?_
  infer_instance

instance handReturn {iterator received outerYield} :
    Obeys order ctx hulls (handReturn iterator received outerYield) := by
  unfold Compile.handReturn
  repeat refine bind inferInstance fun _ => ?_
  infer_instance

theorem delegateTo {iterable} (h : Obeys order ctx hulls iterable) :
    Obeys order ctx hulls (delegateTo iterable) := by
  unfold Compile.delegateTo
  repeat refine bind inferInstance fun _ => ?_
  infer_instance

/-- Nothing follows an error. -/
theorem throw_bind {error : CompileError} {f : α → Emit β} (h : ¬order.strict) :
    Obeys order ctx hulls ((MonadExcept.throw error : Emit α) >>= f) := ⟨fun _ => .error h⟩

theorem yieldForm {arg : Option (Emit ValueType)} {delegate}
    (hk : order.strict → ctx.kind = .generator)
    (hd : order.strict → (arg.isSome || !delegate) = true) (h : ∀ v ∈ arg, Obeys order ctx hulls v) :
    Obeys order ctx hulls (yieldForm arg delegate) := by
  refine reading ?_
  dsimp only
  split
  · next hg => exact throw_bind fun hs => by simp [hk hs] at hg
  · cases arg with
    | some v =>
      have := h v rfl
      cases delegate with
      | true => exact delegateTo this
      | false => exact yieldOf seq
    | none =>
      cases delegate with
      | true => exact throw fun hs => by cases hd hs
      | false => exact yieldOf op

theorem awaitForm {v : Emit ValueType} (hk : order.strict → ctx.kind.isAsync = true)
    (h : Obeys order ctx hulls v) : Obeys order ctx hulls (awaitForm v) := by
  refine reading ?_
  dsimp only
  split
  · next ha => exact throw_bind fun hs => by simp [hk hs] at ha
  · repeat refine bind inferInstance fun _ => ?_
    infer_instance

/-! ## Declarations -/

instance createBinding {binding} : Obeys order ctx hulls (createBinding binding) := by
  unfold Compile.createBinding
  refine read.bind fun _ => ?_
  split <;> infer_instance

instance createBindings : Obeys order ctx hulls (createBindings scope) :=
  scopeAt.bind fun _ => forM fun _ _ => createBinding

theorem slotOf?_of_mem {scope : Scope} (h : name ∈ Scope.names scope.bindings) :
    ∃ slot, scope.slotOf? name = some slot := by
  cases hs : scope.slotOf? name with
  | some slot => exact ⟨slot, rfl⟩
  | none =>
    obtain ⟨binding, hm, rfl⟩ := List.mem_map.mp h
    simpa using List.findIdx?_eq_none_iff.mp hs binding hm

theorem initializeIn (h : name ∈ Scope.names (ctx.scopes.scope scope).bindings) :
    Obeys order ctx hulls (initializeIn scope name) := by
  refine atScope ?_
  obtain ⟨slot, hs⟩ := slotOf?_of_mem h
  rw [hs]
  exact initializeSlot

instance initializeVars : Obeys order ctx hulls (initializeVars scope) := by
  refine scopeAt.bind fun scope => (forIn fun item _ _ => ?_).bind fun _ => pure
  obtain ⟨binding, slot⟩ := item
  dsimp only
  split <;> infer_instance

/-- Each name of a list is initialised from where it stands. -/
theorem initializeEach {operation : Op} {names : List String}
    (h : ∀ name ∈ names, name ∈ Scope.names (ctx.scopes.scope scope).bindings) :
    Obeys order ctx hulls (do
      for (name, index) in names.zipIdx do
        Compile.opWith operation (.count index)
        Compile.initializeIn scope name) := by
  refine (forIn fun item hm _ => ?_).bind fun _ => pure
  have hn := h item.1 (List.fst_mem_of_mem_zipIdx hm)
  exact opWith.bind fun _ => (initializeIn hn).bind fun _ => pure

theorem initializeParams {params}
    (h : ∀ name ∈ params, name ∈ Scope.names (ctx.scopes.scope scope).bindings) :
    Obeys order ctx hulls (initializeParams scope params) := initializeEach h

theorem initializeImports {imports}
    (h : ∀ name ∈ imports, name ∈ Scope.names (ctx.scopes.scope scope).bindings) :
    Obeys order ctx hulls (initializeImports scope imports) := initializeEach h

theorem initializeOf {operation : Op} {name : String} {kind} : Obeys order ctx hulls (do
    if (← Compile.scopeAt scope).kindOf? name == some kind then
      Compile.op operation
      Compile.initializeIn scope name) := by
  refine atScope ?_
  by_cases h : (ctx.scopes.scope scope).kindOf? name = some kind
  · rw [if_pos (by simpa using h)]
    exact op.bind fun _ => initializeIn
      (Scope.kindIn?_isSome.mp (Option.isSome_iff_exists.mpr ⟨_, h⟩))
  · rw [if_neg (by simpa using h)]
    exact pure

instance initializeArguments : Obeys order ctx hulls (initializeArguments scope) := initializeOf

instance initializeCallee {name} : Obeys order ctx hulls (initializeCallee scope name) := by
  cases name with
  | none => exact pure
  | some name => exact initializeOf

section

variable {fns : List (String × Emit Template)} (hf : ∀ fn ∈ fns, YieldsCode order.strict ctx fn.2)

include hf

theorem hoist (hn : ∀ fn ∈ fns, fn.1 ∈ Scope.names (ctx.scopes.scope scope).bindings) :
    Obeys order ctx hulls (hoist scope fns) := by
  refine forM fun fn hm => ?_
  have hm := mem_declaredFunctions hm
  exact closureOf (hf fn hm) (initializeIn (hn fn hm))

theorem hoistGlobal : Obeys order ctx hulls (hoistGlobal fns) :=
  forM fun fn hm => closureOf (hf fn (mem_declaredFunctions hm)) opBinding

end

/-- Straight code may stand apart: it leaves nothing but functions behind. -/
theorem apart {body} (h : Obeys order ctx hulls body) (hs : Straight ctx body) :
    Obeys order ctx hulls (apart body) := by
  refine newLabel.bind fun entry => addUnit.bind fun unit => opWith.bind fun _ =>
    ⟨fun {em} hb => ?_⟩
  have h := h.obeys hb
  have hs := fun {a later} => @hs.straight em a later
  change order.Allows em (body ctx em >>= fun made => _)
  generalize body ctx em = r at h hs
  cases h with
  | error h => exact .error h
  | @ok a mid h =>
    have hs := hs rfl
    have hi : em.draft.instructions.toList <+:
        ((mid.draft.instructions.push ⟨.returnUnit, none⟩).extract 0 em.draft.position).toList := by
      rw [Array.toList_extract]
      simp only [List.extract_eq_take_drop, List.drop_zero, Nat.sub_zero]
      exact List.prefix_take_iff.mpr ⟨h.instructions.trans (by simp), by simp [Draft.position]⟩
    have hle : em.draft.position ≤
        ((mid.draft.instructions.push ⟨.returnUnit, none⟩).extract 0 em.draft.position).size := by
      simpa [Draft.position] using hi.length_le
    refine .ok ⟨hi, h.constants, h.functions, ⟨[], ?_, .nil hle, List.forall_mem_nil _⟩, ?_⟩
    · change mid.draft.handlers.toList.map Span.of = _
      rw [hs.handlers, List.map_nil, List.append_nil]
      rfl
    · change AllLead _ _ em.control mid.control
      rw [hs.control]
      exact AllLead.of_le hle em.control

theorem declareBlock {fns} (h : Obeys order ctx hulls fns) (hs : Straight ctx fns) :
    Obeys order ctx hulls (declareBlock scope fns) := by
  refine scopeAt.bind fun _ => ?_
  dsimp only
  split
  · exact pure
  · refine read.bind fun _ => ?_
    split
    · exact createBindings.bind fun _ => h
    · exact apart (createBindings.bind fun _ => h) inferInstance

/-- Code in a block is made in a context that differs only by its scope. -/
theorem inBlock {body} (h : ∀ depth, Obeys order { ctx with scope, envDepth := depth } hulls body) :
    Obeys order ctx hulls (inBlock scope body) := by
  refine scopeAt.bind fun _ => ?_
  have := h
  have : ∀ entered, Obeys order ctx hulls (Compile.inScope scope entered body) :=
    fun entered => inScope
  dsimp only
  split
  · refine op.bind fun _ => (this _).bind fun _ => ?_
    split <;> infer_instance
  · refine (this _).bind fun _ => ?_
    split <;> infer_instance

theorem declareGlobals {σ : Type} {body : List (Syntax.Stmt σ)} {fns : Emit Unit}
    (h : Obeys order ctx hulls fns) : Obeys order ctx hulls (declareGlobals body fns) := by
  unfold Compile.declareGlobals
  dsimp only
  refine (forIn fun _ _ _ => seq).bind fun _ => (forIn fun _ _ _ => seq).bind fun _ => ?_
  refine (forIn fun _ _ _ => seq).bind fun _ => (forIn fun _ _ _ => seq).bind fun _ => ?_
  refine (forIn fun _ _ _ => seq).bind fun _ => h.bind fun _ => ?_
  exact (forIn fun _ _ _ => seq).bind fun _ => pure

end Obeys

/-! ## Lexical names -/

/-- A name whose first value can be given from here: the innermost scope declares it, or is the
one of a script. -/
def Context.Binds (ctx : Context) (name : String) : Prop :=
  ctx.scope < ctx.scopes.size ∧
    ((ctx.scopes.scope ctx.scope).kind = .script ∨
      name ∈ Scope.names (ctx.scopes.scope ctx.scope).bindings)

namespace Obeys

/-- A name that is bound here is found at once. -/
theorem resolution_of_binds (h : ctx.Binds name) :
    (ctx.scopes.resolve ctx.scope name).resolution = .global ∨
      ∃ slot, (ctx.scopes.resolve ctx.scope name).resolution = .static ctx.scope 0 slot := by
  obtain ⟨hsize, hdeclared⟩ := h
  have hget : ctx.scopes[ctx.scope]? = some (ctx.scopes.scope ctx.scope) := by
    simp [Scopes.scope, Array.getElem?_eq_getElem hsize, Array.getD_eq_getD_getElem?]
  unfold Scopes.resolve Scopes.chain Scopes.chainFrom
  rw [hget]
  generalize ctx.scopes.scope ctx.scope = scope at hdeclared
  unfold Scopes.resolveAlong
  obtain hk | hm := hdeclared
  · rw [hk]
    exact .inl rfl
  · obtain ⟨slot, hs⟩ := slotOf?_of_mem hm
    rw [hs]
    cases scope.kind <;> first | exact .inl rfl | exact .inr ⟨slot, rfl⟩

theorem initializeName (h : order.strict → ctx.Binds name) :
    Obeys order ctx hulls (initializeName name) := by
  have resolving {k : Resolved → Emit Unit}
      (h : Obeys order ctx hulls (k (ctx.scopes.resolve ctx.scope name))) :
      Obeys order ctx hulls (Compile.resolve name >>= k) := ⟨h.obeys⟩
  refine resolving ?_
  by_cases hs : order.strict
  · obtain hr | ⟨slot, hr⟩ := resolution_of_binds (h hs)
    · rw [hr]
      exact opName
    · rw [hr]
      exact opWith
  · have : ∀ error, Obeys order ctx hulls (MonadExcept.throw error : Emit Unit) := fun _ => throw hs
    split <;> infer_instance

/-! ## Statements -/

theorem inOrder {statements} (h : ∀ stmt ∈ statements, Obeys order ctx hulls stmt) :
    Obeys order ctx hulls (inOrder statements) := by
  induction statements with
  | nil => exact pure
  | cons stmt rest ih =>
    refine (h stmt (.head _)).bind fun c => ?_
    have := ih fun stmt hm => h stmt (.tail _ hm)
    infer_instance

theorem expressionForm {v} (h : Obeys order ctx hulls v) :
    Obeys order ctx hulls (expressionForm v) := by
  refine h.bind fun _ => read.bind fun ctx => ?_
  split <;> infer_instance

theorem declaratorForm {kind init} (hb : order.strict → kind.isLexical = true → ctx.Binds name)
    (hi : ∀ v ∈ init, Obeys order ctx hulls v) :
    Obeys order ctx hulls (declaratorForm kind name init) := by
  unfold Compile.declaratorForm
  cases hk : kind.isLexical with
  | true =>
    cases init with
    | some v => exact (hi v rfl).bind fun _ => initializeName fun hs => hb hs hk
    | none => exact op.bind fun _ => initializeName fun hs => hb hs hk
  | false =>
    cases init with
    | some v => exact (hi v rfl).bind fun _ => storeName
    | none => exact pure

theorem ifForm {test consequent alternate} (ht : Obeys order ctx hulls test)
    (hc : Obeys order ctx hulls consequent) (ha : ∀ code ∈ alternate, Obeys order ctx hulls code) :
    Obeys order ctx hulls (ifForm test consequent alternate) := by
  refine condition.bind fun _ => newLabel.bind fun _ => jump.bind fun _ => hc.bind fun _ => ?_
  cases alternate with
  | none => exact seq
  | some code =>
    have := ha code rfl
    refine newLabel.bind fun _ => ?_
    dsimp only
    split <;> infer_instance

theorem withForm {object body} (ho : Obeys order ctx hulls object)
    (hb : ∀ depth, Obeys order { ctx with scope, envDepth := depth } hulls body) :
    Obeys order ctx hulls (withForm (some scope) object body) := by
  have := hb
  refine ho.bind fun _ => ofScope (op.bind fun _ => inScope.bind fun _ => ?_)
  split <;> infer_instance

theorem labelledForm {labels body} (h : Obeys order ctx (.jumps labels false false :: hulls) body) :
    Obeys order ctx hulls (labelledForm labels body) :=
  (inBreakable h).bind fun _ => seq

theorem blockForm {fns body} (hf : ∀ depth, ∀ fn ∈ fns,
      YieldsCode order.strict { ctx with scope, envDepth := depth } fn.2)
    (hn : ∀ fn ∈ fns, fn.1 ∈ Scope.names (ctx.scopes.scope scope).bindings)
    (hb : ∀ depth, Obeys order { ctx with scope, envDepth := depth } hulls body) :
    Obeys order ctx hulls (blockForm (some scope) fns body) :=
  ofScope (inBlock fun depth =>
    (declareBlock (hoist (hf depth) hn) (.hoist (hf depth))).bind fun _ => hb depth)

/-! ## Switches -/

/-- The code of a clause is made. -/
structure OfClause (order : Order) (ctx : Context) (hulls : List Hull) (clause : Clause) :
    Prop where
  test : ∀ test ∈ clause.test, Obeys order ctx hulls test
  body : Obeys order ctx hulls clause.body

section

variable {clauses : List Clause}

instance tableDispatch {reg keys entries otherwise} :
    Obeys order ctx hulls (tableDispatch reg keys entries otherwise) := by
  unfold Compile.tableDispatch
  infer_instance

theorem testDispatch {reg clauses otherwise}
    (h : ∀ clause ∈ clauses, OfClause order ctx hulls clause.1) :
    Obeys order ctx hulls (testDispatch reg clauses otherwise) := by
  refine (forIn fun clause hm _ => ?_).bind fun _ => jump
  obtain ⟨⟨test, body⟩, entry⟩ := clause
  cases test with
  | none => exact pure
  | some test =>
    have := (h _ hm).test test rfl
    dsimp only
    infer_instance

theorem clauseBodies : {clauses : List (Clause × Label)} →
    (∀ clause ∈ clauses, OfClause order ctx hulls clause.1) →
    Obeys order ctx hulls (clauseBodies clauses)
  | [], _ => pure
  | [(_, _)], h => place.bind fun _ => (h _ (.head _)).body
  | (_, _) :: _ :: _, h => place.bind fun _ => (h _ (.head _)).body.bind fun _ =>
    clauseBodies fun clause hm => h clause (.tail _ hm)

theorem switchBody {reg keys}
    (h : ∀ clause ∈ clauses, OfClause order ctx (.jumps [] true false :: hulls) clause) :
    Obeys order ctx hulls (switchBody reg keys clauses) := by
  refine (inBreakable (mapM.bind fun entries => ?_)).bind fun _ => seq
  have hz : ∀ clause ∈ clauses.zip entries,
      OfClause order ctx (.jumps [] true false :: hulls) clause.1 :=
    fun clause hm => h _ (List.of_mem_zip hm).1
  have := clauseBodies hz
  have := fun reg otherwise => @testDispatch _ _ _ reg _ otherwise hz
  dsimp only
  split <;> refine bind inferInstance fun otherwise => ?_ <;> cases keys <;> exact seq

theorem switchForm {discriminant keys fns} (hd : Obeys order ctx hulls discriminant)
    (hf : ∀ depth, ∀ fn ∈ fns, YieldsCode order.strict { ctx with scope, envDepth := depth } fn.2)
    (hn : ∀ fn ∈ fns, fn.1 ∈ Scope.names (ctx.scopes.scope scope).bindings)
    (hc : ∀ depth, ∀ clause ∈ clauses, OfClause order { ctx with scope, envDepth := depth }
      (.jumps [] true false :: hulls) clause) :
    Obeys order ctx hulls (switchForm (some scope) discriminant keys fns clauses) :=
  hd.bind fun _ => newRegister.bind fun _ => opRegister.bind fun _ => ofScope <|
    read.bind fun _ => inBlock fun depth =>
      (declareBlock (hoist (hf depth) hn) (.hoist (hf depth))).bind fun _ => switchBody (hc depth)

end

/-! ## Loops -/

section

variable {labels : List String} {test update : Option (Emit ValueType)} {body : Emit Completion}

theorem loopTest {plain continues}
    (h : ∀ code ∈ test, Obeys order ctx (.jumps labels plain continues :: hulls) code) :
    Obeys order ctx (.jumps labels plain continues :: hulls) (loopTest test) := by
  cases test with
  | none => exact pure
  | some test =>
    have := h test rfl
    exact seq

theorem whileForm (ht : ∀ code ∈ test, Obeys order ctx (.jumps labels true true :: hulls) code)
    (hb : Obeys order ctx (.jumps labels true true :: hulls) body) :
    Obeys order ctx hulls (whileForm labels test body) := by
  refine (inLoop fun head => ?_).bind fun _ => seq
  refine place.bind fun _ => (loopTest ht).bind fun _ => hb.bind fun _ => ?_
  split <;> infer_instance

theorem lateRounds {first tail} (hf : Obeys order ctx (.jumps labels true true :: hulls) first)
    (hb : Obeys order ctx (.jumps labels true true :: hulls) body)
    (ht : ∀ head, Obeys order ctx (.jumps labels true true :: hulls) (tail head)) :
    Obeys order ctx hulls (lateRounds labels first body tail) := by
  refine inLoop fun next => newLabel.bind fun head => place.bind fun _ => hf.bind fun _ =>
    hb.bind fun _ => continueUsed.bind fun _ => ?_
  split
  · exact place.bind fun _ => ht head
  · exact pure

theorem doWhileForm (ht : ∀ code ∈ test, Obeys order ctx (.jumps labels true true :: hulls) code)
    (hb : Obeys order ctx (.jumps labels true true :: hulls) body) :
    Obeys order ctx hulls (doWhileForm labels test body) := by
  have hback : ∀ start, Obeys order ctx (.jumps labels true true :: hulls) (goBack test start) := by
    intro start
    cases test with
    | none => exact jump
    | some test =>
      have := ht test rfl
      exact seq
  exact (lateRounds (@pure _ _ _ _ ()) hb hback).bind fun _ => seq

instance dropped {v} [Obeys order ctx hulls v] : Obeys order ctx hulls (dropped v) := seq

theorem nextRound {copies} (h : ∀ code ∈ update, Obeys order ctx hulls code) (head : Label) :
    Obeys order ctx hulls (nextRound copies update head) := by
  unfold Compile.nextRound
  dsimp only
  cases update with
  | none => split <;> infer_instance
  | some update =>
    have := h update rfl
    split <;> infer_instance

theorem headRounds {init copies} (hi : Obeys order ctx hulls init)
    (ht : ∀ code ∈ test, Obeys order ctx (.jumps labels true true :: hulls) code)
    (hu : ∀ code ∈ update, Obeys order ctx (.jumps labels true true :: hulls) code)
    (hb : Obeys order ctx (.jumps labels true true :: hulls) body) :
    Obeys order ctx hulls (headRounds labels init copies test update body) := by
  have hrounds := (lateRounds (loopTest ht) hb (@nextRound _ _ _ _ copies hu)).bind fun rounds =>
    (seq : Obeys order ctx hulls (do
      Compile.place rounds.2.breakLabel
      return rounds.2.loopCompletion test.isNone))
  refine hi.bind fun _ => ?_
  dsimp only
  split
  · exact op.bind fun _ => hrounds
  · exact hrounds

/-- Code in the record of a scope is made in a context that differs only by its scope. -/
theorem inRecord {entered}
    (h : ∀ depth, Obeys order { ctx with scope, envDepth := depth } hulls body) :
    Obeys order ctx hulls (inRecord scope entered body) := by
  have := h
  unfold Compile.inRecord
  cases entered with
  | true =>
    refine op.bind fun _ => (@inScope _ _ _ _ _ true _ (createBindings.bind fun _ => h _)).bind
      fun _ => ?_
    split <;> infer_instance
  | false =>
    refine (@inScope _ _ _ _ _ false _ (h _)).bind fun _ => ?_
    exact pure

theorem forForm {init copies}
    (hi : ∀ depth, Obeys order { ctx with scope, envDepth := depth } hulls init)
    (ht : ∀ depth, ∀ code ∈ test,
      Obeys order { ctx with scope, envDepth := depth } (.jumps labels true true :: hulls) code)
    (hu : ∀ depth, ∀ code ∈ update,
      Obeys order { ctx with scope, envDepth := depth } (.jumps labels true true :: hulls) code)
    (hb : ∀ depth, Obeys order { ctx with scope, envDepth := depth }
      (.jumps labels true true :: hulls) body) :
    Obeys order ctx hulls (forForm labels (some scope) init copies test update body) :=
  ofScope <| scopeAt.bind fun _ => inRecord fun depth =>
    headRounds (hi depth) (ht depth) (hu depth) (hb depth)

theorem roundForm {assign next}
    (ha : ∀ depth, Obeys order { ctx with scope, envDepth := depth } hulls assign)
    (hb : ∀ depth, Obeys order { ctx with scope, envDepth := depth } hulls body) :
    Obeys order ctx hulls (roundForm scope assign body next) := by
  refine atScope ?_
  have := hb
  cases (ctx.scopes.scope scope).materializes with
  | true =>
    refine op.bind fun _ => (@inScope _ _ _ _ _ true _
      (createBindings.bind fun _ => initializeSlot.bind fun _ => hb _)).bind fun _ => ?_
    split <;> infer_instance
  | false =>
    refine (@inScope _ _ _ _ _ false _ ((ha _).bind fun _ => hb _)).bind fun _ => ?_
    split <;> infer_instance

theorem roundsForm {iterator closes assign} (ha : ∀ depth,
      Obeys order { ctx with scope, envDepth := depth }
      (.jumps labels true true :: hulls) assign) (hb : ∀ depth,
      Obeys order { ctx with scope, envDepth := depth }
      (.jumps labels true true :: hulls) body) :
    Obeys order ctx hulls (roundsForm labels (some scope) iterator closes assign body) := by
  refine inLoop fun next => ?_
  have := fun next => @roundForm _ _ _ _ _ assign next ha hb
  refine newLabel.bind fun _ => place.bind fun _ => opRegister.bind fun _ => op.bind fun _ =>
    op.bind fun _ => op.bind fun _ => op.bind fun _ => jump.bind fun _ => op.bind fun _ => ?_
  dsimp only
  split
  · exact openClosing.bind fun _ => ofScope seq
  · exact ofScope seq

theorem iteratorEnd {iterator overValues} (left : Label × Jumps) :
    Obeys order ctx hulls (iteratorEnd iterator overValues left) := by
  unfold Compile.iteratorEnd
  dsimp only
  refine place.bind fun _ => op.bind fun _ => ?_
  split
  · refine newLabel.bind fun _ => jump.bind fun _ => place.bind fun _ => ?_
    split <;> infer_instance
  · exact pure

/-- A loop over values closes its iterator, so that one more construct stands around its rounds. -/
theorem forEachForm {right overValues assign} (ho : order.Admits owner)
    (hs : overValues = true → ∀ register, Serves (.closes register) owner)
    (hr : Obeys order ctx hulls right)
    (ha : ∀ depth, Obeys (order.inside owner) { ctx with scope, envDepth := depth }
      (.jumps labels true true :: (if overValues then [.closing] else []) ++ hulls) assign)
    (hb : ∀ depth, Obeys (order.inside owner) { ctx with scope, envDepth := depth }
      (.jumps labels true true :: (if overValues then [.closing] else []) ++ hulls) body) :
    Obeys order ctx hulls (forEachForm labels (some scope) right overValues assign body) := by
  refine hr.bind fun _ => op.bind fun _ => newRegister.bind fun reg => opRegister.bind fun _ => ?_
  have hrounds := @roundsForm _ _ _ _ _ _ reg overValues _ ha hb
  cases overValues with
  | true => exact (closingIterator (hs rfl reg) ho hrounds).bind iteratorEnd
  | false => exact (hrounds.widen ho.inside).bind iteratorEnd

end

/-! ## Returns -/

instance emitReturn : Obeys order ctx hulls emitReturn := seq

instance tailCallAllowed : Obeys order ctx hulls tailCallAllowed := seq

theorem returnOf {v tailCall} (hv : Obeys order ctx hulls v)
    (ht : ∀ code ∈ tailCall, Obeys order ctx hulls code) :
    Obeys order ctx hulls (returnOf v tailCall) := by
  refine tailCallAllowed.bind fun allowed => ?_
  split
  · exact ht _ rfl
  · exact hv.bind fun _ => emitReturn

theorem returnForm {code : Option (Emit Unit)}
    (hk : order.strict → ctx.kind ≠ .script ∧ ctx.kind ≠ .module)
    (h : ∀ body ∈ code, Obeys order ctx hulls body) : Obeys order ctx hulls (returnForm code) := by
  have hreturning : Obeys order ctx hulls (returning code) := by
    cases code with
    | none => exact seq
    | some code => exact (h code rfl).bind fun _ => pure
  refine reading ?_
  dsimp only
  split
  · next ho => exact throw_bind fun hs => by simp [hk hs] at ho
  · exact hreturning

/-! ## Protected blocks -/

section

variable {block : Emit Completion}

theorem catchForm {savedEnv body}
    (h : ∀ depth, Obeys order { ctx with scope, envDepth := depth } hulls body) :
    Obeys order ctx hulls (catchForm (some scope) savedEnv body) := by
  refine opRegister.bind fun _ => ofScope (scopeAt.bind fun found => ?_)
  dsimp only
  cases found.materializes with
  | true =>
    refine op.bind fun _ => (@inScope _ _ _ _ _ true _
      (createBindings.bind fun _ => initializeSlot.bind fun _ => h _)).bind fun _ => ?_
    split <;> infer_instance
  | false =>
    exact (@inScope _ _ _ _ _ false _ (op.bind fun _ => h _)).bind fun _ => pure

theorem tryCatch {catchClause} (ho : order.Admits owner) (hs : Serves .catches owner)
    (hb : ∀ depth, Obeys (order.inside owner) { ctx with tryDepth := depth } hulls block)
    (hc : Obeys order ctx hulls catchClause) :
    Obeys order ctx hulls (tryCatch block catchClause) := by
  refine protecting (@guarded _ _ _ _ _ (hb _)) fun _ _ _ => .after newLabel fun _ => ?_
  refine .optionally jump (.after newLabel fun _ => .add hs (ho _ _ (.inl rfl))
    (fun hi => ⟨ho.inside hi, .inl hi⟩) ?_)
  exact place.bind fun _ => hc.bind fun _ => seq

theorem beneath {code : Emit α} (h : Obeys (order.inside owner) ctx hulls code) :
    Obeys (order.under owner) ctx hulls code :=
  @widen _ (order.under owner) _ _ _ _ h .inl

theorem finallyProtected {catchClause fallthrough}
    (hs : ∀ code ∈ catchClause, Serves .catches owner)
    (hb : ∀ depth, Obeys (order.inside owner) { ctx with tryDepth := depth } hulls block)
    (hc : ∀ code ∈ catchClause, ∀ depth,
      Obeys (order.inside owner) { ctx with tryDepth := depth } hulls code) :
    Obeys (order.under owner) ctx hulls (finallyProtected block catchClause fallthrough) := by
  refine @guarded _ _ _ _ _ ?_
  cases catchClause with
  | none =>
    refine position.bind fun _ => (hb _).beneath.bind fun _ => position.bind fun _ => ?_
    dsimp only
    split <;> infer_instance
  | some code =>
    refine protecting (hb _) fun _ _ _ => .optionally jump (.after newLabel fun _ =>
      .add (hs code rfl) (.inr ⟨rfl, rfl⟩) (fun hi => ⟨.inl hi, .inl hi⟩) ?_)
    refine place.bind fun _ => (hc code rfl _).beneath.bind fun _ => ?_
    dsimp only
    split <;> infer_instance

theorem finallyRethrow {savedEnv pending entry finalizer} (ho : order.Admits owner)
    (hs : Serves (.supersedes pending) owner) (h : Obeys (order.inside owner) ctx hulls finalizer) :
    Obeys order ctx hulls (finallyRethrow savedEnv pending entry finalizer) := by
  refine place.bind fun _ => opRegister.bind fun _ => protecting h fun _ _ _ =>
    .add hs (ho _ _ (.inl rfl)) (fun hi => ⟨ho.inside hi, .inl hi⟩) ?_
  dsimp only
  split <;> infer_instance

theorem finallyExits {savedEnv finalizer leadsOn es} (h : Obeys order ctx hulls finalizer) :
    Obeys order ctx hulls (finallyExits savedEnv finalizer leadsOn es) := by
  refine (forIn fun exit _ _ => ?_).bind fun _ => pure
  refine place.bind fun _ => opRegister.bind fun _ => h.bind fun _ => ?_
  split <;> infer_instance

theorem tryFinally {savedEnv catchClause finalizer} (ho : order.Admits owner)
    (hs : ∀ code ∈ catchClause, Serves .catches owner)
    (hs' : ∀ kind, (∃ register, kind = .finalizes register ∨ kind = .supersedes register) →
      Serves kind owner)
    (hb : ∀ depth, Obeys (order.inside owner) { ctx with tryDepth := depth }
      (.finalizer :: hulls) block)
    (hc : ∀ code ∈ catchClause, ∀ depth,
      Obeys (order.inside owner) { ctx with tryDepth := depth } (.finalizer :: hulls) code)
    (hf : Obeys (order.inside owner) ctx hulls finalizer) :
    Obeys order ctx hulls (tryFinally savedEnv block catchClause finalizer) := by
  have hf' : Obeys order ctx hulls finalizer := hf.widen ho.inside
  refine newRegister.bind fun pending => newLabel.bind fun _ =>
    protecting (underFinalizer (finallyProtected hs hb hc)) fun _ r _ => .after newLabel fun _ =>
    .add (hs' _ ⟨pending, .inl rfl⟩) (ho _ _ (.inl rfl))
      (fun hi => ⟨ho.under hi, hi.imp_right fun h => ⟨h.1, h.2, pending, rfl⟩⟩)
      ((finallyRethrow ho (hs' _ ⟨pending, .inr rfl⟩) hf).bind fun _ => newLabel.bind fun _ => ?_)
  have := fun leadsOn es => @finallyExits _ _ _ savedEnv _ leadsOn es hf'
  dsimp only
  split
  · refine place.bind fun _ => hf'.bind fun _ => ?_
    split <;> infer_instance
  · infer_instance

/-- A protected block stands under its finalizer, if it has one, and so does its catch clause. -/
theorem tryForm {catchClause finalizer} (ho : order.Admits owner)
    (hs : catchClause.isSome = true → Serves .catches owner)
    (hs' : finalizer.isSome = true → ∀ kind, (∃ register, kind = .finalizes register ∨
      kind = .supersedes register) → Serves kind owner)
    (hh : order.strict → (catchClause.isSome || finalizer.isSome) = true)
    (hb : ∀ depth, Obeys (order.inside owner) { ctx with tryDepth := depth }
      ((if finalizer.isSome then [.finalizer] else []) ++ hulls) block)
    (hc : ∀ code ∈ catchClause, ∀ savedEnv depth,
      Obeys (order.inside owner) { ctx with tryDepth := depth }
        ((if finalizer.isSome then [.finalizer] else []) ++ hulls) (code savedEnv))
    (hf : ∀ code ∈ finalizer, Obeys (order.inside owner) ctx hulls code) :
    Obeys order ctx hulls (tryForm block catchClause finalizer) := by
  refine newRegister.bind fun savedEnv => opRegister.bind fun _ => ?_
  cases finalizer with
  | some finalizer =>
    have hclause : ∀ code ∈ catchClause.map (· savedEnv), Serves .catches owner ∧ ∀ depth,
        Obeys (order.inside owner) { ctx with tryDepth := depth } (.finalizer :: hulls) code := by
      intro code hm
      obtain ⟨clause, hclause, rfl⟩ := Option.map_eq_some_iff.mp hm
      exact ⟨hs (Option.isSome_of_mem hclause), hc clause hclause savedEnv⟩
    have h := @tryFinally _ _ _ _ _ savedEnv _ _ ho (fun code hm => (hclause code hm).1) (hs' rfl)
      hb (fun code hm => (hclause code hm).2) (hf finalizer rfl)
    cases catchClause <;> exact h
  | none =>
    cases catchClause with
    | none => exact throw fun hs => by cases hh hs
    | some code =>
      exact tryCatch ho (hs rfl) hb ((hc code rfl savedEnv ctx.tryDepth).widen ho.inside)

end

/-! ## Forms with lists -/

theorem pushArguments {args} (h : ∀ arg ∈ args, Obeys order ctx hulls arg) :
    Obeys order ctx hulls (pushArguments args) := by
  refine (forM fun arg hm => ?_).bind fun _ => pure
  have := h arg hm
  exact seq

theorem callForm {callee args operation} (hc : Obeys order ctx hulls callee)
    (ha : ∀ arg ∈ args, Obeys order ctx hulls arg) :
    Obeys order ctx hulls (callForm callee args operation) :=
  hc.bind fun _ => (pushArguments ha).bind fun _ => opWith

section

variable {name : Option String} {member : Option (Emit ValueType × Key)}
  (hm : ObeysMember order ctx hulls member)

include hm

theorem calleeForm {v} (hv : Obeys order ctx hulls v) :
    Obeys order ctx hulls (calleeForm name member v) := by
  unfold Compile.calleeForm
  split
  · exact loadMethod (hm _ _ rfl).1 (hm _ _ rfl).2
  · exact loadCallee
  · exact seq

theorem deleteForm {v} (hv : Obeys order ctx hulls v) :
    Obeys order ctx hulls (deleteForm name member v) := by
  unfold Compile.deleteForm
  split
  · exact seq
  · exact (deleteMember (hm _ _ rfl).1 (hm _ _ rfl).2).bind fun _ => pure
  · exact insteadOf

theorem unaryForm {operator v} (hv : Obeys order ctx hulls v) :
    Obeys order ctx hulls (unaryForm operator name member v) := by
  cases operator with
  | typeOf => cases name <;> exact seq
  | delete => exact deleteForm hm hv
  | _ => exact seq

-- What an assignment is made to is a variable or a property.
variable (ht : order.strict → (name.isSome || member.isSome) = true)

include ht

theorem assignFromStack : Obeys order ctx hulls (assignFromStack name member) := by
  unfold Compile.assignFromStack
  split
  · exact storeName
  · exact storeMember (hm _ _ rfl).1 (hm _ _ rfl).2
  · exact throw fun hs => by cases ht hs

theorem updateForm {operator leading} :
    Obeys order ctx hulls (updateForm operator leading name member) := by
  unfold Compile.updateForm
  split
  · exact updateName
  · have := memberOf (hm _ _ rfl).1 (hm _ _ rfl).2
    exact updateMember
  · exact throw fun hs => by cases ht hs

theorem assignForm {operator v} (hv : Obeys order ctx hulls v) :
    Obeys order ctx hulls (assignForm operator name member v) := by
  unfold Compile.assignForm
  split
  · exact assignName
  · have := memberOf (hm _ _ rfl).1 (hm _ _ rfl).2
    exact assignMember
  · exact throw fun hs => by cases ht hs

end

theorem arrayForm {elements} (h : ∀ element ∈ elements, ∀ v ∈ element, Obeys order ctx hulls v) :
    Obeys order ctx hulls (arrayForm elements) := by
  have hpush : ∀ element ∈ elements, Obeys order ctx hulls (elementOf element) := by
    intro element hm
    cases element with
    | none => exact op
    | some v =>
      have := h _ hm v rfl
      exact seq
  exact (forM hpush).bind fun _ => opWith.bind fun _ => pure

theorem objectForm {properties} (h : ∀ prop ∈ properties, Obeys order ctx hulls prop) :
    Obeys order ctx hulls (objectForm properties) :=
  op.bind fun _ => (forM h).bind fun _ => pure

theorem sequenceForm : {values : List (Emit Emitted)} → (∀ v ∈ values, Obeys order ctx hulls v) →
    Obeys order ctx hulls (sequenceForm values)
  | [], _ => op.bind fun _ => pure
  | [last], h =>
    have := h last (.head _)
    valueOf.bind fun _ => pure
  | v :: _ :: _, h =>
    have := h v (.head _)
    valueOf.bind fun _ => op.bind fun _ =>
      sequenceForm fun later hm => h later (.tail _ hm)

theorem templateForm {quasis values} (h : ∀ v ∈ values, Obeys order ctx hulls v) :
    Obeys order ctx hulls (templateForm quasis values) := by
  refine pushString.bind fun _ => (forIn fun v hm _ => ?_).bind fun _ => pure
  have := h v.1 (List.fst_mem_of_mem_zipIdx hm)
  exact substitution.bind fun _ => pure

theorem keyOf {σ : Type} {prop : Syntax.Expr σ} {computed code}
    (hn : order.strict → (computed || prop.identifier?.isSome) = true)
    (h : computed = true ∨ ¬order.strict → Obeys order ctx hulls code) :
    (keyOf prop computed code).Obeys order ctx hulls := by
  unfold Compile.keyOf
  split
  · trivial
  · next hk =>
    have : Obeys order ctx hulls code := by
      refine h ((Bool.eq_false_or_eq_true _).imp_right fun hc hs => ?_)
      have hn := hn hs
      rw [hc, Bool.false_or] at hn
      obtain ⟨name, hname⟩ := Option.isSome_iff_exists.mp hn
      exact hk name hc hname
    exact valueOf

theorem openTest {σ : Type} {test : Syntax.Expr σ} {code : Emit Emitted}
    (h : Obeys order ctx hulls code) : ∀ v ∈ openTest test code, Obeys order ctx hulls v := by
  unfold Compile.openTest
  split
  · exact fun _ hm => nomatch hm
  · rintro _ ⟨⟩
    exact valueOf

theorem binaryForm {σ : Type} {operator : Syntax.BinaryOperator} {left right : Syntax.Expr σ}
    {leftCode rightCode : Emit Emitted} (hl : Obeys order ctx hulls leftCode)
    (hr : Obeys order ctx hulls rightCode) :
    Obeys order ctx hulls (binaryForm operator left right leftCode rightCode) := by
  cases operator with
  | add => exact addition
  | arithmetic operator => exact arithmetic
  | relation compares => exact relation

theorem values {v : Option (Emit Emitted)} (h : ∀ code ∈ v, Obeys order ctx hulls code) :
    ∀ code ∈ v.map Compile.storedOf, Obeys order ctx hulls code := by
  intro code hm
  obtain ⟨v, hv, rfl⟩ := Option.map_eq_some_iff.mp hm
  have := h v hv
  exact storedOf

/-! ## Functions -/

theorem statementsBody {body} (h : Obeys order ctx hulls body) :
    Obeys order ctx hulls (statementsBody body) := by
  refine h.bind fun c => ?_
  split <;> infer_instance

theorem functionCode {name params fns code}
    (hp : ∀ name ∈ params, name ∈ Scope.names (ctx.scopes.scope scope).bindings)
    (hf : ∀ fn ∈ fns, YieldsCode order.strict ctx fn.2)
    (hn : ∀ fn ∈ fns, fn.1 ∈ Scope.names (ctx.scopes.scope scope).bindings)
    (hc : Obeys order ctx hulls code) :
    Obeys order ctx hulls (functionCode scope name params fns code) := by
  have hrest : Obeys order ctx hulls (functionRest scope name params fns
      (ctx.kind == .generator) code) := by
    refine createBindings.bind fun _ => (initializeParams hp).bind fun _ =>
      initializeArguments.bind fun _ => initializeVars.bind fun _ => (hoist hf hn).bind fun _ =>
      initializeCallee.bind fun _ => ?_
    dsimp only
    split <;> infer_instance
  refine reading ?_
  dsimp only
  split
  · exact op.bind fun _ => hrest
  · exact hrest

end Obeys

end Ecma.Compile

