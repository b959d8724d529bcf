/-
Trees at one pace. Whatever a tree is made of, its code under two choices of options fails with
the same error or stays abreast: the recursion over the tree hands the parts to their forms.
-/
import Ecma.Proofs.Options.Programs
import Ecma.Proofs.Housing
import Ecma.Proofs.InStep.Programs

namespace Ecma.Compile

open Code (Instruction SwitchKey)
open Syntax
open Scope (housedExpr housedExpr? housedExprs housedElements housedProperties housedFunc
  housedBody housedDeclarators housedDeclaration housedBlock housedBlock? housedCases housedCatch?
  housedHead housedHead? housedStmt housedStmt? housedStmts Opened functionNamesOf)

variable {α : Type} {opts : Choices} {ctx : Context} {hulls : List Hull}
  {es es' : List Exit} {fs : List Fact} {here : Option Shape}

/-! ## Forms with lists -/

theorem each_paced {f gives} : (xs : List α) → (∀ x ∈ xs, PacedCode opts (f x) 0 gives) →
    PacedCode opts (xs.forM f) 0 (gives * xs.length)
  | [], _ => fun _ _ => ⟨[], fun _ _ => .pure ⟨rfl, rfl⟩⟩
  | x :: rest, h => by
    intro ctx hulls
    obtain ⟨es, hx⟩ := h x (.head _) ctx hulls
    obtain ⟨es', hr⟩ := each_paced rest (fun y hy => h y (.tail _ hy)) ctx hulls
    refine ⟨es ++ es', fun fs height => ?_⟩
    rw [List.length_cons, Nat.mul_succ, Nat.add_comm (gives * _), ← Nat.add_assoc]
    exact .andThen (hx fs height) fun _ _ => hr fs (height + gives)

theorem stored_paced {v} (h : PacedExpr opts v) : PacedCode opts (do let _ ← storedOf v) 0 1 :=
  (storedOf_paced h).then_ fun _ => .pure ⟨rfl, rfl⟩

theorem pushArguments_paced {args} (h : ∀ argument ∈ args, PacedExpr opts argument) (ctx : Context)
    (hulls : List Hull) : ∃ es, ∀ fs height, Pace opts ctx hulls es fs (up height)
      (pushArguments args) (pushArguments args)
      (Gives (· = args.length) fs (up (height + args.length))) := by
  obtain ⟨es, ha⟩ := each_paced args (fun argument hm => stored_paced (h argument hm)) ctx hulls
  refine ⟨es ++ [], fun fs height => ?_⟩
  refine .andThen (ha fs height) fun _ _ => .pure ⟨rfl, rfl, rfl, ?_⟩
  rw [Nat.one_mul]

theorem callHeight (height count : Nat) :
    Instruction.after ⟨.call, some (.argCount count)⟩ (height + 2 + count) = height + 1 := by
  change height + 2 + count - (count + 2) + 1 = height + 1
  omega

section

variable {callee : Emit Unit} (hc : PacedCode opts callee 0 2) {args : List (Emit Emitted)}
  (ha : ∀ argument ∈ args, PacedExpr opts argument)

include hc ha

theorem call_paced : PacedCode opts (callForm callee args .call) 0 1 := by
  intro ctx hulls
  obtain ⟨es, hc⟩ := hc ctx hulls
  obtain ⟨es', ha⟩ := pushArguments_paced ha ctx hulls
  refine ⟨es ++ (es' ++ []), fun fs height => ?_⟩
  refine .andThen (hc fs height) fun _ _ => .with_ (ha fs (height + 2)) ?_
  rintro _ rfl
  exact .opWith rfl rfl (callHeight height args.length)

theorem tailCall_paced : PacedReturn opts (callForm callee args .tailCall) := by
  intro ctx hulls
  obtain ⟨es, hc⟩ := hc ctx hulls
  obtain ⟨es', ha⟩ := pushArguments_paced ha ctx hulls
  refine ⟨es ++ (es' ++ []), fun fs => ?_⟩
  refine .andThen (hc fs 0) fun _ _ => .with_ (ha fs 2) ?_
  rintro _ rfl
  exact .leaveWith rfl rfl

end

/-- What is known of the parts of a property access. -/
def PacedAccess (opts : Choices) (member : Option (Emit ValueType × Key)) : Prop :=
  ∀ access ∈ member, PacedValue opts access.1 ∧ PacedKey opts access.2

section

variable {v : Emit Emitted} (hv : PacedExpr opts v)
  {member : Option (Emit ValueType × Key)} (hm : PacedAccess opts member)

include hv hm

theorem calleeForm_paced (name : Option String) :
    PacedCode opts (calleeForm name member v) 0 2 := by
  unfold calleeForm
  split
  · exact loadMethod_paced (hm _ rfl).1 (hm _ rfl).2
  · exact PacedPlain.code (loadCallee_paced _)
  · exact (storedOf_paced hv).then_ fun _ => .op rfl rfl

theorem deleteForm_paced (name : Option String) : PacedExpr opts (deleteForm name member v) := by
  unfold deleteForm
  split
  · exact fun _ _ => ⟨[], fun _ _ => .step (deleteName_paced _) fun _ _ =>
      .pure ⟨_, _, .value, rfl, rfl⟩⟩
  · intro ctx hulls
    obtain ⟨es, hd⟩ := deleteMember_paced (hm _ rfl).1 (hm _ rfl).2 ctx hulls
    exact ⟨es ++ [], fun fs height => .andThen (hd fs height) fun _ _ =>
      .pure ⟨_, _, .value, rfl, rfl⟩⟩
  · exact insteadOf_paced (valueOf_paced hv) rfl (fun _ => rfl) _

theorem unaryForm_paced (operator : UnaryOperator) (name : Option String) :
    PacedExpr opts (unaryForm operator name member v) := by
  cases operator with
  | minus => exact unaryOp_paced (valueOf_paced hv) rfl (fun _ => rfl) _
  | plus => exact unaryPlus_paced (valueOf_paced hv)
  | not | complement => exact unaryOp_paced (valueOf_paced hv) rfl (fun _ => rfl) _
  | typeOf =>
    cases name with
    | some name => exact fun _ _ => ⟨[], fun _ _ => .step (typeOfName_paced name) fun _ _ =>
        .pure ⟨_, _, .value, rfl, rfl⟩⟩
    | none => exact unaryOp_paced (valueOf_paced hv) rfl (fun _ => rfl) _
  | void => exact insteadOf_paced (valueOf_paced hv) rfl (fun _ => rfl) _
  | delete => exact deleteForm_paced hv hm name

end

section

variable {member : Option (Emit ValueType × Key)} (hm : PacedAccess opts member)

include hm

theorem assignFromStack_paced (name : Option String) :
    PacedCode opts (assignFromStack name member) 1 0 := by
  unfold assignFromStack
  split
  · exact PacedPlain.code (storeName_paced _)
  · exact storeMember_paced (hm _ rfl).1 (hm _ rfl).2
  · exact fun _ _ => ⟨[], fun _ _ => .throw rfl⟩

theorem updateForm_paced (operator : UpdateOperator) (leading : Bool) (name : Option String) :
    PacedExpr opts (updateForm operator leading name member) := by
  unfold updateForm
  split
  · exact updateName_paced _ _ _
  · exact updateMember_paced _ _ (memberOf_member (hm _ rfl).1 (hm _ rfl).2)
  · exact fun _ _ => ⟨[], fun _ _ => .throw rfl⟩

theorem assignForm_paced (operator : AssignOperator) (name : Option String) {v}
    (hv : PacedValue opts v) : PacedExpr opts (assignForm operator name member v) := by
  unfold assignForm
  split
  · exact assignName_paced _ _ hv
  · exact assignMember_paced _ (memberOf_member (hm _ rfl).1 (hm _ rfl).2) hv
  · exact fun _ _ => ⟨[], fun _ _ => .throw rfl⟩

end

/-- The code of an element of an array, or of a hole. -/
def elementOf : Option (Emit Emitted) → Emit Unit
  | some element => do let _ ← storedOf element
  | none => op .pushUndefined

theorem arrayForm_paced {elements} (h : ∀ element ∈ elements, ∀ v ∈ element, PacedExpr opts v) :
    PacedExpr opts (arrayForm elements) := by
  intro ctx hulls
  have hpush : ∀ element ∈ elements, PacedCode opts (elementOf element) 0 1 := by
    intro element hm
    cases element with
    | none => exact PacedPlain.code fun {_ _ _ _} => .op rfl rfl
    | some v => exact stored_paced (h _ hm v rfl)
  obtain ⟨es, he⟩ := each_paced elements hpush ctx hulls
  refine ⟨es ++ [], fun fs height => .andThen (he fs height) fun _ _ => ?_⟩
  have hcount : Instruction.after ⟨.newArray, some (.count elements.length)⟩
      (height + 1 * elements.length) = height + 1 := by
    change height + 1 * elements.length - elements.length + 1 = height + 1
    omega
  exact .step (.opWith rfl rfl hcount) fun _ _ => .pure ⟨_, _, .value, rfl, rfl⟩

theorem objectForm_paced {properties} (h : ∀ property ∈ properties, PacedCode opts property 1 1) :
    PacedExpr opts (objectForm properties) := by
  intro ctx hulls
  have hall : ∃ es, ∀ fs height, Pace opts ctx hulls es fs (up (height + 1))
      (properties.forM id) (properties.forM id) (Then fs (up (height + 1))) := by
    induction properties with
    | nil => exact ⟨[], fun _ _ => .pure ⟨rfl, rfl⟩⟩
    | cons property rest ih =>
      obtain ⟨es, hp⟩ := h property (.head _) ctx hulls
      obtain ⟨es', hr⟩ := ih fun later hm => h later (.tail _ hm)
      exact ⟨es ++ es', fun fs height =>
        .andThen (hp fs height) fun _ _ => hr fs height⟩
  obtain ⟨es, hall⟩ := hall
  refine ⟨es ++ [], fun fs height => .step (.op rfl rfl) fun _ _ => ?_⟩
  exact .andThen (hall fs height) fun _ _ => .pure ⟨_, _, .value, rfl, rfl⟩

theorem sequenceForm_paced : {vs : List (Emit Emitted)} →
    (∀ v ∈ vs, PacedExpr opts v) → PacedExpr opts (sequenceForm vs)
  | [], _ => fun _ _ => ⟨[], fun _ _ => .step (.op rfl rfl) fun _ _ => .pure ⟨_, _, .value, rfl, rfl⟩⟩
  | [last], h => by
    intro ctx hulls
    obtain ⟨es, hl⟩ := valueOf_paced (h last (.head _)) ctx hulls
    exact ⟨es ++ [], fun fs height =>
      .with_ (hl fs height) fun _ _ => .pure ⟨_, _, .value, rfl, rfl⟩⟩
  | v :: next :: rest, h => by
    intro ctx hulls
    obtain ⟨es, hv⟩ := valueOf_paced (h v (.head _)) ctx hulls
    obtain ⟨es', hr⟩ := sequenceForm_paced
      (fun later hm => h later (.tail _ hm)) ctx hulls
    exact ⟨es ++ es', fun fs height => .with_ (hv fs height) fun _ _ =>
      .step (.op rfl rfl) fun _ _ => hr fs height⟩

/-- Substitutions one after another. -/
theorem substitutions_paced (quasis : List String) : {vs : List (Emit Emitted × Nat)} →
    (∀ v ∈ vs, PacedExpr opts v.1) → ∀ ctx hulls, ∃ es, ∀ fs height,
    Pace opts ctx hulls es fs (up (height + 1))
      (forIn vs PUnit.unit fun v _ => do
        substitution (valueOf v.1) quasis[v.2 + 1]?
        return .yield PUnit.unit)
      (forIn vs PUnit.unit fun v _ => do
        substitution (valueOf v.1) quasis[v.2 + 1]?
        return .yield PUnit.unit)
      (Then fs (up (height + 1)))
  | [], _ => fun _ _ => ⟨[], fun _ _ => .pure ⟨rfl, rfl⟩⟩
  | v :: rest, h => by
    intro ctx hulls
    obtain ⟨es, hv⟩ := substitution_paced (valueOf_paced (h v (.head _)))
      quasis[v.2 + 1]? ctx hulls
    obtain ⟨es', hr⟩ := substitutions_paced quasis
      (fun later hm => h later (.tail _ hm)) ctx hulls
    refine ⟨es ++ es', fun fs height => ?_⟩
    rw [List.forIn_cons, bind_assoc]
    exact .andThen (hv fs height) fun _ _ => hr fs height

theorem templateForm_paced (quasis : List String) {vs} (h : ∀ v ∈ vs, PacedExpr opts v) :
    PacedExpr opts (templateForm quasis vs) := by
  intro ctx hulls
  obtain ⟨es, hs⟩ := substitutions_paced quasis
    (fun v hm => h v.1 (List.fst_mem_of_mem_zipIdx hm)) ctx hulls
  refine ⟨es ++ [], fun fs height => .step .pushString fun _ _ => ?_⟩
  exact .andThen (hs fs height) fun _ _ => .pure ⟨_, _, .value, rfl, rfl⟩

theorem keyOf_paced {σ : Type} (property : Expr σ) (computed : Bool) {code}
    (h : PacedExpr opts code) : PacedKey opts (keyOf property computed code) := by
  unfold keyOf
  split
  · trivial
  · exact valueOf_paced h

theorem openTest_paced {σ : Type} (test : Expr σ) {code : Emit Emitted}
    (h : PacedExpr opts code) : PacedTest opts (openTest test code) := by
  unfold openTest
  split
  · nofun
  · rintro _ ⟨⟩
    exact valueOf_paced h

theorem binaryForm_paced {σ : Type} (operator : BinaryOperator) (left right : Expr σ)
    {leftCode rightCode} (hl : PacedExpr opts leftCode) (hr : PacedExpr opts rightCode) :
    PacedExpr opts (binaryForm operator left right leftCode rightCode) := by
  cases operator with
  | add => exact addition_paced (valueOf_paced hl) (valueOf_paced hr) _ _
  | arithmetic operator => exact arithmetic_paced (valueOf_paced hl) (valueOf_paced hr) _ _
  | relation relation => exact relation_paced (storedOf_paced hl) (storedOf_paced hr) _

theorem closureForm_paced {template} (h : PacedTemplate opts template) : PacedExpr opts (do
      pushClosure (← template)
      return .value .object) :=
  fun _ _ => ⟨[], fun fs height => by
    rw [← bind_assoc]
    exact .step (closure_paced h) fun _ _ => .pure ⟨_, _, .value, rfl, rfl⟩⟩

theorem constructHeight (height count : Nat) :
    Instruction.after ⟨.construct, some (.argCount count)⟩ (height + 1 + count) = height + 1 := by
  change height + 1 + count - (count + 1) + 1 = height + 1
  omega

theorem computedProperty_paced {key v} (hk : PacedExpr opts key) (hv : PacedExpr opts v)
    : PacedCode opts (do
      let _ ← storedOf key
      let _ ← storedOf v
      op .defineComputed) 1 1 := by
  intro ctx hulls
  obtain ⟨es, hk⟩ := storedOf_paced hk ctx hulls
  obtain ⟨es', hv⟩ := storedOf_paced hv ctx hulls
  exact ⟨es ++ (es' ++ []), fun fs height => .with_ (hk fs (height + 1)) fun _ _ =>
    .with_ (hv fs (height + 2)) fun _ _ => .op rfl rfl⟩

theorem fixedProperty_paced {σ : Type} (key : Expr σ) {v} (hv : PacedExpr opts v)
    : PacedCode opts (do
      let name ← fixedKey key
      let _ ← storedOf v
      opName .defineField name) 1 1 := by
  intro ctx hulls
  obtain ⟨es, hv⟩ := storedOf_paced hv ctx hulls
  refine ⟨es ++ [], fun fs height => ?_⟩
  have hname : ∀ name, Pace opts ctx hulls (es ++ []) fs (up (height + 1))
      (do let _ ← storedOf v; opName .defineField name)
      (do let _ ← storedOf v; opName .defineField name) (Then fs (up (height + 1))) :=
    fun _ => .with_ (hv fs (height + 1)) fun _ _ => .opName rfl fun _ => rfl
  unfold fixedKey
  split
  · exact hname _
  · exact hname _
  · exact hname _
  · exact .throw rfl

theorem values_paced {v : Option (Emit Emitted)} (h : ∀ code ∈ v, PacedExpr opts code) :
    ∀ code ∈ v.map storedOf, PacedValue opts code := by
  cases v with
  | none => nofun
  | some v =>
    rintro _ ⟨⟩
    exact storedOf_paced (h v rfl)

theorem PacedCode.and {x y : Emit Unit} (hx : PacedCode opts x 0 0)
    (hy : PacedCode opts y 0 0) : PacedCode opts (do x; y) 0 0 := by
  intro ctx hulls
  obtain ⟨es, hx⟩ := hx ctx hulls
  obtain ⟨es', hy⟩ := hy ctx hulls
  exact ⟨es ++ es', fun fs height => .andThen (hx fs height) fun _ _ => hy fs height⟩

/-! ## Simple statements -/

theorem PacedCode.complete {x : Emit Unit} (h : PacedCode opts x 0 0) :
    PacedStmt opts (do x; return .normal) := by
  intro ctx hulls
  obtain ⟨es, h⟩ := h ctx hulls
  exact ⟨.normal, es ++ [], fun fs => .andThen (h fs 0) fun _ _ =>
    .pure ⟨rfl, rfl, rfl, rfl⟩⟩

theorem skip_paced : PacedStmt opts (return .normal) :=
  fun _ _ => ⟨.normal, [], fun _ => .pure ⟨rfl, rfl, rfl, rfl⟩⟩

theorem throw_paced {v : Emit ValueType} (h : PacedValue opts v) :
    PacedStmt opts (do
      let _ ← v
      op .throwValue
      return .throws) := by
  intro ctx hulls
  obtain ⟨es, h⟩ := h ctx hulls
  exact ⟨.throws, es ++ [], fun fs => .with_ (h fs 0) fun _ _ =>
    .step (.leave rfl) fun _ _ => .pure ⟨rfl, rfl, rfl, rfl⟩⟩

/-- An exit to a construct that is found from the constructs around. -/
theorem leave_to_paced {target : Emit Exit} {found : List Hull → Option Exit}
    (c : Completion) (ha : c.isAbrupt = true)
    (h : ∀ {ctx hulls fs here}, Pace opts ctx hulls [] fs here target target
      (Gives (fun exit => found hulls = some exit) fs here)) :
    PacedStmt opts (do
      exitTo (← target)
      return c) := by
  intro ctx hulls
  cases hf : found hulls with
  | none =>
    refine ⟨c, [], fun fs => .take h fun exit he => ?_⟩
    rw [hf] at he
    cases he
  | some exit =>
    refine ⟨c, [exit] ++ [], fun fs => .take h fun found he => ?_⟩
    rw [hf] at he
    cases he
    refine .andThen (exitTo_paced exit) fun _ _ => .pure ⟨rfl, rfl, rfl, ?_⟩
    rw [Completion.reach, ha, if_pos rfl]

/-! ## Keys of a switch -/

theorem switchKey?_pushes {test key} (h : switchKey? test = some key) :
    ∃ constant, key.Spells constant ∧ PushesConstant constant (storedOf (expr test)) := by
  unfold switchKey? at h
  split at h
  · obtain ⟨number, hn, rfl⟩ := Option.map_eq_some_iff.mp h
    exact ⟨_, .number hn, _, _, .pushConstant _, fun _ _ => rfl⟩
  · cases h
    exact ⟨_, .string, _, _, .addName _, fun _ _ => rfl⟩
  · cases h

/-- The keys of the clauses of a switch whose tests are all literals. -/
theorem keys_of_tests {σ : Type} : (cases : List (Case σ)) → (start : Nat) →
    {keys : List (SwitchKey × Nat)} → ((cases.zipIdx start).filterMap fun (clause, index) =>
      clause.test.map fun test => (test, index)).mapM (m := Option)
        (fun (test, index) => do return (← switchKey? test, index)) = some keys →
    (∀ clause ∈ cases, ∀ test ∈ clause.test, ∃ key, switchKey? test = some key) ∧
      keys = ((cases.map fun clause => clause.test.bind switchKey?).zipIdx start).filterMap
        fun clause => clause.1.map fun key => (key, clause.2)
  | [], start, keys, h => by
    cases h
    exact ⟨nofun, rfl⟩
  | ⟨none, body⟩ :: rest, start, keys, h => by
    obtain ⟨hr, hk⟩ := keys_of_tests rest (start + 1) h
    exact ⟨List.forall_mem_cons.mpr ⟨nofun, hr⟩, hk⟩
  | ⟨some test, body⟩ :: rest, start, keys, h => by
    simp only [List.zipIdx_cons, List.filterMap_cons, Option.map_some, List.mapM_cons] at h
    obtain ⟨first, hfirst, h⟩ := Option.bind_eq_some_iff.mp h
    obtain ⟨key, hkey, hfirst⟩ := Option.bind_eq_some_iff.mp hfirst
    obtain ⟨later, hlater, h⟩ := Option.bind_eq_some_iff.mp h
    cases hfirst
    cases h
    obtain ⟨hr, hk⟩ := keys_of_tests rest (start + 1) hlater
    refine ⟨List.forall_mem_cons.mpr ⟨?_, hr⟩, ?_⟩
    · rintro _ ⟨⟩
      exact ⟨key, hkey⟩
    · rw [List.map_cons, List.zipIdx_cons, List.filterMap_cons, hk]
      simp only [Option.bind_some, hkey, Option.map_some]

theorem SwitchKey.sameKind_trans {first key key'} (h : SwitchKey.sameKind first key = true)
    (h' : SwitchKey.sameKind first key' = true) : SwitchKey.sameKind key key' = true := by
  cases first <;> cases key <;> cases key' <;> first | rfl | contradiction

theorem clauses_spelt : {cases : List (Case (Option ScopeId))} →
    (∀ clause ∈ cases, ∀ test ∈ clause.test, ∃ key, switchKey? test = some key) →
    List.Forall₂ Clause.Spelt (clauses cases) (cases.map fun clause => clause.test.bind switchKey?)
  | [], _ => .nil
  | ⟨none, _⟩ :: _, h => .cons .default (clauses_spelt (List.forall_mem_cons.mp h).2)
  | ⟨some test, _⟩ :: _, h => by
    obtain ⟨first, rest⟩ := List.forall_mem_cons.mp h
    refine .cons ?_ (clauses_spelt rest)
    obtain ⟨key, hkey⟩ := first test rfl
    obtain ⟨constant, hspell, hpush⟩ := switchKey?_pushes hkey
    change Clause.Spelt _ (switchKey? test)
    rw [hkey]
    exact .case hspell hpush

theorem switchKeys?_ok {σ : Type} {cases : List (Case σ)} {keys} (h : switchKeys? cases = some keys) :
    (∀ clause ∈ cases, ∀ test ∈ clause.test, ∃ key, switchKey? test = some key) ∧
      keys = keyIndices (cases.map fun clause => clause.test.bind switchKey?) ∧
      ∀ key ∈ keys, ∀ key' ∈ keys, SwitchKey.sameKind key.1 key'.1 = true := by
  obtain ⟨found, hfound, h⟩ := Option.bind_eq_some_iff.mp h
  obtain ⟨htests, hkeys⟩ := keys_of_tests cases 0 hfound
  have hsame : keys = found ∧ ∀ key ∈ found, ∀ key' ∈ found,
      SwitchKey.sameKind key.1 key'.1 = true := by
    cases hf : found with
    | nil =>
      rw [hf] at h
      cases h
      exact ⟨rfl, nofun⟩
    | cons first rest =>
      rw [hf] at h
      dsimp only at h
      split at h
      case isTrue hall =>
        cases h
        have hall := List.all_eq_true.mp hall
        exact ⟨rfl, fun key hk key' hk' => SwitchKey.sameKind_trans (hall key hk) (hall key' hk')⟩
      case isFalse => cases h
  obtain ⟨rfl, huniform⟩ := hsame
  exact ⟨htests, hkeys, huniform⟩

theorem switchKeys?_keysOf {cases : List (Case (Option ScopeId))} {keys : List (SwitchKey × Nat)}
    (h : switchKeys? cases = some keys) : KeysOf (clauses cases) keys := by
  obtain ⟨htests, hkeys, huniform⟩ := switchKeys?_ok h
  exact ⟨⟨_, clauses_spelt htests, hkeys⟩, huniform⟩

/-! ## Trees -/

theorem hasRecord_of_opened {declared : List String} {opened : Option ScopeId}
    (h : Opened opts.scopes declared opened) : ∀ scope ∈ opened, opts.hasRecord scope := by
  obtain ⟨id, rfl, ho⟩ := h
  rintro _ ⟨⟩
  have hk := ho.kind
  unfold Choices.hasRecord Scope.materializes
  cases hs : (opts.scopes.scope id).kind <;> simp [hs] at hk ⊢

mutual

theorem expr_paced {whole : Bool} : {v : Expr (Option ScopeId)} →
    housedExpr opts.scopes whole v → PacedExpr opts (expr v)
  | .identifier _, _ => fun _ _ => ⟨[], fun _ _ =>
    .take .resolve fun _ _ => .pure ⟨_, _, .binding, rfl, rfl⟩⟩
  | .literal v, _ => literal_paced v
  | .template quasis _, h => templateForm_paced quasis (exprs_paced h)
  | .this, _ => fun _ _ => ⟨[], fun _ _ =>
    .step (.op rfl rfl) fun _ _ => .pure ⟨_, _, .value, rfl, rfl⟩⟩
  | .array _, h => arrayForm_paced (elements_paced h)
  | .object _, h => objectForm_paced (properties_paced h)
  | .function _, h | .arrow _, h => closureForm_paced (func_paced h)
  | .unary operator argument, h =>
    have h : housedExpr opts.scopes whole argument := h
    unaryForm_paced (expr_paced h) (member?_paced h) operator _
  | .update operator leading argument, h =>
    have h : housedExpr opts.scopes whole argument := h
    updateForm_paced (member?_paced h) operator leading _
  | .binary operator left right, h =>
    binaryForm_paced operator left right (expr_paced h.1) (expr_paced h.2)
  | .logical operator _ _, h =>
    logical_paced (storedOf_paced (expr_paced h.1)) (storedOf_paced (expr_paced h.2)) operator
  | .assign operator _ _, h =>
    assignForm_paced (member?_paced h.1) operator _ (storedOf_paced (expr_paced h.2))
  | .conditional _ _ _, h => conditional_paced (valueOf_paced (expr_paced h.1))
    (storedOf_paced (expr_paced h.2.1)) (storedOf_paced (expr_paced h.2.2))
  | .call _ _, h => by
    intro ctx hulls
    obtain ⟨es, hc⟩ := call_paced (calleeForm_paced (expr_paced h.1) (member?_paced h.1) _)
      (exprs_paced h.2) ctx hulls
    exact ⟨es ++ [], fun fs height => .andThen (hc fs height) fun _ _ =>
      .pure ⟨_, _, .value, rfl, rfl⟩⟩
  | .new _ args, h => by
    intro ctx hulls
    obtain ⟨es, hc⟩ := storedOf_paced (expr_paced h.1) ctx hulls
    obtain ⟨es', ha⟩ := pushArguments_paced (exprs_paced h.2) ctx hulls
    refine ⟨es ++ (es' ++ []), fun fs height => .with_ (hc fs height) fun _ _ =>
      .with_ (ha fs (height + 1)) ?_⟩
    rintro _ rfl
    exact .step (.opWith rfl rfl (constructHeight height _)) fun _ _ =>
      .pure ⟨_, _, .value, rfl, rfl⟩
  | .member _ property computed, h => (memberOf_member (storedOf_paced (expr_paced h.1))
    (keyOf_paced property computed (expr_paced h.2))).expr
  | .sequence _, h => sequenceForm_paced (exprs_paced h)
  | .yield argument delegate, h => yieldForm_paced delegate (values_paced (expr?_paced h))
  | .await _, h => awaitForm_paced (storedOf_paced (expr_paced h))

theorem member?_paced {whole v} (h : housedExpr opts.scopes whole v)
    : PacedAccess opts (member? v) := by
  cases v with
  | member _ property computed =>
    rintro _ ⟨⟩
    exact ⟨storedOf_paced (expr_paced h.1), keyOf_paced property computed (expr_paced h.2)⟩
  | _ => nofun

theorem tailCall?_paced {whole : Bool} {v : Expr (Option ScopeId)}
    (h : housedExpr opts.scopes whole v) : ∀ call ∈ tailCall? v, PacedReturn opts call := by
  cases v with
  | call =>
    rintro _ ⟨⟩
    exact tailCall_paced (calleeForm_paced (expr_paced h.1) (member?_paced h.1) _) (exprs_paced h.2)
  | _ => nofun

theorem expr?_paced {whole : Bool} : {v : Option (Expr (Option ScopeId))} →
    housedExpr? opts.scopes whole v → ∀ code ∈ expr? v, PacedExpr opts code
  | none, _ => nofun
  | some _, h => by
    rintro _ ⟨⟩
    exact expr_paced h

theorem exprs_paced {whole} : {vs : List (Expr (Option ScopeId))} →
    housedExprs opts.scopes whole vs → ∀ code ∈ exprs vs, PacedExpr opts code
  | [], _ => nofun
  | _ :: _, h => List.forall_mem_cons.mpr ⟨expr_paced h.1, exprs_paced h.2⟩

theorem elements_paced {whole} : {elements : List (Option (Expr (Option ScopeId)))} →
    housedElements opts.scopes whole elements →
    ∀ element ∈ exprs? elements, ∀ code ∈ element, PacedExpr opts code
  | [], _ => nofun
  | _ :: _, h => List.forall_mem_cons.mpr ⟨expr?_paced h.1, elements_paced h.2⟩

theorem properties_paced {whole} : {properties : List (Syntax.Property (Option ScopeId))} →
    housedProperties opts.scopes whole properties →
    ∀ code ∈ propertyForms properties, PacedCode opts code 1 1
  | [], _ => nofun
  | ⟨_, _, true⟩ :: _, h => List.forall_mem_cons.mpr
    ⟨computedProperty_paced (expr_paced h.1) (expr_paced h.2.1), properties_paced h.2.2⟩
  | ⟨key, _, false⟩ :: _, h => List.forall_mem_cons.mpr
    ⟨fixedProperty_paced key (expr_paced h.2.1), properties_paced h.2.2⟩

theorem func_paced {whole arrow} : {function : Func (Option ScopeId)} →
    housedFunc opts.scopes whole arrow function → PacedTemplate opts (func function)
  | ⟨none, _, _, _, _, _⟩, _ => fun _ _ _ => .error rfl
  | ⟨some id, name, params, _, isAsync, isGenerator⟩, h =>
    functionForm_paced (some id) name params isAsync isGenerator
      (bodyFunctions_paced (h.2 id rfl).2.2) (bodyCode_paced (h.2 id rfl).2.2)

theorem bodyFunctions_paced : {body : Body (Option ScopeId)} → housedBody opts.scopes body →
    ∀ function ∈ bodyFunctions body, PacedTemplate opts function.2
  | .block _, h => functions_paced h
  | .expression _, _ => nofun

theorem bodyCode_paced : {body : Body (Option ScopeId)} → housedBody opts.scopes body →
    PacedReturn opts (bodyCode body)
  | .block _, h => statementsBody_paced (inOrder_paced (stmts_paced h))
  | .expression _, h => returnOf_paced (storedOf_paced (expr_paced h)) (tailCall?_paced h)

theorem functions_paced : {statements : List (Stmt (Option ScopeId))} →
    housedStmts opts.scopes statements →
    ∀ function ∈ functions statements, PacedTemplate opts function.2
  | [], _ => nofun
  | _ :: _, h => List.forall_mem_append.mpr ⟨function?_paced h.1, functions_paced h.2⟩

theorem function?_paced {statement} (h : housedStmt opts.scopes statement) :
    ∀ function ∈ function? statement, PacedTemplate opts function.2 := by
  cases statement with
  | function function =>
    have hf : PacedTemplate opts (func function) := func_paced h
    obtain ⟨scope, name, params, body, isAsync, isGenerator⟩ := function
    cases name with
    | none => nofun
    | some name => exact List.forall_mem_singleton.mpr hf
  | labelled label body =>
    have h : housedStmt opts.scopes body := h
    rw [function?]
    exact function?_paced h
  | _ => nofun

theorem caseFunctions_paced : {cases : List (Case (Option ScopeId))} →
    housedCases opts.scopes cases → ∀ function ∈ caseFunctions cases, PacedTemplate opts function.2
  | [], _ => nofun
  | ⟨_, _⟩ :: _, h => List.forall_mem_append.mpr ⟨functions_paced h.2.1, caseFunctions_paced h.2.2⟩

theorem clauses_paced : {cases : List (Case (Option ScopeId))} →
    housedCases opts.scopes cases → ∀ clause ∈ clauses cases,
      (∀ test ∈ clause.test, PacedValue opts test) ∧ PacedStmt opts clause.body
  | [], _ => nofun
  | ⟨_, _⟩ :: _, h => List.forall_mem_cons.mpr
    ⟨⟨values_paced (expr?_paced h.1), inOrder_paced (stmts_paced h.2.1)⟩, clauses_paced h.2.2⟩

theorem declarators_paced (kind : VariableKind) :
    {declared : List (Declarator (Option ScopeId))} → housedDeclarators opts.scopes declared →
    PacedCode opts (declarators kind declared) 0 0
  | [], _ => PacedPlain.code fun {_ _ _ _} => .pure ⟨rfl, rfl⟩
  | ⟨name, _⟩ :: _, h =>
    (declaratorForm_paced kind name (values_paced (expr?_paced h.1))).and (declarators_paced kind h.2)

theorem declaration_paced : {declared : Declaration (Option ScopeId)} →
    housedDeclaration opts.scopes declared → PacedCode opts (declaration declared) 0 0
  | ⟨kind, _⟩, h => declarators_paced kind h

theorem block_paced : {body : Block (Option ScopeId)} → housedBlock opts.scopes body →
    PacedStmt opts (block body)
  | ⟨_, _⟩, h => blockForm_paced (hasRecord_of_opened h.1) (functions_paced h.2)
    (inOrder_paced (stmts_paced h.2))

theorem block?_paced : {body : Option (Block (Option ScopeId))} → housedBlock? opts.scopes body →
    ∀ code ∈ block? body, PacedStmt opts code
  | none, _ => nofun
  | some _, h => by
    rintro _ ⟨⟩
    exact block_paced h

theorem catch?_paced : {clause : Option (Catch (Option ScopeId))} →
    housedCatch? opts.scopes clause → ∀ code ∈ catch? clause, PacedCatch opts code
  | none, _ => nofun
  | some ⟨scope, _, _⟩, h => by
    rintro _ ⟨⟩
    exact catchForm_paced scope (block_paced h.2)

theorem headStart_paced : {head : Option (Head (Option ScopeId))} → housedHead? opts.scopes head →
    PacedCode opts (headStart head) 0 0
  | none, _ => PacedPlain.code fun {_ _ _ _} => .pure ⟨rfl, rfl⟩
  | some (.declaration _), h => declaration_paced h
  | some (.expression _), h => dropped_paced (storedOf_paced (expr_paced h))

theorem headAssign_paced : {head : Head (Option ScopeId)} → housedHead opts.scopes head →
    PacedCode opts (headAssign head) 1 0
  | .declaration ⟨_, []⟩, _ => fun _ _ => ⟨[], fun _ _ => .throw rfl⟩
  | .declaration ⟨_, first :: _⟩, _ => PacedPlain.code (storeName_paced first.name)
  | .expression _, h => assignFromStack_paced (member?_paced h) _

theorem stmt_paced : {statement : Stmt (Option ScopeId)} → housedStmt opts.scopes statement →
    (labels : List String) → PacedStmt opts (stmt statement labels)
  | .declare _, h, _ => (declaration_paced h).complete
  | .function _, _, _ => skip_paced
  | .expression _, h, _ => expressionForm_paced (storedOf_paced (expr_paced h))
  | .block _, h, _ => block_paced h
  | .ifElse _ _ _, h, _ =>
    ifForm_paced (valueOf_paced (expr_paced h.1)) (stmt_paced h.2.1 []) (stmt?_paced h.2.2)
  | .switchOn _ _ _, h, _ =>
    switchForm_paced (hasRecord_of_opened h.2.1) (storedOf_paced (expr_paced h.1))
      (caseFunctions_paced h.2.2) (fun clause hm => (clauses_paced h.2.2 clause hm).1)
      (fun clause hm => (clauses_paced h.2.2 clause hm).2) fun _ hk => switchKeys?_keysOf hk
  | .whileDo test _, h, labels =>
    whileForm_paced labels (openTest_paced test (expr_paced h.1)) (stmt_paced h.2 [])
  | .doWhile _ test, h, labels =>
    doWhileForm_paced labels (openTest_paced test (expr_paced h.2)) (stmt_paced h.1 [])
  | .forLoop scope init _ _ _, h, labels =>
    forForm_paced labels scope (declaresLet init) (headStart_paced h.2.1) (openTest?_paced h.2.2.1)
      (values_paced (expr?_paced h.2.2.2.1)) (stmt_paced h.2.2.2.2 [])
  | .forIn scope _ _ _, h, labels =>
    forEachForm_paced labels scope false (storedOf_paced (expr_paced h.1))
      (headAssign_paced h.2.2.1) (stmt_paced h.2.2.2 [])
  | .forOf scope _ _ _, h, labels =>
    forEachForm_paced labels scope true (storedOf_paced (expr_paced h.1))
      (headAssign_paced h.2.2.1) (stmt_paced h.2.2.2 [])
  | .returnValue none, _, _ => returnForm_paced nofun
  | .returnValue (some _), h, _ => returnForm_paced (by
    rintro _ ⟨⟩
    exact returnOf_paced (storedOf_paced (expr_paced h)) (tailCall?_paced h))
  | .breakTo label, _, _ => leave_to_paced .breaks rfl (breakTarget_paced label)
  | .continueTo label, _, _ => leave_to_paced .continues rfl (continueTarget_paced label)
  | .throwValue _, h, _ => throw_paced (storedOf_paced (expr_paced h))
  | .tryBlock _ _ _, h, _ =>
    tryForm_paced (block_paced h.1) (catch?_paced h.2.1) (block?_paced h.2.2)
  | .withObject scope _ _, h, _ =>
    withForm_paced scope (storedOf_paced (expr_paced h.1)) (stmt_paced h.2.2 [])
  | .labelled label body, h, labels => by
    have h : housedStmt opts.scopes body := h
    rw [stmt]
    split
    · exact stmt_paced h (labels ++ [label])
    · exact labelledForm_paced _ (stmt_paced h [])
  | .debugger, _, _ => PacedCode.complete (PacedPlain.code fun {_ _ _ _} => .op rfl rfl)
  | .empty, _, _ => skip_paced

theorem stmt?_paced : {statement : Option (Stmt (Option ScopeId))} →
    housedStmt? opts.scopes statement → ∀ code ∈ stmt? statement, PacedStmt opts code
  | none, _ => nofun
  | some _, h => by
    rintro _ ⟨⟩
    exact stmt_paced h []

theorem openTest?_paced : {test : Option (Expr (Option ScopeId))} →
    housedExpr? opts.scopes true test → PacedTest opts (openTest? test)
  | none, _ => nofun
  | some test, h => openTest_paced test (expr_paced h)

theorem stmts_paced : {statements : List (Stmt (Option ScopeId))} →
    housedStmts opts.scopes statements → ∀ code ∈ stmts statements, PacedStmt opts code
  | [], _ => nofun
  | _ :: _, h => List.forall_mem_cons.mpr ⟨stmt_paced h.1 [], stmts_paced h.2⟩

end

/-! ## Programs -/

theorem function?_name : {statement : Stmt (Option ScopeId)} → ∀ function ∈ function? statement,
    ((Scope.functionOf? statement).bind Func.name) = some function.1
  | .function ⟨_, some _, _, _, _, _⟩ => List.forall_mem_singleton.mpr rfl
  | .function ⟨_, none, _, _, _, _⟩ => nofun
  | .labelled _ body => by
    rw [function?]
    exact @function?_name body
  | .declare _ | .expression _ | .block _ | .ifElse _ _ _ | .switchOn _ _ _ | .whileDo _ _
  | .doWhile _ _ | .forLoop _ _ _ _ _ | .forIn _ _ _ _ | .forOf _ _ _ _ | .returnValue _
  | .breakTo _ | .continueTo _ | .throwValue _ | .tryBlock _ _ _ | .withObject _ _ _ | .debugger
  | .empty => nofun

theorem functions_names : (statements : List (Stmt (Option ScopeId))) →
    ∀ function ∈ functions statements, function.1 ∈ functionNamesOf statements
  | [] => nofun
  | statement :: rest => by
    have hcons : functionNamesOf (statement :: rest) =
        ((Scope.functionOf? statement).bind Func.name).toList ++ functionNamesOf rest := by
      unfold functionNamesOf Scope.functionsDeclared
      cases h : Scope.functionOf? statement with
      | none => simp [h]
      | some function => cases hn : function.name <;> simp [h, hn]
    rw [hcons]
    refine List.forall_mem_append.mpr ⟨fun function hm => ?_, fun function hm => ?_⟩
    · rw [function?_name function hm]
      exact List.mem_append_left _ (List.mem_singleton_self _)
    · exact List.mem_append_right _ (functions_names rest function hm)

theorem template_inStep {σ : Type} {program : Program σ} {analysed : Scope.Analysed}
    (h : Scope.Houses program analysed) (hscopes : opts.scopes = analysed.scopes) :
    Templates opts.room (template opts.one analysed) (template opts.other analysed) := by
  have hhoused := h.housed
  rw [← hscopes] at hhoused
  have hapart : ∀ lexical ∈ Scope.lexicalsDeclared analysed.program.body, lexical.name ∉
      Scope.varDeclared analysed.program.body ++ functionNamesOf analysed.program.body := by
    rw [Scope.lexicals_of_bare h.body, Scope.vars_of_bare h.body,
      Scope.functionNames_of_bare h.body]
    exact h.apart
  exact template_paced hscopes (functions_paced hhoused) (functions_names _) hapart
    (inOrder_paced (stmts_paced hhoused))

theorem finish_kind {name paramCount em template} (h : finish ctx name paramCount em = .ok template)
    : template.kind = ctx.kind := by
  unfold finish at h
  dsimp only at h
  split at h
  · cases h
    rfl
  · cases h

theorem template_kind {options analysed made} (h : template options analysed = .ok made)
    (hg : analysed.program.goal = .script) : made.kind = .script := by
  unfold template at h
  dsimp only at h
  rw [hg] at h
  obtain ⟨⟨_, em⟩, _, h⟩ := except_bind_ok.mp h
  exact finish_kind h

/-- Under two choices of options a program is refused alike, or its codes are in step. -/
theorem compile_inStep {σ : Type} (program : Program σ) {options options' : Options} {room : Nat}
    (ht : options.tailCalls = options'.tailCalls) (hd : 1 ≤ room)
    (hs : options.switchMinCases = options'.switchMinCases ∨ 2 ≤ room) :
    CompiledInStep room (compile options program) (compile options' program) := by
  unfold compile
  cases ha : Scope.analyse program with
  | error error => exact .error
  | ok analysed =>
    have houses := Scope.analyse_houses ha
    let opts : Choices := ⟨analysed.scopes, options, options', room, ht, hd, hs⟩
    have hin : Templates room (template options analysed) (template options' analysed) :=
      @template_inStep opts _ _ _ houses rfl
    have hkind := fun made => @template_kind options analysed made
    dsimp only
    generalize template options analysed = one at hin hkind ⊢
    generalize template options' analysed = other at hin ⊢
    cases hin with
    | error => exact .error
    | ok hin => exact .ok ⟨hin, rfl, rfl, fun hg => hkind _ rfl (houses.goal.trans hg)⟩

end Ecma.Compile
