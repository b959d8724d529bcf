/-
Declarations of a block at one pace. One code may have them in line where the other calls a unit
apart: both declare the same names, in the same order, and make the same functions.
-/
import Ecma.Proofs.Options.Finalizers

namespace Ecma.Compile

open Code (Instruction Constant Template InStep Declares)

variable {opts : Choices} {ctx : Context} {hulls : List Hull} {es : List Exit}
  {fs fs' : List Fact} {here here' : Option Shape}
  {fns : List (String × Emit Template)} {scope : ScopeId}

/-! ## Functions -/

/-- The templates of a function are in step, or it fails for the same reason. -/
def PacedTemplate (opts : Choices) (x : Emit Template) : Prop :=
  ∀ ctx one other, Made (fun template template' one' other' =>
      InStep opts.room template template' ∧ one' = one ∧ other' = other)
    (x (opts.first ctx) one) (x (opts.second ctx) other)

theorem PacedTemplate.pace {x} (h : PacedTemplate opts x) :
    Pace opts ctx hulls [] fs here x x fun template template' fs' here' =>
      InStep opts.room template template' ∧ fs' = fs ∧ here' = here := by
  intro cs one other hh hs
  have h := h ctx one other
  generalize x (opts.first ctx) one = first at h ⊢
  generalize x (opts.second ctx) other = second at h ⊢
  cases h with
  | error he => exact .error he
  | ok h =>
    obtain ⟨ht, rfl, rfl⟩ := h
    exact .ok ⟨fs, here, cs, ⟨ht, rfl, rfl⟩, .refl cs, hs⟩

/-- The closure of a function is pushed. -/
theorem closure_paced {template} (h : PacedTemplate opts template) {height scene}
    : Pace opts ctx hulls [] fs (some ⟨height, scene⟩)
      (template >>= pushClosure) (template >>= pushClosure)
      (Then fs (some ⟨height + 1, scene⟩)) := by
  refine .lead h.pace ?_
  rintro a b _ _ ⟨ht, rfl, rfl⟩
  exact .pushClosure ht

/-! ## Declarations as they are written -/

/-- An emitter after instructions were added, with their constants and functions. -/
structure Wrote (em after : Emitter) (written : List Instruction) : Prop where
  instructions : after.draft.instructions.toList = em.draft.instructions.toList ++ written
  constants : em.draft.constants.toList <+: after.draft.constants.toList
  functions : em.draft.functions.size ≤ after.draft.functions.size
  labels : after.draft.labels = em.draft.labels
  resume : after.draft.resume = em.draft.resume
  units : after.draft.units = em.draft.units
  tables : after.draft.tables = em.draft.tables
  handlers : after.draft.handlers = em.draft.handlers
  registers : after.draft.registers = em.draft.registers
  returnRegister : after.returnRegister = em.returnRegister
  control : after.control = em.control
  apart : after.apart = em.apart

/-- A constant at its index in the drafts of two emitters. -/
def Shared (one other : Emitter) (a b : Nat) (constant : Constant) : Prop :=
  one.draft.constants[a]? = some constant ∧ other.draft.constants[b]? = some constant

/-- Both emitters have written declarations that take a record from one count of bindings to
another. -/
structure Declaring (count count' : Nat) (one other one' other' : Emitter)
    (first second : List Instruction) : Prop where
  one : Wrote one one' first
  other : Wrote other other' second
  grows : count' ≤ count + first.length
  declares : ∀ {share : Nat → Nat → Constant → Prop} {fns rest rest'},
    (∀ {a b constant}, Shared one' other' a b constant → share a b constant) →
    one'.draft.functions.size ≤ fns → Declares share fns count' rest rest' →
    Declares share fns count (first ++ rest) (second ++ rest')

/-- Code that writes declarations, on two emitters whose functions are in step. -/
def WritesDeclarations (opts : Choices) (ctx : Context) (count count' : Nat) (x : Emit Unit) :
    Prop :=
  ∀ one other, List.Forall₂ (InStep opts.room) one.draft.functions.toList
      other.draft.functions.toList →
    Made (fun _ _ one' other' => List.Forall₂ (InStep opts.room) one'.draft.functions.toList
        other'.draft.functions.toList ∧
        ∃ first second, Declaring count count' one other one' other' first second)
      (x (opts.first ctx) one) (x (opts.second ctx) other)

namespace Wrote

variable {em after last : Emitter} {written written' : List Instruction}

theorem refl (em : Emitter) : Wrote em em [] :=
  ⟨(List.append_nil _).symm, List.prefix_rfl, Nat.le_refl _, rfl, rfl, rfl, rfl, rfl, rfl, rfl, rfl,
    rfl⟩

theorem trans (h : Wrote em after written) (h' : Wrote after last written') :
    Wrote em last (written ++ written') where
  instructions := by rw [h'.instructions, h.instructions, List.append_assoc]
  constants := h.constants.trans h'.constants
  functions := Nat.le_trans h.functions h'.functions
  labels := h'.labels.trans h.labels
  resume := h'.resume.trans h.resume
  units := h'.units.trans h.units
  tables := h'.tables.trans h.tables
  handlers := h'.handlers.trans h.handlers
  registers := h'.registers.trans h.registers
  returnRegister := h'.returnRegister.trans h.returnRegister
  control := h'.control.trans h.control
  apart := h'.apart.trans h.apart

theorem emit (em : Emitter) (instr : Instruction) : Wrote em (em.emit instr) [instr] :=
  ⟨Array.toList_push, List.prefix_rfl, Nat.le_refl _, rfl, rfl, rfl, rfl, rfl, rfl, rfl, rfl, rfl⟩

/-- A constant is looked up or added. -/
theorem entering {constant f} (hf : Enters constant f) (em : Emitter)
    : Wrote em { em with draft := (f em.draft).2 } [] := by
  have hs := hf.still em
  have ht := hf.stores em
  refine ⟨?_, hs.constants, hs.functions, hs.labels, hs.resume, hs.units, hs.tables, ht.handlers,
    ht.registers, ht.returnRegister, rfl, rfl⟩
  rw [List.append_nil]
  exact congrArg Array.toList hs.instructions

theorem position (h : Wrote em after written) : after.position = em.position + written.length := by
  have hl := congrArg List.length h.instructions
  rwa [List.length_append, Array.length_toList, Array.length_toList] at hl

theorem extended (h : Wrote em after written) : em.Extends after :=
  ⟨⟨written, h.instructions.symm⟩, h.constants, h.functions, h.resume ▸ List.prefix_rfl,
    h.tables ▸ List.prefix_rfl, h.apart ▸ List.prefix_rfl⟩

theorem getElem? (h : Wrote em after written) (index : Nat) :
    after.draft.instructions[em.position + index]? = written[index]? := by
  rw [← Array.getElem?_toList, h.instructions,
    List.getElem?_append_right (by simp [Emitter.position, Code.Draft.position])]
  simp [Emitter.position, Code.Draft.position]

theorem side (h : Wrote em after written) {marked known} (hs : em.Side marked known)
    (hk : ∀ instr ∈ written, ∀ label, instr.operand = some (.label label) → known label) :
    after.Side marked known := by
  refine hs.grow (fun _ => id) ⟨h.labels, h.units, h.apart, ?_, ?_, ?_⟩
  · rw [h.resume]
    exact fun _ => .inl
  · intro instr hm
    rw [h.instructions, List.mem_append] at hm
    exact hm.imp_right fun hm label he => hk instr hm label he
  · rw [h.tables]
    exact fun _ => .inl

end Wrote

/-- An emitter after the closure of a function. -/
def Emitter.storing (em : Emitter) (code : Template) : Emitter :=
  let draft := (em.draft.addFunction code).2
  { em with draft := draft.emit ⟨.closure, some (.function em.draft.functions.size)⟩ }

theorem Wrote.storing (em : Emitter) (code : Template) : Wrote em (em.storing code)
    [⟨.closure, some (.function em.draft.functions.size)⟩] := by
  refine ⟨Array.toList_push, List.prefix_rfl, ?_, rfl, rfl, rfl, rfl, rfl, rfl, rfl, rfl, rfl⟩
  simp [Emitter.storing, Code.Draft.emit, Code.Draft.addFunction]

theorem functions_naming (em : Emitter) (name : String) :
    (em.naming name).draft.functions = em.draft.functions :=
  ((Enters.addName name).stores em).functions

theorem Shared.wrote {one other one' other' first second} (hone : Wrote one one' first)
    (hother : Wrote other other' second) {a b constant} (h : Shared one other a b constant)
    : Shared one' other' a b constant :=
  ⟨getElem?_of_leading hone.constants h.1, getElem?_of_leading hother.constants h.2⟩

theorem initializeIn_eq (scope : ScopeId) (name : String) (options : Options) (em : Emitter) :
    initializeIn scope name (opts.under options ctx) em =
      match (opts.scopes.scope scope).slotOf? name with
      | some slot => .ok ((), em.emit ⟨.initializeBinding, some (.slot 0 slot)⟩)
      | none => .error (.notDeclared name) := by
  change (match (opts.scopes.scope scope).slotOf? name with
    | some slot => initializeSlot slot
    | none => throw (.notDeclared name) : Emit Unit) _ em = _
  cases (opts.scopes.scope scope).slotOf? name <;> rfl

namespace WritesDeclarations

variable {count count' count'' : Nat} {x : Emit Unit}

theorem pure : WritesDeclarations opts ctx count count (Pure.pure ()) :=
  fun one other hf => .ok ⟨hf, [], [], .refl one, .refl other, Nat.le_refl _, fun _ _ h => h⟩

theorem bind {k} (hx : WritesDeclarations opts ctx count count' x)
    (hk : ∀ u, WritesDeclarations opts ctx count' count'' (k u)) :
    WritesDeclarations opts ctx count count'' (x >>= k) := by
  intro one other hf
  have hx := hx one other hf
  change Made _ (x _ one >>= fun p => k p.1 _ p.2) (x _ other >>= fun p => k p.1 _ p.2)
  generalize x (opts.first ctx) one = first at hx
  generalize x (opts.second ctx) other = second at hx
  cases hx with
  | error he => exact .error he
  | @ok _ _ one' other' hx =>
    obtain ⟨hf, first, second, hx⟩ := hx
    have hk := hk () one' other' hf
    change Made _ (k () _ one') (k () _ other')
    generalize k () (opts.first ctx) one' = left at hk
    generalize k () (opts.second ctx) other' = right at hk
    cases hk with
    | error he => exact .error he
    | ok hk =>
      obtain ⟨hf, first', second', hk⟩ := hk
      refine .ok ⟨hf, first ++ first', second ++ second', hx.one.trans hk.one,
        hx.other.trans hk.other, ?_, fun hs hn h => ?_⟩
      · have := hx.grows
        have := hk.grows
        rw [List.length_append]
        omega
      rw [List.append_assoc, List.append_assoc]
      exact hx.declares (fun hc => hs (hc.wrote hk.one hk.other)) (Nat.le_trans hk.one.functions hn)
        (hk.declares hs hn h)

/-- A binding is written. -/
theorem opBinding {o} (ho : o.binds = true) (name : String) (flag : Bool) :
    WritesDeclarations opts ctx count (count + 1) (opBinding o name flag) := by
  intro one other hf
  let instr := fun em : Emitter =>
    (⟨o, some (.binding (em.draft.addName name).1 flag)⟩ : Instruction)
  have wrote : ∀ em : Emitter, Wrote em ((em.naming name).emit (instr em)) [instr em] :=
    fun em => (Wrote.entering (.addName name) em).trans (.emit _ _)
  change Made _ (.ok ((), (one.naming name).emit (instr one)))
    (.ok ((), (other.naming name).emit (instr other)))
  have hshared : Shared ((one.naming name).emit (instr one))
      ((other.naming name).emit (instr other)) (one.draft.addName name).1
      (other.draft.addName name).1 (.string name) :=
    ⟨(Enters.addName name).found one.draft, (Enters.addName name).found other.draft⟩
  refine .ok ⟨?_, _, _, wrote one, wrote other, Nat.le_refl _, fun hs _ h => .bind ho (hs hshared) h⟩
  change List.Forall₂ _ (one.naming name).draft.functions.toList
    (other.naming name).draft.functions.toList
  rwa [functions_naming, functions_naming]

theorem createBinding (binding : Binding) :
    WritesDeclarations opts ctx count (count + 1) (createBinding binding) := by
  obtain ⟨name, kind⟩ := binding
  cases kind with
  | arguments =>
    have h : ∀ strict : Bool, WritesDeclarations opts ctx count (count + 1)
        (if strict then Compile.opBinding .createImmutableBinding name true
          else Compile.opBinding .createMutableBinding name false) := by
      rintro (_ | _) <;> exact opBinding rfl name _
    exact h ctx.strict
  | _ => exact opBinding rfl name _

theorem bindings (bindings : List Binding) (count : Nat) :
    WritesDeclarations opts ctx count (count + bindings.length)
      (bindings.forM Compile.createBinding) := by
  induction bindings generalizing count with
  | nil => exact pure
  | cons binding rest ih =>
    rw [List.length_cons, Nat.add_comm rest.length, ← Nat.add_assoc]
    exact bind (createBinding binding) fun _ => ih (count + 1)

theorem function {template} (ht : PacedTemplate opts template) (scope : ScopeId) (name : String)
    (hc : ∀ slot, (opts.scopes.scope scope).slotOf? name = some slot →
      slot < count) : WritesDeclarations opts ctx count count (do
      pushClosure (← template)
      initializeIn scope name) := by
  intro one other hf
  have ht := ht ctx one other
  change Made _ (template _ one >>= fun p => (pushClosure p.1 >>= fun _ => initializeIn scope name)
    _ p.2) (template _ other >>= fun p => (pushClosure p.1 >>= fun _ => initializeIn scope name)
    _ p.2)
  generalize template (opts.first ctx) one = first at ht
  generalize template (opts.second ctx) other = second at ht
  cases ht with
  | error he => exact .error he
  | @ok code code' one other ht =>
    obtain ⟨ht, rfl, rfl⟩ := ht
    have hsize : one.draft.functions.size = other.draft.functions.size := by simpa using hf.length_eq
    change Made _ (initializeIn scope name _ (one.storing code))
      (initializeIn scope name _ (other.storing code'))
    rw [initializeIn_eq, initializeIn_eq]
    cases hslot : (opts.scopes.scope scope).slotOf? name with
    | none => exact .error rfl
    | some slot =>
      refine .ok ⟨?_, _, _, (Wrote.storing one code).trans (.emit _ _),
        (Wrote.storing other code').trans (.emit _ _), Nat.le_add_right .., fun _ hn h => ?_⟩
      · simpa [Emitter.storing, Emitter.emit, Code.Draft.emit, Code.Draft.addFunction] using
          List.rel_append hf (.cons ht .nil)
      · rw [hsize]
        refine .function (Nat.lt_of_lt_of_le ?_ hn) (hc slot hslot) h
        simp [Emitter.storing, Emitter.emit, Code.Draft.emit, Code.Draft.addFunction, hsize]

theorem hoisted (scope : ScopeId)
    (hf : ∀ fn ∈ fns, PacedTemplate opts fn.2)
    (hc : ∀ name slot, (opts.scopes.scope scope).slotOf? name = some slot → slot < count) :
    WritesDeclarations opts ctx count count (fns.forM fun (name, template) => do
      pushClosure (← template)
      initializeIn scope name) := by
  induction fns with
  | nil => exact pure
  | cons fn rest ih =>
    exact bind (.function (hf fn (.head _)) scope fn.1 (hc fn.1))
      fun _ => ih fun fn hm => hf fn (.tail _ hm)

end WritesDeclarations

/-- The declarations of a block. -/
def declarations (scope : ScopeId) (fns : List (String × Emit Template)) : Emit Unit := do
  createBindings scope
  hoist scope fns

/-- Nothing is kept that was not there. -/
theorem mem_of_mem_kept {α : Type} (drops : List α → α → Bool) {x} {xs kept : List α}
    (h : x ∈ xs.foldl (fun kept y => if drops kept y then kept else kept ++ [y]) kept) :
    x ∈ kept ∨ x ∈ xs := by
  induction xs generalizing kept with
  | nil => exact .inl h
  | cons first rest ih =>
    obtain h | h := ih h
    · dsimp only at h
      split at h
      · exact .inl h
      · rw [List.mem_append, List.mem_singleton] at h
        obtain h | rfl := h
        · exact .inl h
        · exact .inr (.head _)
    · exact .inr (.tail _ h)

theorem mem_declaredFunctions {fn : String × Emit Template} (h : fn ∈ declaredFunctions fns) :
    fn ∈ fns := by
  let drops := fun (kept : List (String × Emit Template)) (fn : String × Emit Template) =>
    kept.any (·.1 == fn.1)
  obtain h | h := mem_of_mem_kept drops h
  · cases h
  · exact List.mem_reverse.mp h

theorem declarations_write (scope : ScopeId) (hf : ∀ fn ∈ fns, PacedTemplate opts fn.2) :
    WritesDeclarations opts ctx 0 (opts.scopes.scope scope).bindings.length
      (declarations scope fns) := by
  refine .bind ?_ fun _ => .hoisted scope (fun fn hm => hf fn (mem_declaredFunctions hm))
    fun name slot hslot => ?_
  · have h := @WritesDeclarations.bindings opts ctx (opts.scopes.scope scope).bindings 0
    rw [Nat.zero_add] at h
    exact h
  · exact (List.findIdx?_eq_some_iff_getElem.mp hslot).1

/-! ## In line or apart -/

/-- An emitter after declarations, which stand in line or in a unit apart. -/
structure Declared (em after : Emitter) (written : List Instruction) : Prop where
  extended : em.Extends after
  stands : after.Stands em.position written after.position
  further : em.position < after.position
  labels : ∀ {label position : Nat}, em.draft.labels[label]? = some (some position) →
    after.draft.labels[label]? = some (some position)
  side : ∀ {marked known}, em.Side marked known → after.Side marked known
  handlers : after.draft.handlers = em.draft.handlers
  registers : after.draft.registers = em.draft.registers
  resume : after.draft.resume = em.draft.resume
  returnRegister : after.returnRegister = em.returnRegister
  control : after.control = em.control

theorem declares_not_label {share fns count first second}
    (h : Declares share fns count first second) :
    (∀ instr ∈ first, ∀ label, instr.operand ≠ some (.label label)) ∧
      ∀ instr ∈ second, ∀ label, instr.operand ≠ some (.label label) := by
  induction h with
  | done => exact ⟨nofun, nofun⟩
  | bind _ _ _ ih | function _ _ _ ih => simpa using ih

theorem Wrote.declared {em after written} (h : Wrote em after written) (hne : written ≠ [])
    (hl : ∀ instr ∈ written, ∀ label, instr.operand ≠ some (.label label)) :
    Declared em after written := by
  have hposition := h.position
  refine ⟨h.extended, ?_, ?_, fun hp => h.labels ▸ hp,
    fun hs => h.side hs fun i hi l he => absurd he (hl i hi l), h.handlers, h.registers, h.resume,
    h.returnRegister, h.control⟩
  · rw [hposition]
    exact .inline fun index _ => h.getElem? index
  · have := List.length_pos_iff.mpr hne
    omega

/-- An emitter that calls a unit apart. -/
def Emitter.calling (em : Emitter) : Emitter :=
  let (unit, draft) := em.draft.newLabel.2.addUnit em.nextLabel
  { em with draft := draft.emit ⟨.callUnit, some (.unit unit)⟩ }

/-- An emitter whose unit apart was written. -/
def Emitter.movingApart (em after : Emitter) (written : List Instruction) : Emitter :=
  { after with
    draft := { after.draft with instructions := em.calling.draft.instructions }
    apart := after.apart ++ [(em.nextLabel, written ++ [⟨.returnUnit, none⟩])] }

theorem apart_eq {x ctx em after written} (hx : x ctx em.calling = .ok ((), after))
    (h : Wrote em.calling after written) :
    apart x ctx em = .ok ((), em.movingApart after written) := by
  change (x ctx em.calling >>= fun r => Except.ok ((),
    let instructions := r.2.draft.instructions.push ⟨.returnUnit, none⟩
    { r.2 with
      draft := { r.2.draft with
        instructions := instructions.extract 0 em.calling.position }
      apart := r.2.apart ++ [(em.nextLabel,
        (instructions.extract em.calling.position instructions.size).toList)] })) = _
  rw [hx]
  change Except.ok _ = Except.ok _
  have hfirst : (after.draft.instructions.push ⟨.returnUnit, none⟩).extract 0
      em.calling.position = em.calling.draft.instructions := by
    apply Array.toList_inj.mp
    simp [h.instructions, Emitter.position, Code.Draft.position]
  have hsecond : ((after.draft.instructions.push ⟨.returnUnit, none⟩).extract
      em.calling.position (after.draft.instructions.push ⟨.returnUnit, none⟩).size).toList =
        written ++ [⟨.returnUnit, none⟩] := by
    have hsize : after.draft.instructions.size =
        em.calling.draft.instructions.size + written.length := h.position
    rw [Array.toList_extract, Array.toList_push, h.instructions, List.append_assoc]
    simp only [List.extract_eq_take_drop, Emitter.position, Code.Draft.position,
      ← Array.length_toList, List.drop_left]
    exact List.take_of_length_le (by simp [hsize]; omega)
  simp only [hfirst, hsecond]
  rfl

theorem Wrote.declared_apart {em after written} (h : Wrote em.calling after written)
    (hu : em.draft.units.toList = em.apart.map Prod.fst)
    (hl : ∀ instr ∈ written, ∀ label, instr.operand ≠ some (.label label)) :
    Declared em (em.movingApart after written) written := by
  have hposition : (em.movingApart after written).position = em.position + 1 := by
    simp [Emitter.movingApart, Emitter.calling, Emitter.position, Code.Draft.position,
      Code.Draft.emit, Code.Draft.addUnit, Code.Draft.newLabel]
  refine ⟨⟨?_, ?_, ?_, ?_, ?_, ?_⟩, ?_, ?_, ?_, ?_, h.handlers, h.registers, h.resume,
    h.returnRegister, h.control⟩
  · simp [Emitter.movingApart, Emitter.calling, Code.Draft.emit, Code.Draft.addUnit, Code.Draft.newLabel]
  · exact h.constants
  · exact h.functions
  · exact h.resume ▸ List.prefix_rfl
  · exact h.tables ▸ List.prefix_rfl
  · exact h.apart ▸ List.prefix_append ..
  · rw [hposition]
    refine @Emitter.Stands.apart _ _ _ em.draft.units.size em.nextLabel ?_ ?_
    · simp [Emitter.movingApart, Emitter.calling, Emitter.position, Code.Draft.position,
        Code.Draft.emit, Code.Draft.addUnit, Code.Draft.newLabel]
    · have hsize : em.draft.units.size = em.apart.length := by
        simpa using congrArg List.length hu
      have hapart : after.apart = em.apart := h.apart
      simp [Emitter.movingApart, hapart, hsize]
  · omega
  · intro label position hp
    change after.draft.labels[label]? = _
    rw [h.labels]
    exact Emitter.labels_label_of_placed hp
  · intro marked known hs
    have hapart : (em.movingApart after written).apart.map Prod.fst =
        em.apart.map Prod.fst ++ [em.nextLabel] := by
      simp [Emitter.movingApart, h.apart, Emitter.calling]
    have hlabel := hs.label
    have hperm : (marked ++ (em.movingApart after written).apart.map Prod.fst).Perm
        (em.nextLabel :: marked ++ em.apart.map Prod.fst) := by
      rw [hapart, ← List.append_assoc]
      exact List.perm_append_singleton ..
    refine ⟨hperm.nodup_iff.mpr hlabel.fresh, fun label hm => ?_, ?_, fun i hi l he => ?_, ?_, ?_, ?_⟩
    · change after.draft.labels[label]? = _
      rw [h.labels]
      exact hlabel.unplaced label (hperm.subset hm)
    · rw [hapart, ← hu]
      change after.draft.units.toList = _
      rw [h.units]
      exact Array.toList_push
    · have hi : i ∈ em.draft.instructions.toList ++
          [⟨.callUnit, some (.unit em.draft.units.size)⟩] := by
        simpa [Emitter.movingApart, Emitter.calling, Code.Draft.emit, Code.Draft.addUnit,
          Code.Draft.newLabel] using hi
      rw [List.mem_append, List.mem_singleton] at hi
      obtain hi | rfl := hi
      · exact hs.code i hi l he
      · cases he
    · change ∀ label ∈ after.draft.resume.toList, _
      rw [h.resume]
      exact hs.resume
    · change ∀ table ∈ after.draft.tables.toList, _
      rw [h.tables]
      exact hs.tables
    · intro unit hm
      change unit ∈ after.apart ++ [_] at hm
      rw [h.apart, List.mem_append, List.mem_singleton] at hm
      obtain hm | rfl := hm
      · exact hs.apartCode unit hm
      · intro instr hm
        rw [List.mem_append, List.mem_singleton] at hm
        obtain hm | rfl := hm
        · exact hl instr hm
        · intro label he
          cases he

/-- Whether options have the declarations of a scope in line. -/
def Choices.inlines (opts : Choices) (options : Options) (scope : ScopeId) : Bool :=
  (opts.scopes.scope scope).bindings.length ≤ options.blockInlineLimit

theorem declareBlock_eq (hne : (opts.scopes.scope scope).bindings ≠ [])
    (fns : List (String × Emit Template)) (options : Options) (em : Emitter) :
    declareBlock scope (hoist scope fns) (opts.under options ctx) em =
      if opts.inlines options scope then declarations scope fns (opts.under options ctx) em
      else apart (declarations scope fns) (opts.under options ctx) em := by
  have hlength : ((opts.scopes.scope scope).bindings.length == 0) = false := by simpa using hne
  change (if (opts.scopes.scope scope).bindings.length == 0 then pure ()
    else read >>= fun ctx =>
      if (opts.scopes.scope scope).bindings.length ≤ ctx.options.blockInlineLimit then
        declarations scope fns
      else apart (declarations scope fns) : Emit Unit) _ em = _
  rw [hlength]
  change (if (opts.scopes.scope scope).bindings.length ≤ options.blockInlineLimit then _ else _ :
    Emit Unit) _ em = _
  unfold Choices.inlines
  by_cases h : (opts.scopes.scope scope).bindings.length ≤ options.blockInlineLimit
  · simp only [h, decide_true, if_true]
  · simp only [h, decide_false, if_false, Bool.false_eq_true]

/-- Where the declarations of a scope are written first. -/
def Choices.opening (opts : Choices) (options : Options) (scope : ScopeId) (em : Emitter) :
    Emitter :=
  if opts.inlines options scope then em else em.calling

theorem declared_of_write (hne : (opts.scopes.scope scope).bindings ≠ []) {options em after written}
    (hx : declarations scope fns (opts.under options ctx)
      (opts.opening options scope em) = .ok ((), after))
    (h : Wrote (opts.opening options scope em) after written) (hw : written ≠ [])
    (hu : em.draft.units.toList = em.apart.map Prod.fst)
    (hl : ∀ instr ∈ written, ∀ label, instr.operand ≠ some (.label label)) :
    ∃ last, declareBlock scope (hoist scope fns) (opts.under options ctx) em =
        .ok ((), last) ∧ Declared em last written ∧ last.draft.constants = after.draft.constants ∧
      last.draft.functions = after.draft.functions := by
  rw [declareBlock_eq hne]
  unfold Choices.opening at hx h
  cases hi : opts.inlines options scope with
  | true =>
    simp only [hi, if_true] at hx h ⊢
    exact ⟨after, hx, h.declared hw hl, rfl, rfl⟩
  | false =>
    simp only [hi] at hx h ⊢
    exact ⟨_, apart_eq hx h, h.declared_apart hu hl, rfl, rfl⟩

theorem declareBlock_error (hne : (opts.scopes.scope scope).bindings ≠ []) {options em error}
    (hx : declarations scope fns (opts.under options ctx)
      (opts.opening options scope em) = .error error) :
    declareBlock scope (hoist scope fns) (opts.under options ctx) em = .error error := by
  rw [declareBlock_eq hne]
  unfold Choices.opening at hx
  cases hi : opts.inlines options scope with
  | true =>
    simp only [hi, if_true] at hx ⊢
    exact hx
  | false =>
    simp only [hi] at hx ⊢
    change (declarations scope fns _ em.calling >>= _) = _
    exact congrArg (· >>= _) hx

theorem declareBlock_paced (hne : (opts.scopes.scope scope).bindings ≠ [])
    (hf : ∀ fn ∈ fns, PacedTemplate opts fn.2) : Pace opts ctx hulls [] fs (some ⟨0, .cells 0⟩)
      (declareBlock scope (hoist scope fns)) (declareBlock scope (hoist scope fns))
      (Then fs (up 0)) := by
  intro cs one other hh hs
  obtain ⟨ledger, ha⟩ := hs.abreast
  have hfunctions : ∀ options em, (opts.opening options scope em).draft.functions =
      em.draft.functions := by
    intro options em
    unfold Choices.opening
    split <;> rfl
  have hw := @declarations_write _ ctx _ scope hf
    (opts.opening opts.one scope one) (opts.opening opts.other scope other)
    (by rw [hfunctions, hfunctions]; exact ha.stored.functions)
  generalize hx : declarations scope fns (opts.first ctx)
    (opts.opening opts.one scope one) = first at hw
  generalize hy : declarations scope fns (opts.second ctx)
    (opts.opening opts.other scope other) = second at hw
  cases hw with
  | error he =>
    rw [declareBlock_error hne hx, declareBlock_error hne hy]
    exact .error he
  | @ok _ _ one' other' hw =>
    obtain ⟨hstep, first, second, hd⟩ := hw
    have hdeclares : Declares (Shared one' other') one'.draft.functions.size 0 (first ++ [])
      (second ++ []) := hd.declares id .refl .done
    rw [List.append_nil, List.append_nil] at hdeclares
    have hnonempty : first ≠ [] := by
      rintro rfl
      exact absurd (Nat.le_zero.mp hd.grows) (Nat.ne_of_gt (List.length_pos_iff.mpr hne))
    obtain ⟨hl, hl'⟩ := declares_not_label hdeclares
    obtain ⟨last, hlast, hdone, hconstants, hfunctions⟩ := declared_of_write hne hx hd.one hnonempty
      ha.labelled.one.units hl
    have hnonempty' : second ≠ [] := by
      rintro rfl
      cases hdeclares
      exact hnonempty rfl
    obtain ⟨last', hlast', hdone', hconstants', hfunctions'⟩ := declared_of_write hne hy hd.other
      hnonempty' ha.labelled.other.units hl'
    rw [hlast, hlast']
    have hshare : ∀ {a b constant}, Shared one' other' a b constant →
        Stage.Share ⟨ledger.step one.position other.position ⟨0, .cells 0⟩ last.position
          last'.position fun _ _ _ => False, up 0, last, last'⟩ a b constant := by
      intro a b constant h
      exact ⟨hconstants ▸ h.1, hconstants' ▸ h.2⟩
    have hdeclares := hdeclares.mono hshare (Nat.le_of_eq (congrArg Array.size hfunctions.symm))
    have hstored : Stage.Stored ⟨ledger.step one.position other.position ⟨0, .cells 0⟩
        last.position last'.position fun _ _ _ => False, up 0, last, last'⟩ opts.room := by
      refine ⟨?_, ?_, ?_, ?_, ?_⟩ <;> dsimp only
      · rw [hdone.handlers, hdone'.handlers]
        exact ha.stored.handlers.imp fun _ _ h => h.within ⟨.inl, .inl, .inl⟩
      · rw [hfunctions, hfunctions']
        exact hstep
      · rw [hdone.registers, hdone'.registers]
        exact ha.stored.registers
      · rw [hdone.returnRegister, hdone'.returnRegister]
        exact ha.stored.returnRegister
      · rw [hdone.resume, hdone'.resume]
        exact ha.stored.resume
    have hab := ha.step hdone.extended hdone'.extended hdone.further hdone'.further (.nothing _)
      (.declare rfl hnonempty hdeclares hdone.stands hdone'.stands (.next rfl rfl rfl (.refl _)))
      hdone.labels hdone'.labels
      (hdone.side (ha.labelled.one.mono (.refl _) fun _ => Ledger.knowsOne_step))
      (hdone'.side (ha.labelled.other.mono (.refl _) fun _ => Ledger.knowsOther_step)) hstored
    refine .ok ⟨fs, up 0, cs, ⟨rfl, rfl⟩, .refl cs, ⟨⟨_, hab⟩, ?_, ?_⟩⟩
    · rw [hdone.control, hs.one]
    · rw [hdone'.control, hs.other]

/-! ## Blocks -/

/-- Whether a scope has a record if it binds names. -/
def Choices.hasRecord (opts : Choices) (scope : ScopeId) : Bool :=
  (opts.scopes.scope scope).bindings.isEmpty || (opts.scopes.scope scope).materializes

theorem declareBlock_none (hn : (opts.scopes.scope scope).bindings = [])
    (fns : Emit Unit) : Pace opts ctx hulls [] fs here (declareBlock scope fns)
      (declareBlock scope fns) (Then fs here) := by
  refine .take .scopeAt fun found hf => ?_
  subst hf
  rw [hn]
  exact .pure ⟨rfl, rfl⟩

theorem inBlock_paced (hr : opts.hasRecord scope = true) (hf : ∀ fn ∈ fns, PacedTemplate opts fn.2)
    {x y c} (hb : Pace opts { ctx with scope, envDepth := ctx.envDepth +
        if (opts.scopes.scope scope).materializes then 1 else 0 } hulls es fs (up 0) x y
      (Gives (· = c) fs c.reach)) :
    Pace opts ctx hulls (es ++ []) fs (up 0)
      (inBlock scope do declareBlock scope (hoist scope fns); x)
      (inBlock scope do declareBlock scope (hoist scope fns); y)
      (Gives (· = c) fs c.reach) := by
  refine .take .scopeAt fun found hfound => ?_
  subst hfound
  cases hm : (opts.scopes.scope scope).materializes with
  | true =>
    rw [hm] at hb
    refine .step .pushBlockEnv fun _ _ => .complete (.inScope ?_) (popEnv_paced true c)
    by_cases hn : (opts.scopes.scope scope).bindings = []
    · refine .step (declareBlock_none hn _) fun _ _ => .ease ?_ hb
      rintro _ ⟨⟩
      exact ⟨_, rfl, rfl, .any⟩
    · exact .step (declareBlock_paced hn hf) fun _ _ => hb
  | false =>
    rw [hm] at hb
    have hn : (opts.scopes.scope scope).bindings = [] := by
      simpa [Choices.hasRecord, hm] using hr
    refine .complete (.inScope ?_) (popEnv_paced false c)
    exact .step (declareBlock_none hn _) fun _ _ => hb

theorem blockForm_paced {opened} (hr : ∀ scope ∈ opened, opts.hasRecord scope)
    (hf : ∀ fn ∈ fns, PacedTemplate opts fn.2) {body} (hb : PacedStmt opts body)
    : PacedStmt opts (blockForm opened fns body) := by
  intro ctx hulls
  cases opened with
  | none => exact ⟨.normal, [], fun _ => .throw rfl⟩
  | some scope =>
    obtain ⟨c, es, hb⟩ := hb { ctx with
      scope, envDepth := ctx.envDepth +
        if (opts.scopes.scope scope).materializes then 1 else 0 } hulls
    refine ⟨c, es ++ [], fun fs => .take .scopeOf fun found hfound => ?_⟩
    cases hfound
    exact inBlock_paced (hr scope rfl) hf (hb fs)

end Ecma.Compile

