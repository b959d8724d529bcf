/-
The instructions by which a script declares its global names, on a machine whose global record is
known: what is checked, and what each declaration changes.
-/
import Ecma.Proofs.Tandem

namespace Ecma

variable {m : Machine} {obj : ObjectRef} {lexical : List Cell} {varNames : List String}

/-- The parts of the global record of a machine. -/
def Machine.HasGlobals (m : Machine) (obj : ObjectRef) (lexical : List Cell)
    (varNames : List String) : Prop :=
  m.heap.record m.realm.globalRecord = .global obj lexical varNames

namespace Heap

variable {heap : Heap} {ref : RecordRef} (hg : heap.record ref = .global obj lexical varNames)
  (name : String)

/-- Whether a lexical declaration of a name is refused. -/
def refusesLexical (heap : Heap) (obj : ObjectRef) (lexical : List Cell) (varNames : List String)
    (name : String) : Bool :=
  varNames.contains name || lexical.any (fun cell => cell.name == name) ||
    (heap.ownProperty? obj (.string name)).any fun prop => !prop.configurable

/-- Whether a function can be declared under a name. -/
def takesFunction (heap : Heap) (obj : ObjectRef) (name : String) : Bool :=
  match heap.ownProperty? obj (.string name) with
  | none => (heap.object obj).extensible
  | some prop => prop.configurable || (prop.writable && prop.enumerable)

/-- Whether a variable can be declared under a name. -/
def takesVar (heap : Heap) (obj : ObjectRef) (name : String) : Bool :=
  heap.hasOwn obj (.string name) || (heap.object obj).extensible

/-- The binding of a lexical declaration. -/
def lexicalCell (name : String) (const : Bool) : Cell :=
  if const then .forConstant name true else .forVariable name false

def withLexical (heap : Heap) (ref : RecordRef) (name : String) (const : Bool) : Heap :=
  if const then heap.createImmutable ref name true else heap.createMutable ref name false

/-- A heap with a declared variable. -/
def withVar (heap : Heap) (ref : RecordRef) (obj : ObjectRef) (name : String)
    (deletable : Bool) : Heap :=
  (if !heap.hasOwn obj (.string name) && (heap.object obj).extensible then
    (heap.define obj (.string name) { value := .undefined, configurable := deletable }).2
  else heap).modifyRecord ref fun record => record.addVarName name

def withFunction (heap : Heap) (ref : RecordRef) (obj : ObjectRef) (name : String)
    (v : Value) (deletable : Bool) : Heap :=
  let prop := functionProperty (heap.ownProperty? obj (.string name)) v deletable
  let later := (heap.define obj (.string name) prop).2
  (if prop.configurable then later else (later.set obj (.string name) v).2).modifyRecord
    ref fun record => record.addVarName name

/-- Names with one more. -/
def noted (varNames : List String) (name : String) : List String :=
  if varNames.contains name then varNames else varNames ++ [name]

theorem mem_noted {names name other} : other ∈ noted names name ↔ other ∈ names ∨ other = name := by
  unfold noted
  split
  · next h =>
    have := List.contains_iff_mem.mp h
    grind
  · simp

include hg

theorem globalRecord_eq : heap.globalRecord ref = .ok (obj, lexical, varNames) := by
  simp only [globalRecord, hg]

theorem hasVar_eq : heap.hasVar ref name = .ok (varNames.contains name) := by
  rw [hasVar, globalRecord_eq hg]
  rfl

theorem hasLexical_eq :
    heap.hasLexical ref name = .ok (lexical.any fun cell => cell.name == name) := by
  rw [hasLexical, globalRecord_eq hg]
  rfl

theorem hasRestricted_eq : heap.hasRestricted ref name =
    .ok ((heap.ownProperty? obj (.string name)).any fun prop => !prop.configurable) := by
  rw [hasRestricted, globalRecord_eq hg]
  rfl

theorem canDeclareVar_eq : heap.canDeclareVar ref name = .ok (heap.takesVar obj name) := by
  rw [canDeclareVar, globalRecord_eq hg]
  rfl

theorem canDeclareFunction_eq :
    heap.canDeclareFunction ref name = .ok (heap.takesFunction obj name) := by
  rw [canDeclareFunction, globalRecord_eq hg]
  rfl

theorem record_withLexical (const : Bool) : (heap.withLexical ref name const).record ref =
      .global obj (Record.insertCell (lexicalCell name const) lexical) varNames := by
  have hs := lt_size_of_record_global _ hg
  cases const with
  | true =>
    exact (record_modifyRecord ..).trans ((if_pos ⟨rfl, hs⟩).trans (by rw [hg]; rfl))
  | false =>
    simp only [withLexical, createMutable, hg]
    exact (record_modifyRecord ..).trans ((if_pos ⟨rfl, hs⟩).trans (by rw [hg]; rfl))

theorem record_noted : (heap.modifyRecord ref fun record => record.addVarName name).record ref =
    .global obj lexical (noted varNames name) := by
  rw [record_modifyRecord, if_pos ⟨rfl, lt_size_of_record_global _ hg⟩, hg]
  rfl

theorem record_withVar (deletable : Bool) : (heap.withVar ref obj name deletable).record ref =
      .global obj lexical (noted varNames name) := by
  unfold withVar
  refine record_noted ?_ name
  split
  · rw [record_define, hg]
  · exact hg

theorem record_withFunction (v : Value) (deletable : Bool) :
    (heap.withFunction ref obj name v deletable).record ref =
      .global obj lexical (noted varNames name) := by
  unfold withFunction
  refine record_noted ?_ name
  split
  · rw [record_define, hg]
  · rw [record_set, record_define, hg]

theorem createGlobalVar_eq (deletable : Bool) :
    createGlobalVar ref name deletable heap = .ok () (heap.withVar ref obj name deletable) := by
  change (Update.query (fun heap => heap.globalRecord ref) >>= _) heap = _
  simp only [bind, EStateM.bind, Update.query, globalRecord_eq hg]
  rfl

theorem createGlobalFunction_eq (v : Value) (deletable : Bool) :
    createGlobalFunction ref name v deletable heap =
      .ok () (heap.withFunction ref obj name v deletable) := by
  change (Update.query (fun heap => heap.globalRecord ref) >>= _) heap = _
  simp only [bind, EStateM.bind, Update.query, globalRecord_eq hg]
  rfl

end Heap

namespace Action

variable {α β : Type}

theorem query_bind (f : Heap → Except Cause α) (k : α → Action β) {a} (h : f m.heap = .ok a)
    : (query f >>= k) m = k a m := by
  rw [bind_apply]
  unfold query
  rw [h]

/-- The outcome of a check. -/
def checked (passes : Bool) (cause : Cause) (fr : Frame) (m : Machine) :
    EStateM.Result Stop Machine Effect :=
  if passes then .ok (.next fr) m else .error (.raised (.failed cause)) m

variable (fr : Frame) (op : Code.Op) (a : Nat) (hg : m.HasGlobals obj lexical varNames)

include hg

theorem checkLexical_eq : checkLexical fr ⟨op, some (.name a)⟩ m =
    checked (!m.heap.refusesLexical obj lexical varNames (fr.code.nameAt a))
      (.alreadyDeclared (fr.code.nameAt a)) fr m := by
  change (query (fun heap => heap.hasVar m.realm.globalRecord (fr.code.nameAt a)) >>= _) m = _
  rw [query_bind _ _ (Heap.hasVar_eq hg _)]
  unfold Heap.refusesLexical
  cases varNames.contains (fr.code.nameAt a) with
  | true => rfl
  | false =>
    change (query (fun heap => heap.hasLexical m.realm.globalRecord (fr.code.nameAt a)) >>= _) m = _
    rw [query_bind _ _ (Heap.hasLexical_eq hg _)]
    cases lexical.any fun cell => cell.name == fr.code.nameAt a with
    | true => rfl
    | false =>
      change (query (fun heap => heap.hasRestricted m.realm.globalRecord
        (fr.code.nameAt a)) >>= _) m = _
      rw [query_bind _ _ (Heap.hasRestricted_eq hg _)]
      cases (m.heap.ownProperty? obj (.string (fr.code.nameAt a))).any
        fun prop => !prop.configurable <;> rfl

theorem checkVar_eq : checkVar fr ⟨op, some (.name a)⟩ m =
    checked (!lexical.any fun cell => cell.name == fr.code.nameAt a)
      (.alreadyDeclared (fr.code.nameAt a)) fr m := by
  change (query (fun heap => heap.hasLexical m.realm.globalRecord (fr.code.nameAt a)) >>= _) m = _
  rw [query_bind _ _ (Heap.hasLexical_eq hg _)]
  cases lexical.any fun cell => cell.name == fr.code.nameAt a <;> rfl

theorem checkFunction_eq : checkFunction fr ⟨op, some (.name a)⟩ m =
    checked (m.heap.takesFunction obj (fr.code.nameAt a))
      (.undeclarableFunction (fr.code.nameAt a)) fr m := by
  change (query (fun heap => heap.canDeclareFunction m.realm.globalRecord
    (fr.code.nameAt a)) >>= _) m = _
  rw [query_bind _ _ (Heap.canDeclareFunction_eq hg _)]
  cases m.heap.takesFunction obj (fr.code.nameAt a) <;> rfl

theorem checkDeclarable_eq : checkDeclarable fr ⟨op, some (.name a)⟩ m =
    checked (m.heap.takesVar obj (fr.code.nameAt a))
      (.undeclarableVariable (fr.code.nameAt a)) fr m := by
  change (query (fun heap => heap.canDeclareVar m.realm.globalRecord
    (fr.code.nameAt a)) >>= _) m = _
  rw [query_bind _ _ (Heap.canDeclareVar_eq hg _)]
  cases m.heap.takesVar obj (fr.code.nameAt a) <;> rfl

omit hg in
theorem declareLexical_eq (const : Bool) : declareLexical fr ⟨op, some (.binding a const)⟩ m =
      .ok (.next fr) { m with
        heap := m.heap.withLexical m.realm.globalRecord (fr.code.nameAt a) const } :=
  rfl

theorem declareVar_eq (deletable : Bool) : declareVar fr ⟨op, some (.binding a deletable)⟩ m =
      .ok (.next fr) { m with
        heap := m.heap.withVar m.realm.globalRecord obj (fr.code.nameAt a) deletable } := by
  change (update _ >>= fun _ => pure (Effect.next fr)) m = _
  rw [bind_apply, update_of_ok (Heap.createGlobalVar_eq hg _ deletable)]
  rfl

theorem declareFunction_eq (v : Value) (deletable : Bool) :
    declareFunction (fr.push v) ⟨op, some (.binding a deletable)⟩ m = .ok (.next fr) { m with
        heap := m.heap.withFunction m.realm.globalRecord obj (fr.code.nameAt a) v deletable } := by
  change (update (Heap.createGlobalFunction m.realm.globalRecord (fr.code.nameAt a) v
    deletable) >>= fun _ => pure (Effect.next fr)) m = _
  rw [bind_apply, update_of_ok (Heap.createGlobalFunction_eq hg _ v deletable)]
  rfl

end Action

/-! ## In tandem -/

namespace Likeness

variable {like : Likeness} {m' : Machine}

theorem Machines.globals (h : like.Machines m m') :
    ∃ lexical varNames, m.HasGlobals m.realm.globalObject lexical varNames ∧
      m'.HasGlobals m.realm.globalObject lexical varNames ∧
      ∀ cell ∈ lexical, cell.name ∉ varNames := by
  obtain ⟨lexical, varNames, hg, ha⟩ := h.heaps.apart
  refine ⟨lexical, varNames, hg, ?_, ha⟩
  unfold Machine.HasGlobals
  rw [← h.heaps.record, ← h.realm]
  exact hg

section

variable {realm : Realm} {first second : Heap} (h : like.Heaps realm first second)
  (obj : ObjectRef) (name : String)

include h

theorem Heaps.refusesLexical (lexical : List Cell) (varNames : List String) :
    second.refusesLexical obj lexical varNames name =
      first.refusesLexical obj lexical varNames name := by
  simp only [Heap.refusesLexical, h.ownProperty?]

theorem Heaps.takesFunction : second.takesFunction obj name = first.takesFunction obj name := by
  simp only [Heap.takesFunction, h.ownProperty?, h.extensible]

theorem Heaps.takesVar : second.takesVar obj name = first.takesVar obj name := by
  simp only [Heap.takesVar, h.hasOwn, h.extensible]

end

section

variable {realm : Realm} {first second : Heap} {ref : RecordRef} {name : String}
  (h : like.Heaps realm first second) (hg : first.record ref = .global obj lexical varNames)

include h hg

theorem Heaps.withLexical (hn : name ∉ varNames) (const : Bool) :
    like.Heaps realm (first.withLexical ref name const) (second.withLexical ref name const) := by
  have hn : ∀ obj lexical varNames, first.record ref = .global obj lexical varNames →
      name ∉ varNames := fun _ _ _ hg' => by
    cases hg.symm.trans hg'
    exact hn
  cases const with
  | true => exact h.createImmutable ref name true hn
  | false => exact h.createMutable ref name false hn

theorem Heaps.withVar (hn : ∀ cell ∈ lexical, cell.name ≠ name) (deletable : Bool) :
    like.Heaps realm (first.withVar ref obj name deletable)
      (second.withVar ref obj name deletable) := by
  have hu := h.createGlobalVar ref name deletable fun _ _ _ hg' => by
    cases hg.symm.trans hg'
    exact hn
  rw [Heap.createGlobalVar_eq hg, Heap.createGlobalVar_eq (h.record ref ▸ hg)] at hu
  cases hu
  assumption

theorem Heaps.withFunction (hn : ∀ cell ∈ lexical, cell.name ≠ name) (v : Value)
    (deletable : Bool) : like.Heaps realm (first.withFunction ref obj name v deletable)
      (second.withFunction ref obj name v deletable) := by
  have hu := h.createGlobalFunction ref name v deletable fun _ _ _ hg' => by
    cases hg.symm.trans hg'
    exact hn
  rw [Heap.createGlobalFunction_eq hg, Heap.createGlobalFunction_eq (h.record ref ▸ hg)] at hu
  cases hu
  assumption

end

/-- Checks that pass together are passed by both or by none. -/
theorem Tracks.of_checked {related x y passes cause fr twin} (hm : like.Machines m m')
    (hx : x m = Action.checked passes cause fr m) (hy : y m' = Action.checked passes cause twin m')
    (hr : passes = true → related (.next fr) (.next twin) m) :
    like.Tracks related x (fun _ => y) m m' := by
  cases passes with
  | true => exact .of_ok hx (.of_eq fun _ => hy) hm (hr rfl)
  | false =>
    unfold Tracks
    rw [hx]
    exact .raised (.of_eq fun _ => hy) hm

end Likeness

end Ecma
