/-
Properties that are permanent stay so: whatever is done to a heap, and whatever a machine runs, a
property that may not be configured is kept with its flags, and with its value if that may not be
written either.
-/
import Ecma.Proofs.Sessions

namespace Ecma

/-! ## Changes of a heap -/

namespace Heap

/-- A change of the properties of objects or of the names of programs. -/
inductive Operation where
  | set (ref : ObjectRef) (key : PropertyKey) (v : Value)
  | define (ref : ObjectRef) (key : PropertyKey) (prop : Property)
  | delete (ref : ObjectRef) (key : PropertyKey)
  | assignName (ref : RecordRef) (name : String) (v : Value) (strict : Bool)
  | deleteName (ref : RecordRef) (name : String)
  | declareVar (ref : RecordRef) (name : String) (deletable : Bool)
  | declareFunction (ref : RecordRef) (name : String) (v : Value) (deletable : Bool)

/-- The heap that a change leaves, whether it could be done or not. -/
def perform (heap : Heap) : Operation → Heap
  | .set ref key v => (heap.set ref key v).2
  | .define ref key prop => (heap.define ref key prop).2
  | .delete ref key => (heap.delete ref key).2
  | .assignName ref name v strict => (setBinding ref name v strict).leaves heap
  | .deleteName ref name => (heap.deleteBinding ref name).2
  | .declareVar ref name deletable => (createGlobalVar ref name deletable).leaves heap
  | .declareFunction ref name v deletable =>
    (createGlobalFunction ref name v deletable).leaves heap

theorem perform_calms (heap : Heap) (operation : Operation) :
    heap.Calms (heap.perform operation) := by
  cases operation with
  | set ref key v => exact CalmMove.calms (f := fun heap => heap.set ref key v) heap
  | define ref key prop =>
    exact CalmMove.calms (f := fun heap => heap.define ref key prop) heap
  | delete ref key => exact CalmMove.calms (f := fun heap => heap.delete ref key) heap
  | deleteName ref name => exact CalmMove.calms (f := fun heap => heap.deleteBinding ref name) heap
  | assignName | declareVar | declareFunction => exact Update.Calm.calms heap

/-- Permanent properties persist through any changes. -/
theorem foldl_perform_keeps (operations : List Operation) (heap : Heap) :
    heap.Keeps (operations.foldl perform heap) := by
  induction operations generalizing heap with
  | nil => exact .refl heap
  | cons operation rest ih => exact (Keeps.of_calms (heap.perform_calms operation)).trans (ih _)

/-- A change that is refused is none. -/
def Refuses (operate : Heap → Bool × Heap) : Prop :=
  ∀ heap, (operate heap).1 = false → (operate heap).2 = heap

theorem refuses_ite {test : Heap → Bool} {change : Heap → Heap} :
    Refuses fun heap => if test heap then (true, change heap) else (false, heap) := by
  intro heap h
  dsimp only at h ⊢
  split at h
  · cases h
  · next hn => rw [if_neg hn]

end Heap

/-! ## Everything a machine does -/

/-- Permanent properties persist, whatever a machine does. -/
def Law.permanence : Law where
  standard := .lax
  rel m later := m.heap.Keeps later.heap
  refl m := .refl m.heap
  trans := .trans
  nested := id
  calm h := .of_calms h.heap
  function m _ _ _ := .alloc m.heap _
  generator m _ _ _ := .alloc m.heap _

instance : Law.permanence.FreesGenerators := ⟨fun m _ _ _ _ => .setPayload m.heap _ _⟩

instance : Law.permanence.FreesPromises :=
  ⟨fun m _ _ _ => .alloc m.heap _, fun m _ _ _ _ => .setPayload m.heap _ _,
    fun m _ => .refl m.heap, fun m _ _ _ _ => .alloc m.heap _,
    fun m _ _ _ _ _ => .setPayload m.heap _ _⟩

/-- Permanent properties persist through every sequence of changes of a heap, every instruction,
every run of a frame and every session; and a change that is refused leaves the heap as it was. -/
theorem permanent_properties_persist :
    (∀ (heap : Heap) (operations : List Heap.Operation),
      heap.Keeps (operations.foldl Heap.perform heap)) ∧
    (∀ (fuel : Nat) (frame : Frame) {machine later : Machine},
      (Action.advance (Action.call fuel) frame).reached? machine = some later ∨
        (Action.run fuel frame).reached? machine = some later →
      machine.heap.Keeps later.heap) ∧
    (∀ {machine later : Machine}, machine.Reaches later → machine.heap.Keeps later.heap) ∧
    (∀ ref key value, Heap.Refuses fun heap => heap.set ref key value) ∧
    (∀ ref key property, Heap.Refuses fun heap => heap.define ref key property) ∧
    ∀ ref key, Heap.Refuses fun heap => heap.delete ref key := by
  refine ⟨fun heap operations => Heap.foldl_perform_keeps operations heap,
    fun fuel frame machine later h => ?_,
    fun {machine _} h => (h.follows Law.permanence (.lax machine)).rel,
    fun ref key value => Heap.refuses_ite, fun ref key property => Heap.refuses_ite,
    fun ref key => Heap.refuses_ite⟩
  have hadvance : Upholds Law.permanence (Action.advance (Action.call fuel) frame) :=
    Action.advance_upholds frame trivial
  have hrun : Upholds Law.permanence (Action.run fuel frame) := Action.run_upholds fuel trivial
  exact h.elim (fun he => (hadvance.upholds (.lax machine) he).rel)
    fun he => (hrun.upholds (.lax machine) he).rel

/-- What is frozen is still there after it was assigned to and deleted. -/
theorem permanent_properties_persist_frozen :
    let heap : Heap :=
      { objects := #[{ properties := PropertyMap.insert {} (.string "a") (.frozen .null) }] }
    let operations : List Heap.Operation :=
      [.set ⟨0⟩ (.string "a") .undefined, .delete ⟨0⟩ (.string "a")]
    ∃ later, ((operations.foldl Heap.perform heap).object ⟨0⟩).properties.find? (.string "a") =
      some later ∧ (Property.frozen .null).Persists later := by
  intro heap operations
  exact permanent_properties_persist.1 heap operations ⟨0⟩ (.string "a") (.frozen .null) rfl rfl

end Ecma
