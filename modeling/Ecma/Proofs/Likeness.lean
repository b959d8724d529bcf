/-
Heaps that are alike: they differ at most in the code of functions and in where the frames that
wait stand in that code. Whatever looks at a heap sees the same in both, and whatever changes it
changes both alike.
-/
import Ecma.Machine.Run

namespace Ecma

open Code (Template)

/-- Templates that agree in all that can be seen of a function from outside. -/
structure Code.Template.Agrees (first second : Template) : Prop where
  name : first.name = second.name
  kind : first.kind = second.kind
  paramCount : first.paramCount = second.paramCount
  strict : first.strict = second.strict
  registers : first.registers = second.registers

/-- Which code and which frames count as alike. Frames that wait lie in the heap; frames that are
ready may be run on a machine as it is now. -/
structure Likeness where
  code : Template → Template → Prop
  waiting : Frame → Frame → Prop
  ready : Machine → Frame → Frame → Prop
  /-- The operands that every frame has room for. -/
  room : Nat
  agrees : ∀ {first second}, code first second → first.Agrees second
  /-- A call begins with frames that are ready. -/
  fresh : ∀ {first second} m parent record recv callee args, code first second →
    m.heap.record record = .declarative (some parent) #[] →
    ready m (.start first record recv (some callee) args)
      (.start second record recv (some callee) args)
  /-- Only records matter to a frame that is ready. -/
  keeps : ∀ {first second} {m later : Machine}, ready m first second →
    m.realm = later.realm → m.heap.records = later.heap.records →
    ready later first second
  /-- What waits is ready once it is resumed. -/
  wakes : ∀ {first second} m res, waiting first second →
    ready m (first.resume res) (second.resume res)

/-- The global record stands for the global object, and none of its lexical names is declared as
a variable too. -/
def Heap.GlobalsApart (heap : Heap) (realm : Realm) : Prop :=
  ∃ lexical varNames,
    heap.record realm.globalRecord = .global realm.globalObject lexical varNames ∧
      ∀ cell ∈ lexical, cell.name ∉ varNames

/-- Whether a payload holds neither code nor a frame. -/
def Payload.isPlain : Payload → Bool
  | .function _ | .generator (.start _) | .generator (.yielded _) | .activation (some _) _ => false
  | _ => true

namespace Likeness

variable (like : Likeness)

/-- Closures that are alike. -/
structure Closures (first second : Closure) : Prop where
  code : like.code first.code second.code
  record : first.record = second.record
  receiver : first.receiver = second.receiver

/-- Payloads that are alike. -/
inductive Payloads : Payload → Payload → Prop
  | plain {payload} : payload.isPlain = true → Payloads payload payload
  | function {first second} : like.Closures first second →
    Payloads (.function first) (.function second)
  | start {first second} : like.waiting first second →
    Payloads (.generator (.start first)) (.generator (.start second))
  | yielded {first second} : like.waiting first second →
    Payloads (.generator (.yielded first)) (.generator (.yielded second))
  | activation {first second p} : like.waiting first second →
    Payloads (.activation (some first) p) (.activation (some second) p)

/-- Objects that are alike. -/
structure Objects (first second : Object) : Prop where
  prototype : first.prototype = second.prototype
  properties : first.properties = second.properties
  payload : like.Payloads first.payload second.payload
  extensible : first.extensible = second.extensible

/-- Heaps that are alike, with the global names of the first one in order. -/
structure Heaps (realm : Realm) (first second : Heap) : Prop where
  size : first.objects.size = second.objects.size
  object : ∀ ref, like.Objects (first.object ref) (second.object ref)
  records : first.records = second.records
  symbols : first.symbols = second.symbols
  apart : first.GlobalsApart realm

variable {like}

/-! ## Payloads and objects -/

namespace Payloads

variable {first second : Payload} (h : like.Payloads first second)

include h

theorem isCallable : first.isCallable = second.isCallable := by cases h <;> rfl

theorem isArray : first.isArray = second.isArray := by cases h <;> rfl

theorem promise? : first.promise? = second.promise? := by cases h <;> rfl

end Payloads

namespace Objects

theorem plain {obj} (h : obj.payload.isPlain = true) : like.Objects obj obj :=
  ⟨rfl, rfl, .plain h, rfl⟩

variable {first second : Object} (h : like.Objects first second)

theorem withPayload {one other} (h : like.Objects first second) (hp : like.Payloads one other) :
    like.Objects { first with payload := one } { second with payload := other } :=
  ⟨h.prototype, h.properties, hp, h.extensible⟩

theorem withProperties (h : like.Objects first second) (properties : PropertyMap) :
    like.Objects { first with properties } { second with properties } :=
  ⟨h.prototype, rfl, h.payload, h.extensible⟩

include h

theorem elements : first.elements = second.elements := by
  have hp := h.payload
  unfold Object.elements
  generalize first.payload = payload, second.payload = payload' at hp
  cases hp <;> rfl

theorem place (key : PropertyKey) : first.place key = second.place key := by
  unfold Object.place
  rw [h.payload.isArray]

theorem get? (key : PropertyKey) : first.get? key = second.get? key := by
  unfold Object.get?
  rw [h.place, h.elements, h.properties]

theorem canSet (key : PropertyKey) (v : Value) : first.canSet key v = second.canSet key v := by
  unfold Object.canSet
  rw [h.place, h.properties, h.extensible]

theorem canDefine (key : PropertyKey) : first.canDefine key = second.canDefine key := by
  unfold Object.canDefine
  rw [h.place, h.properties]

theorem canDelete (key : PropertyKey) : first.canDelete key = second.canDelete key := by
  unfold Object.canDelete
  rw [h.place, h.properties]

theorem names : first.names = second.names := by
  unfold Object.names
  rw [h.elements, h.properties]

theorem mapElements (f : Array Value → Array Value) :
    like.Objects (first.mapElements f) (second.mapElements f) := by
  obtain ⟨prototype, properties, payload, extensible⟩ := first
  obtain ⟨prototype', properties', payload', extensible'⟩ := second
  obtain ⟨rfl, rfl, hp, rfl⟩ := h
  cases hp with
  | plain hp => cases payload <;> exact .plain hp
  | function hc => exact ⟨rfl, rfl, .function hc, rfl⟩
  | start hw => exact ⟨rfl, rfl, .start hw, rfl⟩
  | yielded hw => exact ⟨rfl, rfl, .yielded hw, rfl⟩
  | activation hw => exact ⟨rfl, rfl, .activation hw, rfl⟩

theorem set (key : PropertyKey) (v : Value) :
    like.Objects (first.set key v) (second.set key v) := by
  unfold Object.set
  rw [h.place, h.properties]
  split
  · exact h.mapElements _
  · split
    · exact h.mapElements _
    · exact h
  · exact h.withProperties _

theorem define (key : PropertyKey) (prop : Property) :
    like.Objects (first.define key prop) (second.define key prop) := by
  unfold Object.define
  rw [h.place, h.properties]
  split
  · exact h.set key prop.value
  · exact h.withProperties _
  · exact h.withProperties _

theorem delete (key : PropertyKey) : like.Objects (first.delete key) (second.delete key) := by
  unfold Object.delete
  rw [h.place, h.properties]
  split
  · exact h.mapElements _
  · exact h
  · exact h.withProperties _

end Objects

end Likeness

/-! ## Arenas -/

namespace Heap

variable (heap : Heap)

theorem object_alloc (obj : Object) (ref : ObjectRef) : (heap.alloc obj).2.object ref =
      if ref.index = heap.objects.size then obj else heap.object ref := by
  simp only [alloc, Heap.object, Array.getD_eq_getD_getElem?, Array.getElem?_push]
  split <;> rfl

theorem setPayload_alloc (obj : Object) (payload : Payload) :
    (heap.alloc obj).2.setPayload ⟨heap.objects.size⟩ payload =
      (heap.alloc { obj with payload }).2 := by
  simp only [alloc, setPayload, modifyObject, mk.injEq, and_true]
  refine Array.ext_getElem? fun index => ?_
  rw [Array.getElem?_modify, Array.getElem?_push, Array.getElem?_push]
  grind

theorem record_allocRecord (record : Record) (ref : RecordRef) :
    (heap.allocRecord record).2.record ref =
      if ref.index = heap.records.size then record else heap.record ref := by
  simp only [allocRecord, Heap.record, Array.getD_eq_getD_getElem?, Array.getElem?_push]
  split <;> rfl

theorem object_modifyObject (ref other : ObjectRef) (f : Object → Object) :
    (heap.modifyObject ref f).object other =
      if ref.index = other.index ∧ ref.index < heap.objects.size then f (heap.object other)
      else heap.object other := by
  simp only [modifyObject, Heap.object, Array.getD_eq_getD_getElem?, Array.getElem?_modify]
  by_cases h : ref.index = other.index
  · by_cases hs : other.index < heap.objects.size
    · simp [h, hs]
    · simp [h, hs]
  · simp [h]

theorem record_modifyRecord (ref other : RecordRef) (f : Record → Record) :
    (heap.modifyRecord ref f).record other =
      if ref.index = other.index ∧ ref.index < heap.records.size then f (heap.record other)
      else heap.record other := by
  simp only [modifyRecord, Heap.record, Array.getD_eq_getD_getElem?, Array.getElem?_modify]
  by_cases h : ref.index = other.index
  · by_cases hs : other.index < heap.records.size
    · simp [h, hs]
    · simp [h, hs]
  · simp [h]

/-- A record that is not the default one is there. -/
theorem lt_size_of_record_global {ref obj lexical varNames}
    (h : heap.record ref = .global obj lexical varNames) : ref.index < heap.records.size := by
  rcases Nat.lt_or_ge ref.index heap.records.size with hs | hs
  · exact hs
  · have hd : heap.record ref = default := by
      simp [Heap.record, Array.getD_eq_getD_getElem?, Array.getElem?_eq_none hs]
    rw [hd] at h
    cases h

variable {heap} {realm : Realm}

theorem GlobalsApart.allocRecord (h : heap.GlobalsApart realm) (record : Record) :
    (heap.allocRecord record).2.GlobalsApart realm := by
  obtain ⟨lexical, varNames, hr, ha⟩ := h
  have hs := heap.lt_size_of_record_global hr
  refine ⟨lexical, varNames, ?_, ha⟩
  rw [record_allocRecord, if_neg (by omega), hr]

theorem GlobalsApart.modifyRecord {ref f} (h : heap.GlobalsApart realm)
    (hf : ∀ lexical varNames, ref.index = realm.globalRecord.index →
      heap.record ref = .global realm.globalObject lexical varNames →
      (∀ cell ∈ lexical, cell.name ∉ varNames) → ∃ lexical' varNames',
        f (.global realm.globalObject lexical varNames) =
          .global realm.globalObject lexical' varNames' ∧
        ∀ cell ∈ lexical', cell.name ∉ varNames') :
    (heap.modifyRecord ref f).GlobalsApart realm := by
  obtain ⟨lexical, varNames, hr, ha⟩ := h
  by_cases hi : ref.index = realm.globalRecord.index
  · have hs := heap.lt_size_of_record_global hr
    obtain rfl : ref = realm.globalRecord := by cases ref; simp_all
    obtain ⟨lexical', varNames', hf, ha⟩ := hf lexical varNames rfl hr ha
    refine ⟨lexical', varNames', ?_, ha⟩
    rw [record_modifyRecord, if_pos ⟨rfl, hs⟩, hr, hf]
  · refine ⟨lexical, varNames, ?_, ha⟩
    rw [record_modifyRecord, if_neg (by simp [hi]), hr]

end Heap

namespace Likeness.Heaps

variable {like : Likeness} {realm : Realm} {first second : Heap}

/-! ## What a heap shows -/

section

variable (h : like.Heaps realm first second)

include h

theorem record (ref : RecordRef) : first.record ref = second.record ref := by
  unfold Heap.record
  rw [h.records]

theorem description (ref : SymbolRef) : first.description ref = second.description ref := by
  unfold Heap.description
  rw [h.symbols]

theorem payload (ref : ObjectRef) :
    like.Payloads (first.object ref).payload (second.object ref).payload :=
  (h.object ref).payload

theorem extensible (ref : ObjectRef) :
    (first.object ref).extensible = (second.object ref).extensible :=
  (h.object ref).extensible

theorem symbolText (ref : SymbolRef) : first.symbolText ref = second.symbolText ref := by
  unfold Heap.symbolText
  rw [h.description]

theorem keyText (key : PropertyKey) : first.keyText key = second.keyText key := by
  cases key with
  | string name => rfl
  | symbol ref => exact h.symbolText ref

theorem objectText (ref : ObjectRef) : first.objectText ref = second.objectText ref := by
  have hp := h.payload ref
  unfold Heap.objectText
  generalize (first.object ref).payload = payload, (second.object ref).payload = payload' at hp
  cases hp with
  | function hc => simp only [(like.agrees hc.code).name]
  | _ => rfl

theorem describe (v : Value) : first.describe v = second.describe v := by
  cases v with
  | symbol ref => exact h.symbolText ref
  | object ref => exact h.objectText ref
  | _ => rfl

theorem isCallable (ref : ObjectRef) : first.isCallable ref = second.isCallable ref :=
  (h.payload ref).isCallable

theorem isCallableValue (v : Value) : first.isCallableValue v = second.isCallableValue v := by
  unfold Heap.isCallableValue
  rw [funext h.isCallable]

theorem typeName (v : Value) : first.typeName v = second.typeName v := by
  cases v with
  | object ref => simp only [Heap.typeName, h.isCallable]
  | _ => rfl

theorem tag (v : Value) : first.tag v = second.tag v := by
  cases v with
  | object ref =>
    have hp := h.payload ref
    unfold Heap.tag
    dsimp only
    generalize (first.object ref).payload = payload, (second.object ref).payload = payload' at hp
    cases hp <;> rfl
  | _ => rfl

theorem getOwn? (ref : ObjectRef) (key : PropertyKey) :
    first.getOwn? ref key = second.getOwn? ref key :=
  (h.object ref).get? key

theorem hasOwn (ref : ObjectRef) (key : PropertyKey) :
    first.hasOwn ref key = second.hasOwn ref key := by
  unfold Heap.hasOwn
  rw [h.getOwn?]

theorem ownProperty? (ref : ObjectRef) (key : PropertyKey) :
    first.ownProperty? ref key = second.ownProperty? ref key := by
  unfold Heap.ownProperty?
  rw [(h.object ref).properties]

theorem chainFrom (n : Nat) (ref : ObjectRef) : first.chainFrom n ref = second.chainFrom n ref := by
  induction n generalizing ref with
  | zero => rfl
  | succ n ih =>
    unfold Heap.chainFrom
    rw [(h.object ref).prototype]
    cases (second.object ref).prototype with
    | none => rfl
    | some prototype => simp only [ih]

theorem chain (ref : ObjectRef) : first.chain ref = second.chain ref := by
  unfold Heap.chain
  rw [h.size, h.chainFrom]

theorem get? (ref : ObjectRef) (key : PropertyKey) : first.get? ref key = second.get? ref key := by
  unfold Heap.get?
  rw [h.chain, funext fun ref => h.getOwn? ref key]

theorem has (ref : ObjectRef) (key : PropertyKey) : first.has ref key = second.has ref key := by
  unfold Heap.has
  rw [h.get?]

theorem enumerableNames (ref : ObjectRef) :
    first.enumerableNames ref = second.enumerableNames ref := by
  unfold Heap.enumerableNames
  rw [h.chain, funext fun ref => (h.object ref).names]

theorem stringProperty (prototype : ObjectRef) (text : String) (key : PropertyKey) :
    first.stringProperty prototype text key = second.stringProperty prototype text key := by
  unfold Heap.stringProperty
  rw [h.get?]

theorem property (prototype : ObjectRef) (base : Value) (key : PropertyKey) :
    first.property prototype base key = second.property prototype base key := by
  cases base <;> simp only [Heap.property, h.get?, h.stringProperty, h.describe, h.keyText]

theorem elementAt? (array : ObjectRef) (index : Nat) :
    first.elementAt? array index = second.elementAt? array index := by
  unfold Heap.elementAt?
  rw [h.getOwn?, h.get?]

/-! ## Bindings seen -/

theorem recordChainFrom (n : Nat) (ref : RecordRef) :
    first.recordChainFrom n ref = second.recordChainFrom n ref := by
  induction n generalizing ref with
  | zero => rfl
  | succ n ih =>
    unfold Heap.recordChainFrom
    rw [h.record]
    cases (second.record ref).parent? with
    | none => rfl
    | some parent => simp only [ih]

theorem recordAt (ref : RecordRef) (hops : Nat) :
    first.recordAt ref hops = second.recordAt ref hops := by
  induction hops generalizing ref with
  | zero => rfl
  | succ hops ih =>
    unfold Heap.recordAt
    rw [h.record]
    cases (second.record ref).parent? with
    | none => rfl
    | some parent => exact ih parent

theorem cellAt (ref : RecordRef) (hops slot : Nat) :
    first.cellAt ref hops slot = second.cellAt ref hops slot := by
  unfold Heap.cellAt
  rw [h.recordAt, h.record]

theorem getSlot (ref : RecordRef) (hops slot : Nat) :
    first.getSlot ref hops slot = second.getSlot ref hops slot := by
  unfold Heap.getSlot
  rw [h.cellAt]

theorem getSlotUnchecked (ref : RecordRef) (hops slot : Nat) :
    first.getSlotUnchecked ref hops slot = second.getSlotUnchecked ref hops slot := by
  unfold Heap.getSlotUnchecked
  rw [h.cellAt]

theorem hasBinding (ref : RecordRef) (name : String) :
    first.hasBinding ref name = second.hasBinding ref name := by
  unfold Heap.hasBinding
  rw [h.record, funext fun obj => h.has obj (.string name)]

theorem resolve? (ref : RecordRef) (name : String) :
    first.resolve? ref name = second.resolve? ref name := by
  unfold Heap.resolve? Heap.recordChain
  rw [h.recordChainFrom, funext fun record => h.hasBinding record name]

theorem getBinding (ref : RecordRef) (name : String) (strict : Bool) :
    first.getBinding ref name strict = second.getBinding ref name strict := by
  simp only [Heap.getBinding, h.record, h.get?]

theorem globalRecord (ref : RecordRef) : first.globalRecord ref = second.globalRecord ref := by
  unfold Heap.globalRecord
  rw [h.record]

end

/-! ## Changes of objects -/

theorem alloc (h : like.Heaps realm first second) {one other} (ho : like.Objects one other) :
    (first.alloc one).1 = (second.alloc other).1 ∧
      like.Heaps realm (first.alloc one).2 (second.alloc other).2 := by
  refine ⟨congrArg ObjectRef.mk h.size, ?_, fun ref => ?_, h.records, h.symbols, h.apart⟩
  · simp [Heap.alloc, h.size]
  · rw [Heap.object_alloc, Heap.object_alloc, h.size]
    split
    · exact ho
    · exact h.object ref

theorem modifyObject (h : like.Heaps realm first second) (ref : ObjectRef) {f g}
    (hf : ∀ one other, like.Objects one other → like.Objects (f one) (g other)) :
    like.Heaps realm (first.modifyObject ref f) (second.modifyObject ref g) := by
  refine ⟨?_, fun other => ?_, h.records, h.symbols, h.apart⟩
  · simp [Heap.modifyObject, h.size]
  · rw [Heap.object_modifyObject, Heap.object_modifyObject, h.size]
    split
    · exact hf _ _ (h.object other)
    · exact h.object other

theorem setPayload (h : like.Heaps realm first second) (ref : ObjectRef) {one other}
    (hp : like.Payloads one other) :
    like.Heaps realm (first.setPayload ref one) (second.setPayload ref other) :=
  h.modifyObject ref fun _ _ ho => ho.withPayload hp

section

variable (h : like.Heaps realm first second) (ref : ObjectRef) (key : PropertyKey)

include h

theorem set (v : Value) : (first.set ref key v).1 = (second.set ref key v).1 ∧
    like.Heaps realm (first.set ref key v).2 (second.set ref key v).2 := by
  unfold Heap.set
  rw [(h.object ref).canSet]
  split
  · exact ⟨rfl, h.modifyObject ref fun _ _ ho => ho.set key v⟩
  · exact ⟨rfl, h⟩

theorem define (prop : Property) : (first.define ref key prop).1 = (second.define ref key prop).1 ∧
      like.Heaps realm (first.define ref key prop).2 (second.define ref key prop).2 := by
  unfold Heap.define
  rw [(h.object ref).canDefine]
  split
  · exact ⟨rfl, h.modifyObject ref fun _ _ ho => ho.define key prop⟩
  · exact ⟨rfl, h⟩

theorem defineHidden (v : Value) :
    like.Heaps realm (first.defineHidden ref key v) (second.defineHidden ref key v) :=
  (h.define ref key _).2

theorem delete : (first.delete ref key).1 = (second.delete ref key).1 ∧
    like.Heaps realm (first.delete ref key).2 (second.delete ref key).2 := by
  unfold Heap.delete
  rw [(h.object ref).canDelete]
  split
  · exact ⟨rfl, h.modifyObject ref fun _ _ ho => ho.delete key⟩
  · exact ⟨rfl, h⟩

end

/-! ## Changes of records -/

theorem allocRecord (h : like.Heaps realm first second) (record : Record) :
    (first.allocRecord record).1 = (second.allocRecord record).1 ∧
      like.Heaps realm (first.allocRecord record).2 (second.allocRecord record).2 := by
  refine ⟨?_, h.size, h.object, ?_, h.symbols, h.apart.allocRecord record⟩ <;>
    simp [Heap.allocRecord, h.records]

theorem copyRecord (h : like.Heaps realm first second) (ref : RecordRef) :
    (first.copyRecord ref).1 = (second.copyRecord ref).1 ∧
      like.Heaps realm (first.copyRecord ref).2 (second.copyRecord ref).2 := by
  unfold Heap.copyRecord
  rw [h.record]
  exact h.allocRecord _

/-- A change of a record that keeps the global names apart. -/
theorem modifyRecord (h : like.Heaps realm first second) {ref f}
    (ha : (first.modifyRecord ref f).GlobalsApart realm) :
    like.Heaps realm (first.modifyRecord ref f) (second.modifyRecord ref f) := by
  refine ⟨h.size, h.object, ?_, h.symbols, ha⟩
  simp [Heap.modifyRecord, h.records]

end Likeness.Heaps

/-! ## Names of the global record -/

theorem Cell.write_name {cell later : Cell} {v : Value} {strict : Bool}
    (h : cell.write v strict = .ok later) : later.name = cell.name := by
  unfold Cell.write at h
  grind

namespace Heap

variable {heap : Heap} {realm : Realm} (h : heap.GlobalsApart realm) (ref : RecordRef)

theorem record_set (heap : Heap) (obj : ObjectRef) (key : PropertyKey) (v : Value)
    (ref : RecordRef) : (heap.set obj key v).2.record ref = heap.record ref := by
  unfold set
  split <;> rfl

theorem record_define (heap : Heap) (obj : ObjectRef) (key : PropertyKey) (prop : Property)
    (ref : RecordRef) : (heap.define obj key prop).2.record ref = heap.record ref := by
  unfold define
  split <;> rfl

theorem name_eq_of_mem_insertCell {cell other cells} (h : other ∈ Record.insertCell cell cells)
    : other.name = cell.name ∨ other ∈ cells := by
  induction cells with
  | nil => simp_all [Record.insertCell]
  | cons first rest ih =>
    unfold Record.insertCell at h
    split at h
    · grind
    · grind

include h

theorem GlobalsApart.setSlot (slot : Nat) (cell : Cell) :
    (heap.modifyRecord ref fun record => record.setSlot slot cell).GlobalsApart realm :=
  h.modifyRecord fun lexical varNames _ _ ha => ⟨lexical, varNames, rfl, ha⟩

theorem GlobalsApart.setCell {name : String} {old cell : Cell}
    (hf : (heap.record ref).cell? name = some old)
    (hn : (∃ obj lexical varNames, heap.record ref = .global obj lexical varNames) →
      cell.name = old.name) :
    (heap.modifyRecord ref fun record => record.setCell name cell).GlobalsApart realm := by
  refine h.modifyRecord fun lexical varNames _ hr ha => ⟨_, varNames, rfl, fun other ho => ?_⟩
  rw [hr] at hf
  have hn := hn ⟨_, _, _, hr⟩
  obtain he | he := name_eq_of_mem_insertCell ho
  · rw [he, hn]
    exact ha old (List.mem_of_find?_eq_some hf)
  · exact ha other he

theorem GlobalsApart.eraseVarName (name : String) :
    (heap.modifyRecord ref fun record => record.eraseVarName name).GlobalsApart realm := by
  refine h.modifyRecord fun lexical varNames _ _ ha => ⟨lexical, _, rfl, fun cell hc hm => ?_⟩
  exact ha cell hc ((List.mem_filter.mp hm).1)

theorem GlobalsApart.addCell {cell}
    (hn : ∀ obj lexical varNames, heap.record ref = .global obj lexical varNames →
      cell.name ∉ varNames) :
    (heap.modifyRecord ref fun record => record.addCell cell).GlobalsApart realm := by
  refine h.modifyRecord fun lexical varNames _ hr ha => ⟨_, varNames, rfl, fun other ho => ?_⟩
  obtain he | he := name_eq_of_mem_insertCell ho
  · rw [he]
    exact hn _ _ _ hr
  · exact ha other he

theorem GlobalsApart.addVarName {name : String}
    (hn : ∀ obj lexical varNames, heap.record ref = .global obj lexical varNames →
      ∀ cell ∈ lexical, cell.name ≠ name) :
    (heap.modifyRecord ref fun record => record.addVarName name).GlobalsApart realm := by
  refine h.modifyRecord fun lexical varNames _ hr ha => ⟨lexical, _, rfl, fun cell hc hm => ?_⟩
  split at hm
  · exact ha cell hc hm
  · obtain hm | hm := List.mem_append.mp hm
    · exact ha cell hc hm
    · exact hn _ _ _ hr cell hc (List.mem_singleton.mp hm)

end Heap

/-! ## Changes of bindings -/

namespace Likeness

variable (like : Likeness) (realm : Realm)

/-- Outcomes of an update that are alike. -/
inductive Updated {α : Type} : EStateM.Result Cause Heap α → EStateM.Result Cause Heap α → Prop
  | ok {first second} (v : α) : like.Heaps realm first second →
    Updated (.ok v first) (.ok v second)
  | error {first second} (cause : Cause) : like.Heaps realm first second →
    Updated (.error cause first) (.error cause second)

variable {like realm} {first second : Heap}

namespace Updated

variable {α β : Type}

theorem bind {x y : Heap.Update α} {k l : α → Heap.Update β}
    (h : like.Updated realm (x first) (y second))
    (hk : ∀ a first second, like.Heaps realm first second →
      like.Updated realm (k a first) (l a second)) :
    like.Updated realm ((x >>= k) first) ((y >>= l) second) := by
  change like.Updated realm (EStateM.bind x k first) (EStateM.bind y l second)
  unfold EStateM.bind
  generalize x first = r, y second = s at h
  cases h with
  | ok v h => exact hk v _ _ h
  | error cause h => exact .error cause h

/-- What is looked up first is still there. -/
theorem queried {f g : Heap → Except Cause α} {k l : α → Heap.Update β}
    (h : like.Heaps realm first second) (hf : f first = g second)
    (hk : ∀ a, f first = .ok a → like.Updated realm (k a first) (l a second)) :
    like.Updated realm ((Heap.Update.query f >>= k) first) ((Heap.Update.query g >>= l) second) := by
  change like.Updated realm (EStateM.bind _ k first) (EStateM.bind _ l second)
  unfold EStateM.bind Heap.Update.query
  rw [← hf]
  cases ha : f first with
  | ok a => exact hk a ha
  | error cause => exact .error cause h

theorem got {k l : Heap → Heap.Update β}
    (h : like.Updated realm (k first first) (l second second)) :
    like.Updated realm ((get >>= k) first) ((get >>= l) second) :=
  h

end Updated

namespace Heaps

variable (h : like.Heaps realm first second) (ref : RecordRef) (name : String) (v : Value)

include h

theorem setCellAt (hops slot : Nat) (cell : Cell) :
    like.Heaps realm (first.setCellAt ref hops slot cell)
      (second.setCellAt ref hops slot cell) := by
  unfold Heap.setCellAt
  rw [← h.recordAt]
  exact h.modifyRecord (h.apart.setSlot _ slot cell)

theorem setSlot (hops slot : Nat) (strict : Bool) :
    like.Updated realm (Heap.setSlot ref hops slot v strict first)
      (Heap.setSlot ref hops slot v strict second) :=
  .queried h (by rw [h.cellAt]) fun cell _ => .ok () (h.setCellAt ref hops slot cell)

theorem initializeSlot (hops slot : Nat) :
    like.Updated realm (Heap.initializeSlot ref hops slot v first)
      (Heap.initializeSlot ref hops slot v second) :=
  .queried h (h.cellAt ref hops slot) fun _ _ => .ok () (h.setCellAt ref hops slot _)

theorem setCell {old cell : Cell} (hf : (first.record ref).cell? name = some old)
    (hn : (∃ obj lexical varNames, first.record ref = .global obj lexical varNames) →
      cell.name = old.name) :
    like.Heaps realm (first.modifyRecord ref fun record => record.setCell name cell)
      (second.modifyRecord ref fun record => record.setCell name cell) :=
  h.modifyRecord (h.apart.setCell ref hf hn)

theorem initializeBinding : like.Updated realm (Heap.initializeBinding ref name v first)
      (Heap.initializeBinding ref name v second) := by
  unfold Heap.initializeBinding
  refine .got ?_
  rw [← h.record]
  cases hc : (first.record ref).cell? name with
  | some cell => exact .ok () (h.setCell ref name hc fun _ => rfl)
  | none =>
    cases (first.record ref).object? with
    | some obj => exact .ok () (h.set obj (.string name) v).2
    | none => exact .error _ h

theorem putProperty (obj : ObjectRef) (strict : Bool) :
    like.Updated realm (Heap.putProperty obj name v strict first)
      (Heap.putProperty obj name v strict second) := by
  obtain ⟨hs, h⟩ := h.set obj (.string name) v
  refine .bind (x := Heap.Update.attempt _) (y := Heap.Update.attempt _) ?_ fun done _ _ h => ?_
  · change like.Updated realm (.ok (first.set _ _ _).1 (first.set _ _ _).2)
      (.ok (second.set _ _ _).1 (second.set _ _ _).2)
    rw [hs]
    exact .ok _ h
  · split
    · exact .error _ h
    · exact .ok _ h

theorem setBinding (strict : Bool) : like.Updated realm (Heap.setBinding ref name v strict first)
      (Heap.setBinding ref name v strict second) := by
  unfold Heap.setBinding
  refine .got ?_
  rw [← h.record]
  cases hc : (first.record ref).cell? name with
  | some cell =>
    refine .queried h rfl fun cell' hw => .ok () (h.setCell ref name hc fun _ => ?_)
    exact Cell.write_name hw
  | none =>
    cases (first.record ref).object? with
    | none => exact .error _ h
    | some obj =>
      refine .got ?_
      rw [← h.has]
      split
      · exact .error _ h
      · exact h.putProperty name v obj strict

theorem deleteBinding : (first.deleteBinding ref name).1 = (second.deleteBinding ref name).1 ∧
      like.Heaps realm (first.deleteBinding ref name).2 (second.deleteBinding ref name).2 := by
  unfold Heap.deleteBinding
  rw [← h.record]
  dsimp only
  cases hc : (first.record ref).cell? name with
  | some cell =>
    cases ho : (first.record ref).object? with
    | some obj => exact ⟨rfl, h⟩
    | none =>
      dsimp only
      split
      · refine ⟨rfl, h.setCell ref name hc ?_⟩
        rintro ⟨obj, lexical, varNames, hr⟩
        rw [hr] at ho
        cases ho
      · exact ⟨rfl, h⟩
  | none =>
    cases (first.record ref).object? with
    | none => exact ⟨rfl, h⟩
    | some obj =>
      obtain ⟨hd, h⟩ := h.delete obj (.string name)
      dsimp only
      generalize first.delete obj (.string name) = one, second.delete obj (.string name) =
        other at hd h
      obtain ⟨done, first⟩ := one
      obtain ⟨done', second⟩ := other
      obtain rfl : done = done' := hd
      cases done with
      | true => exact ⟨rfl, h.modifyRecord (h.apart.eraseVarName ref name)⟩
      | false => exact ⟨rfl, h⟩

/-! ## Declarations of a script -/

theorem createMutable (deletable : Bool)
    (hn : ∀ obj lexical varNames, first.record ref = .global obj lexical varNames →
      name ∉ varNames) : like.Heaps realm (first.createMutable ref name deletable)
      (second.createMutable ref name deletable) := by
  unfold Heap.createMutable
  rw [← h.record]
  split
  · exact (h.set _ _ _).2
  · exact h.modifyRecord (h.apart.addCell ref hn)
  · exact h.modifyRecord (h.apart.addCell ref hn)

theorem createImmutable (strict : Bool)
    (hn : ∀ obj lexical varNames, first.record ref = .global obj lexical varNames →
      name ∉ varNames) : like.Heaps realm (first.createImmutable ref name strict)
      (second.createImmutable ref name strict) :=
  h.modifyRecord (h.apart.addCell ref hn)

theorem addVarName (hn : ∀ obj lexical varNames, first.record ref = .global obj lexical varNames →
      ∀ cell ∈ lexical, cell.name ≠ name) :
    like.Heaps realm (first.modifyRecord ref fun record => record.addVarName name)
      (second.modifyRecord ref fun record => record.addVarName name) :=
  h.modifyRecord (h.apart.addVarName ref hn)

theorem createGlobalVar (deletable : Bool)
    (hn : ∀ obj lexical varNames, first.record ref = .global obj lexical varNames →
      ∀ cell ∈ lexical, cell.name ≠ name) :
    like.Updated realm (Heap.createGlobalVar ref name deletable first)
      (Heap.createGlobalVar ref name deletable second) := by
  refine .queried h (h.globalRecord ref) fun ⟨obj, _⟩ _ => .ok () ?_
  dsimp only
  rw [← h.hasOwn, ← h.extensible]
  split
  · refine (h.define obj (.string name) _).2.addVarName ref name ?_
    rwa [Heap.record_define]
  · exact h.addVarName ref name hn

theorem createGlobalFunction (deletable : Bool)
    (hn : ∀ obj lexical varNames, first.record ref = .global obj lexical varNames →
      ∀ cell ∈ lexical, cell.name ≠ name) :
    like.Updated realm (Heap.createGlobalFunction ref name v deletable first)
      (Heap.createGlobalFunction ref name v deletable second) := by
  refine .queried h (h.globalRecord ref) fun ⟨obj, _⟩ _ => .ok () ?_
  dsimp only
  rw [← h.ownProperty?]
  have hd := (h.define obj (.string name)
    (Heap.functionProperty (first.ownProperty? obj (.string name)) v deletable)).2
  split
  · refine hd.addVarName ref name ?_
    rwa [Heap.record_define]
  · refine (hd.set obj (.string name) v).2.addVarName ref name ?_
    rwa [Heap.record_set, Heap.record_define]

end Heaps

end Likeness

end Ecma
