/-
Stretches of code that raise nothing: the declarations of a block and the dispatch of a switch.
What they do is followed from their first instruction to the place where the code goes on.
-/
import Mathlib.Logic.Relation
import Ecma.Proofs.InStep
import Ecma.Proofs.Integral
import Ecma.Proofs.Watch

namespace Ecma

open Code (Template Instruction Constant SwitchKey)
open Relation (ReflTransGen TransGen)

/-! ## Hops -/

/-- One instruction that goes on, whoever is called and watches. -/
structure Hop (one other : Frame × Machine) : Prop where
  advances : ∀ alarm call,
    Action.advanceUnder alarm call one.1 one.2 = .ok (.next other.1) other.2
  limits : other.2.limits = one.2.limits

section

variable {fr after : Frame} {m later : Machine} {alarm : Alarm}

theorem Hop.of_step {instr : Instruction} (hi : fr.code.instructions[fr.position]? = some instr)
    (hs : fr.stack.size ≤ m.limits.stackSize) (hl : later.limits = m.limits)
    (h : ∀ call, Action.step call (fr.jump (fr.position + 1)) instr m =
      .ok (.next after) later) : Hop (fr, m) (after, later) := by
  refine ⟨fun alarm call => ?_, hl⟩
  have hg : Action.guardedStep call (fr.jump (fr.position + 1)) instr m =
      .ok (.next after) later := by
    unfold Action.guardedStep
    rw [Action.bind_apply]
    exact (congrFun (if_neg (Nat.not_lt.mpr hs)) m).trans (h call)
  unfold Action.advanceUnder
  dsimp only
  rw [hi]
  dsimp only
  rw [Action.bind_apply, Action.attempt_of_ok hg]
  rfl

theorem runUnder_of_hop (h : Hop (fr, m) (after, later)) (n : Nat) :
    Action.runUnder alarm (n + 1) fr m = Action.runUnder alarm n after later := by
  rw [Action.runUnder, Action.bind_apply, h.advances]

end

/-- A run that begins with a stretch has the outcome of what follows, unless its fuel ends. -/
theorem runUnder_of_hops {one other} (h : TransGen Hop one other) (alarm : Alarm) :
    ∀ n, (∃ later, Action.runUnder alarm n one.1 one.2 = .error .exhausted later ∧
        later.limits = one.2.limits) ∨ ∃ less < n, Action.runUnder alarm n one.1 one.2 =
        Action.runUnder alarm less other.1 other.2 := by
  induction h using TransGen.head_induction_on with
  | single h =>
    intro n
    cases n with
    | zero => exact .inl ⟨_, rfl, rfl⟩
    | succ n => exact .inr ⟨n, Nat.lt_succ_self n, runUnder_of_hop h n⟩
  | head h _ ih =>
    intro n
    cases n with
    | zero => exact .inl ⟨_, rfl, rfl⟩
    | succ n =>
      rw [runUnder_of_hop h n]
      obtain ⟨later, he, hl⟩ | ⟨less, hlt, he⟩ := ih n
      · exact .inl ⟨later, he, hl.trans h.limits⟩
      · exact .inr ⟨less, by omega, he⟩

theorem Ends.of_hops {one other} (h : ReflTransGen Hop one other) {alarm outcome}
    (he : Ends (fun n => Action.runUnder alarm n other.1) other.2 outcome) :
    Ends (fun n => Action.runUnder alarm n one.1) one.2 outcome := by
  induction h using ReflTransGen.head_induction_on with
  | refl => exact he
  | head h _ ih =>
    obtain ⟨least, ih⟩ := ih
    exact Ends.of_succ ⟨least, fun n hf => (runUnder_of_hop h n).trans (ih n hf)⟩

/-! ## Dispatch -/

namespace Code

def Constant.toValue : Constant → Value
  | .number v => .number v
  | .string v => .string v

theorem SwitchKey.strictEquals_toValue {key : SwitchKey} {constant : Constant} (h : key.Spells constant)
    (v : Value) : v.strictEquals constant.toValue = key.matches v := by
  cases h with
  | number h =>
    cases v with
    | number v => exact Number.beq_of_integerIn? h v
    | _ => rfl
  | string =>
    cases v with
    | string v => exact Bool.beq_comm
    | _ => rfl

theorem landing_cons (case : SwitchKey × Nat) (rest : List (SwitchKey × Nat)) (otherwise : Nat)
    (v : Value) : landing (case :: rest) otherwise v =
      if case.1.matches v then case.2 else landing rest otherwise v := by
  unfold landing
  rw [List.find?_cons]
  split <;> simp_all

variable {code : Template} {reg otherwise pos : Nat} {fr : Frame} {m : Machine}
  {cases : List (SwitchKey × Nat)} {returns : List Nat}

/-- The tests of a switch go to the first case for the value in the register. -/
theorem Template.Tests.hops (h : code.Tests reg otherwise pos cases)
    (hs : fr.stack.size = 0) (hl : 2 ≤ m.limits.stackSize) :
    TransGen Hop (fr.onto code pos returns, m)
      (fr.onto code (landing cases otherwise (fr.registerValue reg)) returns, m) := by
  induction h with
  | done hj => exact .single (.of_step hj (by simp only [hs]; omega) rfl fun _ => rfl)
  | @case pos key target index constant rest hr hc hk hp he hj _ ih =>
    have hload : Hop (fr.onto code pos returns, m)
        ((fr.onto code (pos + 1) returns).push (fr.registerValue reg), m) :=
      .of_step hr (by simp only [hs]; omega) rfl fun _ => rfl
    have hconst : Hop ((fr.onto code (pos + 1) returns).push (fr.registerValue reg), m)
        (((fr.onto code (pos + 2) returns).push (fr.registerValue reg)).push
          constant.toValue, m) := by
      refine .of_step hc (by simp only [Frame.push, Stack.push, hs]; omega) rfl fun call => ?_
      dsimp only [Action.step, Action.pushConstant, Frame.jump, Frame.push]
      rw [hk]
      cases constant <;> rfl
    have hrelation : Hop (((fr.onto code (pos + 2) returns).push (fr.registerValue reg)).push
          constant.toValue, m)
        ((fr.onto code (pos + 3) returns).push
          (.boolean ((fr.registerValue reg).strictEquals constant.toValue)), m) :=
      .of_step he (by simp only [Frame.push, Stack.push, hs]; omega) rfl fun _ => rfl
    have hjump : Hop ((fr.onto code (pos + 3) returns).push
          (.boolean ((fr.registerValue reg).strictEquals constant.toValue)), m)
        (fr.onto code (if (fr.registerValue reg).strictEquals constant.toValue then
          target else pos + 4) returns, m) := by
      refine .of_step hj (by simp only [Frame.push, Stack.push, hs]; omega) rfl fun call => ?_
      cases (fr.registerValue reg).strictEquals constant.toValue <;> rfl
    rw [landing_cons]
    rw [SwitchKey.strictEquals_toValue hp] at hrelation hjump
    refine .head hload (.head hconst (.head hrelation ?_))
    split
    · next hm =>
      rw [if_pos hm] at hjump
      exact .single hjump
    · next hm =>
      rw [if_neg hm] at hjump
      exact .head hjump ih

variable (returns) in
/-- A switch goes to the first case for the value in the register. -/
theorem Template.Dispatches.hops {need : Nat}
    (h : code.Dispatches reg pos cases otherwise need) (hs : fr.stack.size = 0)
    (hl : need ≤ m.limits.stackSize) : TransGen Hop (fr.onto code pos returns, m)
      (fr.onto code (landing cases otherwise (fr.registerValue reg)) returns, m) := by
  cases h with
  | tests h => exact h.hops hs hl
  | @table index table hr ht hi hg =>
    rw [← hg]
    have hload : Hop (fr.onto code pos returns, m)
        ((fr.onto code (pos + 1) returns).push (fr.registerValue reg), m) :=
      .of_step hr (by simp only [hs]; omega) rfl fun _ => rfl
    refine .head hload (.single ?_)
    refine .of_step ht (by simp only [Frame.push, Stack.push, hs]; omega) rfl fun call => ?_
    dsimp only [Action.step, Action.switchTable, Frame.jump, Frame.push]
    rw [hi]
    cases fr.registerValue reg <;> rfl

end Code

/-! ## Declarations -/

namespace Heap

theorem lt_size_of_record_parent {heap : Heap} {ref parent : RecordRef} {cells}
    (h : heap.record ref = .declarative (some parent) cells) : ref.index < heap.records.size := by
  refine Nat.lt_of_not_le fun hs => ?_
  unfold record at h
  rw [Array.getD_eq_getD_getElem?, Array.getElem?_eq_none hs] at h
  cases h

theorem record_addCell {heap : Heap} {ref parent} {cells : Array Cell}
    (h : heap.record ref = .declarative (some parent) cells) (cell : Cell) :
    (heap.modifyRecord ref fun record => record.addCell cell).record ref =
      .declarative (some parent) (cells.push cell) := by
  rw [record_modifyRecord, if_pos ⟨rfl, lt_size_of_record_parent h⟩, h]
  rfl

end Heap

namespace Action

/-- A new function leaves everything but objects as it is. -/
structure Untouched (m later : Machine) : Prop where
  records : later.heap.records = m.heap.records
  realm : later.realm = m.realm
  limits : later.limits = m.limits

theorem Untouched.trans {one other last} (h : Untouched one other) (h' : Untouched other last)
    : Untouched one last :=
  ⟨h'.records.trans h.records, h'.realm.trans h.realm, h'.limits.trans h.limits⟩

/-- An action that always gives a value and leaves the records as they are. -/
def Sure {α : Type} (action : Action α) : Prop :=
  ∀ m, ∃ a later, action m = .ok a later ∧ Untouched m later

namespace Sure

variable {α β : Type}

theorem pure (a : α) : Sure (pure a) := fun m => ⟨a, m, rfl, rfl, rfl, rfl⟩

theorem bind {x : Action α} {k : α → Action β} (hx : Sure x) (hk : ∀ a, Sure (k a)) :
    Sure (x >>= k) := by
  intro m
  obtain ⟨a, later, he, hu⟩ := hx m
  obtain ⟨b, last, he', hu'⟩ := hk a later
  refine ⟨b, last, ?_, hu.trans hu'⟩
  rw [bind_apply, he]
  exact he'

theorem realm : Sure realm := fun m => ⟨_, m, rfl, rfl, rfl, rfl⟩

theorem alloc (obj : Object) : Sure (alloc obj) := fun _ => ⟨_, _, rfl, rfl, rfl, rfl⟩

theorem define (ref : ObjectRef) (key : PropertyKey) (prop : Property) :
    Sure (change fun heap => (heap.define ref key prop).2) := by
  refine fun m => ⟨_, _, rfl, ?_, rfl, rfl⟩
  dsimp only [Heap.define]
  split <;> rfl

theorem createClosure (code : Template) (record : RecordRef) (recv : Option Value) :
    Sure (createClosure code record recv) := by
  unfold Action.createClosure
  refine realm.bind fun _ => (alloc _).bind fun ref => (define ref _ _).bind fun _ =>
    (define ref _ _).bind fun _ => realm.bind fun _ => ?_
  split
  · refine (alloc _).bind fun prototype => ?_
    dsimp only
    split
    · exact (define prototype _ _).bind fun _ => (define ref _ _).bind fun _ => pure ref
    · exact (define ref _ _).bind fun _ => pure ref
  · exact pure ref

end Sure

end Action

open Likeness

variable {like : Likeness} {first second : Template} {fr : Frame} {m m' : Machine} {count : Nat}

/-- A function and its twin are made alike, beside the records. -/
theorem createClosure_tracks {one other} (h : like.code one other) (record : RecordRef)
    (recv : Option Value) (hm : like.Machines m m') :
    like.Tracks (fun a b later => a = b ∧ Action.Untouched m later)
      (Action.createClosure one record recv) (fun _ => Action.createClosure other record recv)
      m m' := by
  refine ((Action.createClosure_keeps h record recv).tracks hm).with_first fun a later he => ?_
  obtain ⟨ref, mid, he', hu⟩ := Action.Sure.createClosure one record recv m
  rw [he] at he'
  cases he'
  exact hu

/-- A binding that is added to records that hold so many. -/
theorem Op.binds_adds {op : Code.Op} (h : op.binds = true) :
    ∃ add : RecordRef → String → Bool → Heap → Heap, (∀ call fr a flag m,
        Action.step call fr ⟨op, some (.binding a flag)⟩ m = .ok (.next fr)
            { m with heap := add fr.record (fr.code.nameAt a) flag m.heap }) ∧
      ∀ {like : Likeness} {realm heap heap' ref parent cells} name flag,
        heap.record ref = .declarative (some parent) cells → like.Heaps realm heap heap' →
        like.Heaps realm (add ref name flag heap) (add ref name flag heap') ∧
          ∃ cell, (add ref name flag heap).record ref =
            .declarative (some parent) (cells.push cell) := by
  cases op with
  | createMutableBinding =>
    refine ⟨fun ref name flag heap => heap.createMutable ref name flag, fun _ _ _ _ _ => rfl,
      fun {_ _ heap heap' ref parent cells} name flag hr hh => ⟨hh.createMutable ref name flag ?_, ?_⟩⟩
    · intro _ _ _ hg
      rw [hr] at hg
      cases hg
    · refine ⟨.forVariable name flag, ?_⟩
      dsimp only
      unfold Heap.createMutable
      rw [hr]
      exact Heap.record_addCell hr _
  | createImmutableBinding =>
    refine ⟨fun ref name flag heap => heap.createImmutable ref name flag, fun _ _ _ _ _ => rfl,
      fun {_ _ heap heap' ref parent cells} name flag hr hh =>
        ⟨hh.createImmutable ref name flag ?_, .forConstant name flag, Heap.record_addCell hr _⟩⟩
    intro _ _ _ hg
    rw [hr] at hg
    cases hg
  | _ => cases h

namespace Code

theorem Template.Holds.head {code : Template} {pos : Nat} {instr : Instruction}
    {rest : List Instruction} (h : code.Holds pos (instr :: rest)) :
    code.instructions[pos]? = some instr :=
  h 0 (Nat.zero_lt_succ _)

theorem Template.Holds.tail {code : Template} {pos instr rest}
    (h : code.Holds pos (instr :: rest)) : code.Holds (pos + 1) rest := by
  intro index hi
  rw [Nat.add_assoc, Nat.add_comm 1]
  exact h (index + 1) (Nat.succ_lt_succ hi)

end Code

theorem makeClosure_of_ok {code index ref mid} (hf : fr.code.functions[index]? = some code)
    (hc : Action.createClosure code fr.record
      (if code.kind.isArrow then some fr.receiver else none) m = .ok ref mid) (call : Caller) :
    Action.step call fr ⟨.closure, some (.function index)⟩ m =
      .ok (.next (fr.push (.object ref))) mid := by
  dsimp only [Action.step, Action.makeClosure]
  rw [hf]
  dsimp only [Action.pushing]
  rw [Action.bind_apply, Action.bind_apply, hc]
  rfl

theorem initializeBinding_of_ok (fr : Frame) {v slot heap}
    (hu : Heap.initializeSlot fr.record 0 slot v m.heap = .ok () heap) (call : Caller) :
    Action.step call (fr.push v) ⟨.initializeBinding, some (.slot 0 slot)⟩ m =
      .ok (.next fr) { m with heap } := by
  change (Action.update (Heap.initializeSlot fr.record 0 slot v) >>= fun _ =>
    pure (Effect.next fr)) m = _
  rw [Action.bind_apply, Action.update_of_ok hu]
  rfl

theorem Heap.initializeSlot_of_lt {heap : Heap} {ref parent} {cells : Array Cell} {slot}
    (h : heap.record ref = .declarative (some parent) cells) (hs : slot < cells.size) (v : Value)
    : ∃ later cells', Heap.initializeSlot ref 0 slot v heap = .ok () later ∧
      later.record ref = .declarative (some parent) cells' ∧ cells'.size = cells.size := by
  have hc : heap.cellAt ref 0 slot = .ok cells[slot] := by
    simp only [Heap.cellAt, Heap.recordAt, h, Array.getElem?_eq_getElem hs]
  refine ⟨heap.setCellAt ref 0 slot (cells[slot].withValue v),
    cells.setIfInBounds slot (cells[slot].withValue v), ?_, ?_, Array.size_setIfInBounds⟩
  · change (Update.query _ >>= fun cell => Update.change _) heap = _
    simp only [bind, EStateM.bind, Update.query, hc]
    rfl
  · simp only [Heap.setCellAt, Heap.recordAt]
    rw [Heap.record_modifyRecord, if_pos ⟨rfl, Heap.lt_size_of_record_parent h⟩, h]
    rfl

/-- Instructions in a row bring a machine to another, wherever they stand, with the frame as it
was behind them. -/
def Goes (code : Template) (fr : Frame) (instructions : List Instruction)
    (m later : Machine) : Prop :=
  ∀ pos returns, code.Holds pos instructions →
    ReflTransGen Hop (fr.onto code pos returns, m)
      (fr.onto code (pos + instructions.length) returns, later)

namespace Goes

variable {code : Template} {later last : Machine}

theorem nil : Goes code fr [] m m := fun _ _ _ => .refl

theorem append {one other} (h : Goes code fr one m later) (h' : Goes code fr other later last)
    : Goes code fr (one ++ other) m last := by
  intro pos returns hp
  refine (h pos returns fun index hi => ?_).trans ?_
  · rw [hp index (by simp; omega), List.getElem?_append_left hi]
  · rw [List.length_append, ← Nat.add_assoc]
    refine h' (pos + one.length) returns fun index hi => ?_
    rw [Nat.add_assoc, hp (one.length + index) (by simp; omega),
      List.getElem?_append_right (by omega), Nat.add_sub_cancel_left]

variable (hs : fr.stack.size = 0) (hl : 1 ≤ m.limits.stackSize)

include hs hl

theorem bind {op : Code.Op} {index : Nat} {flag : Bool} {heap : Heap}
    (h : ∀ call pos returns, Action.step call (fr.onto code pos returns)
      ⟨op, some (.binding index flag)⟩ m =
        .ok (.next (fr.onto code pos returns)) { m with heap }) :
    Goes code fr [⟨op, some (.binding index flag)⟩] m { m with heap } :=
  fun pos returns hp =>
    .single (.of_step hp.head (by simp only [hs]; omega) rfl fun call => h call _ _)

theorem function {index slot} {fn : Template} {ref} {mid : Machine} {heap}
    (hf : code.functions[index]? = some fn) (hc : Action.createClosure fn fr.record
      (if fn.kind.isArrow then some fr.receiver else none) m = .ok ref mid)
    (hu : mid.limits = m.limits)
    (hi : Heap.initializeSlot fr.record 0 slot (.object ref) mid.heap = .ok () heap) : Goes code fr
      [⟨.closure, some (.function index)⟩, ⟨.initializeBinding, some (.slot 0 slot)⟩] m
      { mid with heap } := by
  intro pos returns hp
  have hmade : Hop (fr.onto code pos returns, m)
      ((fr.onto code (pos + 1) returns).push (.object ref), mid) :=
    .of_step hp.head (by simp only [hs]; omega) hu (makeClosure_of_ok hf hc)
  refine .head hmade (.single (.of_step hp.tail.head ?_ rfl
    (initializeBinding_of_ok (fr.onto code (pos + 2) returns) hi)))
  rw [hu]
  simp only [Frame.push, Stack.push, hs]
  omega

end Goes

open Code (Declares)

variable (like) in
/-- Declarations do the same to two machines, wherever they stand. -/
theorem Code.Declares.goes {one other}
    (h : Declares (first.Share second) first.functions.length count one other)
    (hlen : first.functions.length = second.functions.length)
    (hfun : ∀ (index : Nat) f g, first.functions[index]? = some f →
      second.functions[index]? = some g → like.code f g) (hs : fr.stack.size = 0)
    (hr : 1 ≤ like.room) (hm : like.Machines m m') (hc : (Scene.cells count).Holds m fr) :
    ∃ later later', like.Machines later later' ∧ Goes first fr one m later ∧
      Goes second fr other m' later' := by
  have hroom := hm.room
  have hl : 1 ≤ m.limits.stackSize := by omega
  have hl' : 1 ≤ m'.limits.stackSize := hm.limits ▸ hl
  induction h generalizing m m' with
  | done => exact ⟨m, m', hm, .nil, .nil⟩
  | @bind count op a b name flag rest rest' hb hn _ ih =>
    obtain ⟨add, hstep, hadd⟩ := Op.binds_adds hb
    obtain ⟨parent, cells, hrec, hsize⟩ := hc
    obtain ⟨hh, cell, hrec'⟩ := hadd (first.nameAt a) flag hrec hm.heaps
    obtain ⟨later, later', hlast, h1, h2⟩ :=
      ih (hm.withHeap hh) ⟨parent, _, hrec', by simp [hsize]⟩ hroom hl hl'
    refine ⟨later, later', hlast, .append (.bind hs hl fun call pos returns => hstep ..) h1,
      .append (.bind hs hl' fun call pos returns => ?_) h2⟩
    rw [hstep, ← hn.nameAt_eq]
  | @function count index slot rest rest' hi hslot _ ih =>
    have hf := List.getElem?_eq_getElem hi
    have hi' : index < second.functions.length := hlen ▸ hi
    have hf' := List.getElem?_eq_getElem hi'
    have hcode := hfun index _ _ hf hf'
    let recv := if first.functions[index].kind.isArrow then some fr.receiver else none
    obtain ⟨ref, mid, hmade, -⟩ := Action.Sure.createClosure first.functions[index] fr.record recv m
    have htracks := createClosure_tracks hcode fr.record recv hm
    unfold Likeness.Tracks at htracks
    rw [hmade] at htracks
    cases htracks with
    | @ok _ _ _ mid' he hmid hr =>
      obtain ⟨rfl, hu⟩ := hr
      obtain ⟨least, he⟩ := he
      have hmade' := he least (Nat.le_refl least)
      obtain ⟨parent, cells, hrec, hsize⟩ := hc
      have hrec : mid.heap.record fr.record = .declarative (some parent) cells := by
        rw [← hrec]
        simp only [Heap.record, hu.records]
      obtain ⟨heap, cells', hinit, hrec', hsize'⟩ :=
        Heap.initializeSlot_of_lt hrec (hsize ▸ hslot) (.object ref)
      have hupdated := hmid.heaps.initializeSlot fr.record (.object ref) 0 slot
      rw [hinit] at hupdated
      generalize hinit' : Heap.initializeSlot fr.record 0 slot (.object ref) mid'.heap = r
        at hupdated
      cases hupdated with
      | @ok _ heap' _ hh =>
        obtain ⟨later, later', hlast, h1, h2⟩ :=
          ih (hmid.withHeap hh) ⟨parent, cells', hrec', hsize'.trans hsize⟩ hmid.room
            (hu.limits ▸ hl) (hmid.limits ▸ hu.limits ▸ hl)
        have hkind : first.functions[index].kind = second.functions[index].kind :=
          (like.agrees hcode).kind
        refine ⟨later, later', hlast, .append (.function hs hl hf hmade hu.limits hinit) h1,
          .append (.function hs hl' hf' ?_ ?_ hinit') h2⟩
        · rw [← hkind]
          exact hmade'
        · rw [← hmid.limits, hu.limits, hm.limits]

/-- Declarations bring a frame to where the code goes on after them, in line or apart. -/
theorem Goes.stands {code instructions pos next later} (h : Goes code fr instructions m later)
    (hp : code.Stands pos instructions next) (hne : instructions ≠ []) (hs : fr.stack.size = 0) :
    TransGen Hop (fr.onto code pos [], m) (fr.onto code next [], later) := by
  cases hp with
  | inline hp =>
    obtain he | ht := Relation.reflTransGen_iff_eq_or_transGen.mp (h pos [] hp)
    · have hl := List.length_pos_iff.mpr hne
      have : pos + instructions.length = pos := congrArg (fun state => state.1.position) he
      omega
    · exact ht
  | @apart unit entry hc hu hp =>
    have hcall : Hop (fr.onto code pos [], m) (fr.onto code entry [pos + 1], m) := by
      refine .of_step hc (by simp only [hs]; omega) rfl fun call => ?_
      dsimp only [Action.step, Action.callUnit, Frame.jump]
      rw [hu]
      rfl
    have hreturn : Hop (fr.onto code (entry + instructions.length) [pos + 1], later)
        (fr.onto code (pos + 1) [], later) := by
      have hi : code.instructions[entry + instructions.length]? = some ⟨.returnUnit, none⟩ := by
        rw [hp instructions.length (by simp)]
        simp
      exact .of_step hi (by simp only [hs]; omega) rfl fun _ => rfl
    refine TransGen.head' hcall (ReflTransGen.tail (h entry [pos + 1] fun index hi => ?_) hreturn)
    rw [hp index (by simp; omega), List.getElem?_append_left hi]

end Ecma
