/-
Runs in step: a frame and its twin, in codes that are in step, run to the same end on machines
that are alike. The induction is on the fuel of the first run; at each point both frames take an
instruction, or a stretch of them.
-/
import Ecma.Proofs.Globals
import Ecma.Proofs.InStep.StraightCode

namespace Ecma

open Code (Template Instruction Operand Op Handler Matching InStep HandlersAlike)

theorem Stack.ext_items {stack other : Stack} (h : stack.items = other.items) : stack = other := by
  obtain ⟨items, size, hs⟩ := stack
  obtain ⟨items', size', hs'⟩ := other
  cases h
  cases hs.trans hs'.symm
  rfl

/-! ## Frames -/

/-- A frame and its twin at a point. -/
inductive At (first second : Template) (points : Points) (m : Machine) : Frame → Frame → Prop
  | intro {fr : Frame} {pos shape} : fr.code = first → fr.returns = [] →
    points fr.position pos shape → fr.stack.size = shape.height →
    shape.scene.Holds m fr → At first second points m fr (fr.onto second pos [])

/-- A suspended frame and its twin, which go on at a point. -/
inductive Resting (first second : Template) (points : Points) : Frame → Frame → Prop
  | intro {fr : Frame} {pos target target'} : fr.code = first → fr.returns = [] →
    first.kind.isResumable = true → first.resume[fr.state]? = some target →
    second.resume[fr.state]? = some target' →
    points.Leads target target' ⟨fr.stack.size, .any⟩ →
    Resting first second points fr (fr.onto second pos [])

def FunctionsInStep (room : Nat) (first second : Template) : Prop :=
  ∀ (index : Nat) one other, first.functions[index]? = some one →
    second.functions[index]? = some other → InStep room one other

/-- Frames that wait in codes in step. -/
def Waiting (room : Nat) (fr twin : Frame) : Prop :=
  ∃ first second points, Matching room first second points ∧ FunctionsInStep room first second ∧
    Resting first second points fr twin

/-- Frames at a point of codes in step, or resumed to get there. -/
def Ready (room : Nat) (m : Machine) (fr twin : Frame) : Prop :=
  ∃ first second points, Matching room first second points ∧ FunctionsInStep room first second ∧
    (At first second points m fr twin ∨
      ∃ one other resumption, Resting first second points one other ∧
        fr = one.resume resumption ∧ twin = other.resume resumption)

theorem Scene.Holds.of_records {m later : Machine} {fr : Frame} {scene : Scene}
    (hr : m.realm = later.realm) (hh : m.heap.records = later.heap.records)
    (h : scene.Holds m fr) : scene.Holds later fr := by
  have he : ∀ ref, later.heap.record ref = m.heap.record ref := fun ref => by
    simp only [Heap.record, hh]
  cases scene with
  | any => trivial
  | start => exact ⟨h.1, by simpa only [he] using h.2⟩
  | cells count => simpa only [Scene.Holds, he] using h
  | globals names vars => simpa only [Scene.Holds, he, hr] using h

section

variable {first second : Template} {points : Points} {m later : Machine} {fr twin : Frame}
  {room : Nat}

theorem At.of_leads {pos shape} (hc : fr.code = first) (hr : fr.returns = [])
    (hp : points.Leads fr.position pos shape) (hh : fr.stack.size = shape.height)
    (hs : shape.scene.Holds m fr) : At first second points m fr (fr.onto second pos []) := by
  obtain ⟨other, hp, hf⟩ := hp
  exact .intro hc hr hp (hh.trans hf.height) (hs.fits hf.scene)

theorem At.of_records (h : At first second points m fr twin)
    (hr : m.realm = later.realm) (hh : m.heap.records = later.heap.records) :
    At first second points later fr twin := by
  cases h with
  | intro hc hn hp hs h => exact .intro hc hn hp hs (h.of_records hr hh)

/-- Where code begins, codes in step are at a point. -/
theorem At.entry (hm : Matching room first second points) (hc : fr.code = first)
    (hp : fr.position = 0) (hr : fr.returns = []) (hs : fr.stack.size = 0)
    (hh : first.kind.entry.scene.Holds m fr) :
    At first second points m fr (fr.onto second 0 []) := by
  refine .of_leads hc hr (hp ▸ hm.entry) (hs.trans ?_) hh
  cases first.kind <;> rfl

theorem holds_entry {kind : Code.FunctionKind} {parent} (hn : fr.resumption = none)
    (hr : m.heap.record fr.record = .declarative (some parent) #[]) :
    kind.entry.scene.Holds m fr := by
  cases kind with
  | script => exact fun _ _ _ _ => ⟨nofun, nofun⟩
  | _ => exact ⟨hn, parent, hr⟩

theorem start_onto (ha : first.Agrees second) (record : RecordRef) (recv : Value)
    (callee : Option ObjectRef) (args : List Value) : Frame.start second record recv callee args =
      (Frame.start first record recv callee args).onto second 0 [] := by
  simp only [Frame.start, Frame.onto, ha.registers]

/-- Code and frames in step as a likeness. -/
def alike (room : Nat) : Likeness where
  code := InStep room
  waiting := Waiting room
  ready := Ready room
  room := room
  agrees h := by
    cases h with
    | intro points hm _ => exact hm.agrees
  fresh := by
    intro first second m parent record recv callee args h hr
    cases h with
    | intro points hm hf =>
      refine ⟨first, second, points, hm, hf, .inl ?_⟩
      rw [start_onto hm.agrees]
      exact .entry hm rfl rfl rfl rfl (holds_entry rfl hr)
  keeps := by
    rintro fr twin m later ⟨first, second, points, hm, hf, h | h⟩ hr hh
    · exact ⟨first, second, points, hm, hf, .inl (h.of_records hr hh)⟩
    · exact ⟨first, second, points, hm, hf, .inr h⟩
  wakes := by
    rintro fr twin m resumption ⟨first, second, points, hm, hf, h⟩
    exact ⟨first, second, points, hm, hf, .inr ⟨fr, twin, resumption, h, rfl, rfl⟩⟩

end

/-! ## One instruction -/

/-- What an instruction makes of a frame and of its twin. -/
inductive Reached (room : Nat) (first second : Template) (points : Points) (m : Machine) :
    Effect → Effect → Prop
  | next {fr twin} : At first second points m fr twin →
    Reached room first second points m (.next fr) (.next twin)
  | exit {exit exit'} : Action.Exits (alike room) exit exit' →
    Reached room first second points m (.exit exit) (.exit exit')
  | raise {exception fr pos} : fr.code = first → fr.returns = [] →
    Reached room first second points m (.raise exception fr)
      (.raise exception (fr.onto second pos []))

namespace Reached

open Ecma.Action

variable {room : Nat} {first second : Template} {points : Points} {m m' : Machine}
  {fr : Frame} {pos height : Nat}

/-- A frame that goes on after a plain instruction. -/
theorem of_moved {height one other} (hr : fr.returns = [])
    (hf : points.Leads fr.position pos ⟨height, .any⟩)
    (h : Moved fr second pos [] height one other) :
    Reached room fr.code second points m one other := by
  cases h with
  | next hv hs =>
    rw [← hv.position] at hf
    exact .next (.of_leads hv.code (hv.returns.trans hr) hf hs trivial)
  | raise hv => exact .raise hv.code (hv.returns.trans hr)

/-- Both instructions go on, and lead to results that are related. -/
abbrev Follows (room : Nat) (second : Template) (points : Points) (m m' : Machine)
    (fr : Frame) (pos : Nat) (one other : Instruction) (call : Caller)
    (more : Nat → Caller) : Prop :=
  (alike room).Tracks
    (fun effect effect' later => Reached room fr.code second points later effect effect')
    (step call fr one) (fun n => step (more n) (fr.onto second pos []) other)
    m m'

variable {call : Caller} {more : Nat → Caller} (hm : (alike room).Machines m m')
  (hr : fr.returns = [])

include hm hr

/-! ### Records -/

theorem enter (hf : points.Leads fr.position pos ⟨fr.stack.size, .cells 0⟩) :
    Follows room second points m m' fr pos ⟨.pushBlockEnv, none⟩
      ⟨.pushBlockEnv, none⟩ call more := by
  have hs : m.heap.records.size = m'.heap.records.size := by rw [hm.heaps.records]
  refine .of_ok rfl (.of_eq fun _ => rfl)
    (hm.withHeap (hm.heaps.allocRecord (.declarative (some fr.record) #[])).2) ?_
  dsimp only
  rw [← hs]
  refine .next (.of_leads rfl hr hf rfl ⟨fr.record, #[], ?_, rfl⟩)
  exact (Heap.record_allocRecord ..).trans (if_pos rfl)

theorem begin (hs : Scene.start.Holds m fr)
    (hf : points.Leads fr.position pos ⟨fr.stack.size, .cells 0⟩) :
    Follows room second points m m' fr pos ⟨.resumeDispatch, none⟩
      ⟨.resumeDispatch, none⟩ call more := by
  have hd : ∀ call fr, fr.resumption = none → ∀ m,
      step call fr ⟨.resumeDispatch, none⟩ m = .ok (.next fr) m := by
    intro call fr hn m
    dsimp only [step, resumeDispatch]
    rw [hn]
    rfl
  exact .of_ok (hd _ _ hs.1 _) (.of_eq fun _ => hd _ (fr.onto second pos []) hs.1 _) hm
    (.next (.of_leads rfl hr hf rfl (hs.fits .start)))

theorem bind {op a b count name flag} (hb : op.binds = true)
    (hn : fr.code.Share second a b (.string name)) (hs : (Scene.cells count).Holds m fr)
    (hf : points.Leads fr.position pos ⟨fr.stack.size, .cells (count + 1)⟩) :
    Follows room second points m m' fr pos ⟨op, some (.binding a flag)⟩
      ⟨op, some (.binding b flag)⟩ call more := by
  obtain ⟨add, hstep, hadd⟩ := Op.binds_adds hb
  obtain ⟨parent, cells, hrec, hsize⟩ := hs
  obtain ⟨hh, cell, hrec'⟩ := hadd (fr.code.nameAt a) flag hrec hm.heaps
  refine .of_ok (hstep _ _ _ _ _) (.of_eq fun _ => ?_) (hm.withHeap hh)
    (.next (.of_leads rfl hr hf rfl ⟨parent, _, hrec', by simp [hsize]⟩))
  rw [hstep, ← hn.nameAt_eq]

/-! ### Functions -/

theorem function {index} {scene : Scene} (hfun : FunctionsInStep room fr.code second)
    (hlen : fr.code.functions.length = second.functions.length) (hs : scene.Holds m fr)
    (hf : points.Leads fr.position pos ⟨fr.stack.size + 1, scene⟩) :
    Follows room second points m m' fr pos
      ⟨.closure, some (.function index)⟩ ⟨.closure, some (.function index)⟩ call more := by
  dsimp only [Follows, step, makeClosure, Frame.onto]
  cases ho : fr.code.functions[index]? with
  | none =>
    have hn : second.functions[index]? = none := by
      rw [List.getElem?_eq_none_iff] at ho ⊢
      omega
    rw [hn]
    exact .raise hm
  | some one =>
    obtain ⟨other, ht⟩ : ∃ other, second.functions[index]? = some other := by
      have := (List.getElem?_eq_some_iff.mp ho).1
      exact ⟨_, List.getElem?_eq_getElem (by omega)⟩
    rw [ht]
    have hcode := hfun index one other ho ht
    have hk := ((alike room).agrees hcode).kind
    dsimp only [pushing]
    rw [← hk]
    generalize (if one.kind.isArrow = true then some fr.receiver else none) = recv
    have hmade : (alike room).Tracks (fun (a b : Value) later => a = b ∧ Untouched m later)
        (do return .object (← createClosure one fr.record recv))
        (fun _ => do return .object (← createClosure other fr.record recv))
        m m' :=
      .bind (createClosure_tracks hcode fr.record recv hm) fun _ _ _ _ hm hk =>
        .pure hm ⟨congrArg Value.object hk.1, hk.2⟩
    refine .bind hmade fun a b later later' hm hk => ?_
    rw [← hk.1]
    exact .pure hm (.next (.of_leads rfl hr hf rfl
      (hs.of_records hk.2.realm.symm hk.2.records.symm)))

/-! ### Global names -/

section

variable {a b : Nat} {name : String} {names vars : List String} {scene : Scene}
  (hn : fr.code.Share second a b (.string name))

include hn

omit hm hr in
theorem nameAt_onto : (fr.onto second pos []).code.nameAt b = name := by
  dsimp only
  unfold Template.nameAt
  rw [hn.2]

omit hm hr in
theorem nameAt_frame : fr.code.nameAt a = name := by
  unfold Template.nameAt
  rw [hn.1]

theorem checkLexical (hs : (Scene.globals names vars).Holds m fr)
    (hf : points.Leads fr.position pos ⟨fr.stack.size, .globals (name :: names) vars⟩) :
    Follows room second points m m' fr pos
      ⟨.checkGlobalLexical, some (.name a)⟩ ⟨.checkGlobalLexical, some (.name b)⟩ call more := by
  obtain ⟨lexical, varNames, hg, hg', -⟩ := hm.globals
  have hx := checkLexical_eq fr .checkGlobalLexical a hg
  have hy := checkLexical_eq (fr.onto second pos []) .checkGlobalLexical b hg'
  rw [nameAt_frame hn] at hx
  rw [nameAt_onto hn, hm.heaps.refusesLexical] at hy
  refine .of_checked hm hx hy fun hp => .next (.of_leads rfl hr hf rfl ?_)
  intro object lexical' varNames' hg''
  cases hg.symm.trans hg''
  obtain ⟨hl, hv⟩ := hs _ _ _ hg
  refine ⟨fun other ho => ?_, hv⟩
  obtain rfl | ho := List.mem_cons.mp ho
  · intro hc
    simp [Heap.refusesLexical, hc] at hp
  · exact hl other ho

theorem checkVar (hs : (Scene.globals names vars).Holds m fr)
    (hf : points.Leads fr.position pos ⟨fr.stack.size, .globals names (name :: vars)⟩) :
    Follows room second points m m' fr pos
      ⟨.checkGlobalVar, some (.name a)⟩ ⟨.checkGlobalVar, some (.name b)⟩ call more := by
  obtain ⟨lexical, varNames, hg, hg', -⟩ := hm.globals
  have hx := checkVar_eq fr .checkGlobalVar a hg
  have hy := checkVar_eq (fr.onto second pos []) .checkGlobalVar b hg'
  rw [nameAt_frame hn] at hx
  rw [nameAt_onto hn] at hy
  refine .of_checked hm hx hy fun hp => .next (.of_leads rfl hr hf rfl ?_)
  intro object lexical' varNames' hg''
  cases hg.symm.trans hg''
  obtain ⟨hl, hv⟩ := hs _ _ _ hg
  refine ⟨hl, fun other ho cell hc => ?_⟩
  obtain rfl | ho := List.mem_cons.mp ho
  · simp only [Bool.not_eq_true', List.any_eq_false, beq_iff_eq] at hp
    exact hp cell hc
  · exact hv other ho cell hc

theorem checkFunction (hs : scene.Holds m fr)
    (hf : points.Leads fr.position pos ⟨fr.stack.size, scene⟩) :
    Follows room second points m m' fr pos
      ⟨.checkGlobalFunction, some (.name a)⟩ ⟨.checkGlobalFunction, some (.name b)⟩ call more := by
  obtain ⟨lexical, varNames, hg, hg', -⟩ := hm.globals
  have hx := checkFunction_eq fr .checkGlobalFunction a hg
  have hy := checkFunction_eq (fr.onto second pos []) .checkGlobalFunction b hg'
  rw [nameAt_frame hn] at hx
  rw [nameAt_onto hn, hm.heaps.takesFunction] at hy
  exact .of_checked hm hx hy fun _ => .next (.of_leads rfl hr hf rfl hs)

theorem checkDeclarable (hs : scene.Holds m fr)
    (hf : points.Leads fr.position pos ⟨fr.stack.size, scene⟩) :
    Follows room second points m m' fr pos
      ⟨.checkGlobalVarDeclarable, some (.name a)⟩ ⟨.checkGlobalVarDeclarable, some (.name b)⟩ call
      more := by
  obtain ⟨lexical, varNames, hg, hg', -⟩ := hm.globals
  have hx := checkDeclarable_eq fr .checkGlobalVarDeclarable a hg
  have hy := checkDeclarable_eq (fr.onto second pos []) .checkGlobalVarDeclarable b hg'
  rw [nameAt_frame hn] at hx
  rw [nameAt_onto hn, hm.heaps.takesVar] at hy
  exact .of_checked hm hx hy fun _ => .next (.of_leads rfl hr hf rfl hs)

theorem declareLexical {constant} (hs : (Scene.globals names vars).Holds m fr) (hin : name ∈ names)
    (hout : name ∉ vars)
    (hf : points.Leads fr.position pos ⟨fr.stack.size, .globals names vars⟩) :
    Follows room second points m m' fr pos ⟨.createGlobalLexical, some (.binding a constant)⟩
      ⟨.createGlobalLexical, some (.binding b constant)⟩ call more := by
  obtain ⟨lexical, varNames, hg, hg', -⟩ := hm.globals
  obtain ⟨hl, hv⟩ := hs _ _ _ hg
  have hx : step call fr ⟨.createGlobalLexical, some (.binding a constant)⟩ m = _ :=
    declareLexical_eq fr _ a constant
  have hy : ∀ n, step (more n) (fr.onto second pos [])
      ⟨.createGlobalLexical, some (.binding b constant)⟩ m' = _ :=
    fun _ => declareLexical_eq (fr.onto second pos []) _ b constant
  rw [nameAt_frame hn] at hx
  rw [nameAt_onto hn, ← congrArg Realm.globalRecord hm.realm] at hy
  refine .of_ok hx (.of_eq hy)
    (hm.withHeap (hm.heaps.withLexical hg (hl name hin) constant)) (.next (.of_leads rfl hr hf rfl ?_))
  intro object lexical' varNames' hg''
  cases (Heap.record_withLexical hg name constant).symm.trans hg''
  refine ⟨hl, fun other ho cell hc => ?_⟩
  obtain he | hc := Heap.name_eq_of_mem_insertCell hc
  · rintro rfl
    apply hout
    rw [show cell.name = name from he.trans (by cases constant <;> rfl)] at ho
    exact ho
  · exact hv other ho cell hc

omit hm hr hn in
/-- A name that is declared as a variable is not one of the lexical ones. -/
theorem holds_noted {heap object lexical varNames} (hs : (Scene.globals names vars).Holds m fr)
    (hg : m.HasGlobals object lexical varNames) (hout : name ∉ names)
    (hh : heap.record m.realm.globalRecord = .global object lexical (Heap.noted varNames name)) :
    (Scene.globals names vars).Holds { m with heap } fr := by
  obtain ⟨hl, hv⟩ := hs _ _ _ hg
  intro object' lexical' varNames' hg'
  cases hh.symm.trans hg'
  refine ⟨fun other ho hc => ?_, hv⟩
  obtain hc | rfl := Heap.mem_noted.mp hc
  · exact hl other ho hc
  · exact hout ho

theorem declareVar {deletable} (hs : (Scene.globals names vars).Holds m fr) (hin : name ∈ vars)
    (hout : name ∉ names)
    (hf : points.Leads fr.position pos ⟨fr.stack.size, .globals names vars⟩) :
    Follows room second points m m' fr pos ⟨.createGlobalVar, some (.binding a deletable)⟩
      ⟨.createGlobalVar, some (.binding b deletable)⟩ call more := by
  obtain ⟨lexical, varNames, hg, hg', -⟩ := hm.globals
  obtain ⟨hl, hv⟩ := hs _ _ _ hg
  have hx := declareVar_eq fr .createGlobalVar a hg deletable
  have hy := declareVar_eq (fr.onto second pos []) .createGlobalVar b hg' deletable
  rw [nameAt_frame hn] at hx
  rw [nameAt_onto hn, ← congrArg Realm.globalRecord hm.realm] at hy
  exact .of_ok hx (.of_eq fun _ => hy) (hm.withHeap (hm.heaps.withVar hg (hv name hin) deletable))
    (.next (.of_leads rfl hr hf rfl (holds_noted hs hg hout (Heap.record_withVar hg name deletable))))

omit hm hr hn in
theorem push_of_pop? {v stack} (h : fr.stack.pop? = some (v, stack)) :
    ∃ below : Frame, fr = below.push v := by
  refine ⟨{ fr with stack }, ?_⟩
  have hs : fr.stack = stack.push v := by
    generalize fr.stack = whole at h
    obtain ⟨items, size, hs⟩ := whole
    cases items with
    | nil => cases h
    | cons item items =>
      simp only [Stack.pop?, Option.some.injEq, Prod.mk.injEq] at h
      obtain ⟨rfl, rfl⟩ := h
      exact Stack.ext_items rfl
  unfold Frame.push
  rw [← hs]

theorem declareFunction {deletable} (hs : (Scene.globals names vars).Holds m fr) (hin : name ∈ vars)
    (hout : name ∉ names)
    (hf : points.Leads fr.position pos ⟨fr.stack.size - 1, .globals names vars⟩) :
    Follows room second points m m' fr pos ⟨.createGlobalFunction, some (.binding a deletable)⟩
      ⟨.createGlobalFunction, some (.binding b deletable)⟩ call more := by
  cases hp : fr.stack.pop? with
  | none =>
    have hempty : ∀ call fr (a : Nat) m, fr.stack.pop? = none →
        step call fr ⟨.createGlobalFunction, some (.binding a deletable)⟩ m =
          .error (.raised (.failed .underflow)) m := by
      intro call fr a m hp
      change (pop fr >>= _) m = _
      unfold pop
      rw [hp]
      rfl
    dsimp only [Follows]
    unfold Likeness.Tracks
    rw [hempty call fr a m hp]
    exact .raised (.of_eq fun _ => hempty _ (fr.onto second pos []) b m' hp) hm
  | some top =>
    obtain ⟨below, rfl⟩ := push_of_pop? hp
    obtain ⟨lexical, varNames, hg, hg', -⟩ := hm.globals
    obtain ⟨hl, hv⟩ := hs _ _ _ hg
    have hx := declareFunction_eq below .createGlobalFunction a hg top.1 deletable
    have hy := declareFunction_eq (below.onto second pos []) .createGlobalFunction b hg' top.1
      deletable
    rw [show below.code.nameAt a = name from nameAt_frame hn] at hx
    rw [show (below.onto second pos []).code.nameAt b = name from
      @nameAt_onto _ _ pos _ _ _ hn, ← congrArg Realm.globalRecord hm.realm] at hy
    refine .of_ok hx (.of_eq fun _ => hy)
      (hm.withHeap (hm.heaps.withFunction hg (hv name hin) top.1 deletable))
      (.next (.of_leads rfl hr hf rfl ?_))
    exact holds_noted hs hg hout (Heap.record_withFunction hg name top.1 deletable)

end

/-! ### Control -/

section

variable {target target' : Nat}

omit hr in
theorem target_tracks (op : Op) : (alike room).Tracks (fun a b _ => a = target ∧ b = target')
    (operand ⟨op, some (.jump target)⟩ Operand.jump?)
    (fun _ => operand ⟨op, some (.jump target')⟩ Operand.jump?) m m' :=
  .pure hm ⟨rfl, rfl⟩

theorem jump (hg : points.Leads target target' ⟨fr.stack.size, .any⟩) :
    Follows room second points m m' fr pos ⟨.jump, some (.jump target)⟩
      ⟨.jump, some (.jump target')⟩ call more :=
  .pure hm (.next (@At.of_leads _ _ _ _ (fr.jump target) _ _ rfl hr hg rfl trivial))

theorem branch {op} (hb : op.branches = true)
    (hg : points.Leads target target' ⟨fr.stack.size - 1, .any⟩)
    (hf : points.Leads fr.position pos ⟨fr.stack.size - 1, .any⟩) :
    Follows room second points m m' fr pos ⟨op, some (.jump target)⟩
      ⟨op, some (.jump target')⟩ call more := by
  have hj : ∀ wanted, (alike room).Tracks
      (fun effect effect' later => Reached room fr.code second points later effect effect')
      (jumpIf fr ⟨op, some (.jump target)⟩ wanted)
      (fun _ => jumpIf (fr.onto second pos []) ⟨op, some (.jump target')⟩ wanted)
      m m' := by
    intro wanted
    refine .bind (target_tracks hm op) fun a b later later' hm ht => ?_
    obtain ⟨rfl, rfl⟩ := ht
    refine .bind (pop_tracks (.refl fr) hm) fun a b later later' hm ht => ?_
    obtain ⟨hv, hs⟩ := ht
    refine .pure hm (.next ?_)
    split
    · exact @At.of_leads _ _ _ _ (Frame.jump _ _) _ _ hv.code (hv.returns.trans hr) hg hs trivial
    · rw [← hv.position] at hf
      exact .of_leads hv.code (hv.returns.trans hr) hf hs trivial
  cases op with
  | jumpIfTrue => exact hj true
  | jumpIfFalse => exact hj false
  | _ => cases hb

theorem resumed {op} (hb : op.branchesOnResumption = true)
    (hg : points.Leads target target' ⟨fr.stack.size, .any⟩)
    (hf : points.Leads fr.position pos ⟨fr.stack.size, .any⟩) :
    Follows room second points m m' fr pos ⟨op, some (.jump target)⟩
      ⟨op, some (.jump target')⟩ call more := by
  have hj : ∀ test, (alike room).Tracks
      (fun effect effect' later => Reached room fr.code second points later effect effect')
      (jumpIfResumed fr ⟨op, some (.jump target)⟩ test)
      (fun _ => jumpIfResumed (fr.onto second pos []) ⟨op, some (.jump target')⟩ test)
      m m' := by
    intro test
    refine .pure hm (.next ?_)
    dsimp only
    split
    · exact @At.of_leads _ _ _ _ (fr.jump target) _ _ rfl hr hg rfl trivial
    · exact .of_leads rfl hr hf rfl trivial
  cases op with
  | jumpIfResumeThrow => exact hj _
  | jumpIfResumeReturn => exact hj _
  | _ => cases hb

theorem finish (hg : points.Leads target target' ⟨fr.stack.size + 1, .any⟩)
    (hf : points.Leads fr.position pos ⟨fr.stack.size, .any⟩) :
    Follows room second points m m' fr pos
      ⟨.returnAfterResume, some (.jump target)⟩ ⟨.returnAfterResume, some (.jump target')⟩ call
      more := by
  refine .bind (target_tracks hm _) fun a b later later' hm ht => ?_
  obtain ⟨rfl, rfl⟩ := ht
  dsimp only
  cases fr.resumption with
  | none => exact .pure hm (.next (.of_leads rfl hr hf rfl trivial))
  | some resumption =>
    cases resumption with
    | finish v =>
      refine .pure hm (.next ?_)
      exact @At.of_leads _ _ _ _ (Frame.push { fr with resumption := none, position := a } v)
        _ _ rfl hr hg rfl trivial
    | _ => exact .pure hm (.next (.of_leads rfl hr hf rfl trivial))

end

/-! ### Ends -/

theorem leave {op one other} (hl : op.leaves = true)
    (ho : Operand.Same (fr.code.Share second) one other) :
    Follows room second points m m' fr pos ⟨op, one⟩ ⟨op, other⟩ call more := by
  cases op with
  | returnValue => exact .pure hm (.exit .returned)
  | tailCall =>
    refine .bind (popCall_tracks ho hm) fun a b later later' hm ht => ?_
    obtain ⟨-, -⟩ := ht
    exact .pure hm (.exit .tailCall)
  | throwValue =>
    refine .bind (pop_tracks (.refl fr) hm) fun a b later later' hm ht => ?_
    obtain ⟨-, -⟩ := ht
    exact .raise hm
  | throwNewError =>
    dsimp only [Follows, step, throwNewError]
    cases ho with
    | error hn =>
      dsimp only
      rw [hn.nameAt_eq]
      exact .raise hm
    | absolute ha => cases ‹Operand› <;> first | exact .raise hm | cases ha
    | _ => exact .raise hm
  | rethrow =>
    refine .bind (register_tracks ho hm) fun a b later later' hm he => ?_
    subst he
    obtain ⟨index, content⟩ := a
    cases content with
    | thrown thrown => exact .pure hm (.raise rfl hr)
    | value v => exact .pure hm (.raise rfl hr)
    | _ => exact .pure hm (.raise rfl hr)
  | _ => cases hl

theorem suspend {state} (hm' : Matching room fr.code second points)
    (hf : FunctionsInStep room fr.code second)
    (hs : (fr.code.around second points pos pos).rests state (fr.stack.size - 1)) :
    Follows room second points m m' fr pos ⟨.suspend, some (.state state)⟩
      ⟨.suspend, some (.state state)⟩ call more := by
  refine .bind (pop_tracks (.refl fr) hm) fun a b later later' hm ht => ?_
  obtain ⟨hv, hsize⟩ := ht
  obtain ⟨hk, target, target', ht, ht', hp⟩ := hs
  refine .pure hm (.exit (.suspended ⟨_, _, points, hm', hf, ?_⟩))
  rw [← hsize] at hp
  exact @Resting.intro _ _ _ { ‹Frame› with state } _ _ _ hv.code (hv.returns.trans hr) hk ht ht' hp

/-- Instructions that are alike do the same to a frame and to its twin. -/
theorem of_alike [Caller.Keeps (alike room) call more] {pos' shape one other}
    (hm' : Matching room fr.code second points) (hfun : FunctionsInStep room fr.code second)
    (hp : fr.position = pos + 1) (hh : fr.stack.size = shape.height)
    (hs : shape.scene.Holds m fr)
    (ha : Instruction.Alike (fr.code.around second points pos pos') shape one other) :
    Follows room second points m m' fr (pos' + 1) one other call more := by
  obtain ⟨height, scene⟩ := shape
  dsimp only at hh hs
  subst hh
  have falls : ∀ {shape}, (fr.code.around second points pos pos').falls shape →
      points.Leads fr.position (pos' + 1) shape := fun h => hp ▸ h
  cases ha with
  | plain hp ho hf =>
    exact (step_plain_tracks hm hp ho hm'.agrees.strict).mono fun _ _ _ h => of_moved hr (falls hf) h
  | clear hf => exact .pure hm (.next (.of_leads rfl hr (falls hf) rfl trivial))
  | enter hf => exact enter hm hr (falls hf)
  | begin he hf =>
    subst he
    exact begin hm hr hs (falls hf)
  | bind hb hn he hf =>
    subst he
    exact bind hm hr hb hn hs (falls hf)
  | function hf => exact function hm hr hfun hm'.functions hs (falls hf)
  | checkLexical hn he hf =>
    subst he
    exact checkLexical hm hr hn hs (falls hf)
  | checkVar hn he hf =>
    subst he
    exact checkVar hm hr hn hs (falls hf)
  | @check op a b name hc hn hf =>
    cases op with
    | checkGlobalFunction => exact checkFunction hm hr hn hs (falls hf)
    | checkGlobalVarDeclarable => exact checkDeclarable hm hr hn hs (falls hf)
    | _ => cases hc
  | declareLexical hn he hin hout hf =>
    subst he
    exact declareLexical hm hr hn hs hin hout (falls hf)
  | declareVar hn he hin hout hf =>
    subst he
    exact declareVar hm hr hn hs hin hout (falls hf)
  | declareFunction hn he hin hout hf =>
    subst he
    exact declareFunction hm hr hn hs hin hout (falls hf)
  | jump hg =>
    obtain ⟨target, target', rfl, rfl, hg⟩ := hg
    exact jump hm hr hg
  | branch hb hg hf =>
    obtain ⟨target, target', rfl, rfl, hg⟩ := hg
    exact branch hm hr hb hg (falls hf)
  | resumed hb hg hf =>
    obtain ⟨target, target', rfl, rfl, hg⟩ := hg
    exact resumed hm hr hb hg (falls hf)
  | finish hg hf =>
    obtain ⟨target, target', rfl, rfl, hg⟩ := hg
    exact finish hm hr hg (falls hf)
  | leave hl ho => exact leave hm hr hl ho
  | suspend hs => exact suspend hm hr hm' hfun hs

end Reached

/-! ## Exceptions -/

namespace Action

variable {room : Nat} {first second : Template} {points : Points} {m m' : Machine}
  {fr : Frame} {pos : Nat} {call : Caller} {more : Nat → Caller}
  [Caller.Keeps (alike room) call more]

theorem unwind_tracks {handlers handlers' thrown}
    (hh : List.Forall₂ (Handler.Alike points) handlers handlers') (hm : (alike room).Machines m m')
    (hc : fr.code = first) (hr : fr.returns = []) :
    (alike room).Tracks (fun after twin later => At first second points later after twin)
      (unwind call fr thrown handlers)
      (fun n => unwind (more n) (fr.onto second pos []) thrown handlers') m m' := by
  induction hh generalizing fr thrown m m' with
  | nil => exact .raise hm
  | @cons one other rest rest' h _ ih =>
    obtain ⟨hk, ht⟩ := h
    simp only [unwind]
    rw [← hk]
    cases he : one.kind with
    | catches =>
      refine .bind (Likeness.Keeps.tracks hm) fun v _ later later' hm hv => ?_
      subst hv
      exact .pure hm (@At.of_leads _ _ _ _ (Frame.jump _ one.target) _ _ hc hr
        (ht 1 (by rw [he]; rfl)) rfl trivial)
    | finalizes reg =>
      dsimp only [Frame.onto]
      split
      · exact .pure hm (@At.of_leads _ _ _ _ (Frame.jump _ one.target) _ _ hc hr
          (ht 0 (by rw [he]; rfl)) rfl trivial)
      · exact .raise hm
    | supersedes reg =>
      dsimp only [Frame.onto]
      cases fr.registers[reg]? with
      | none => exact .raise hm
      | some content => exact ih hm hc hr
    | closes reg =>
      have hclose : (alike room).Keeps (attempt (iteratorClose call (fr.registerValue reg)))
          (fun n => attempt (iteratorClose (more n) (fr.registerValue reg))) :=
        inferInstance
      exact .bind (hclose.tracks hm) fun _ _ later later' hm _ => ih hm hc hr

theorem handle_tracks {origin origin' exception}
    (hh : HandlersAlike fr.code second points origin origin') (hm : (alike room).Machines m m')
    (hr : fr.returns = []) :
    (alike room).Tracks (fun after twin later => At fr.code second points later after twin)
      (handle call fr origin exception)
      (fun n => handle (more n) (fr.onto second pos []) origin' exception) m m' := by
  unfold HandlersAlike at hh
  unfold handle
  dsimp only [Frame.onto]
  generalize fr.code.handlers.filter _ = handlers at hh ⊢
  generalize second.handlers.filter _ = handlers' at hh ⊢
  cases hh with
  | nil => exact .raise hm
  | cons h hh =>
    refine .bind (Likeness.Keeps.tracks hm) fun thrown _ later later' hm he => ?_
    subst he
    exact unwind_tracks (.cons h hh) hm rfl hr

/-- Where frames and their twins get by an instruction. -/
inductive Advanced (room : Nat) (first second : Template) (points : Points) (m : Machine) :
    Progress → Progress → Prop
  | next {fr twin} : At first second points m fr twin →
    Advanced room first second points m (.next fr) (.next twin)
  | exit {exit exit'} : Exits (alike room) exit exit' →
    Advanced room first second points m (.exit exit) (.exit exit')

theorem guardedStep_apply (call : Caller) (fr : Frame) (instr : Instruction)
    (m : Machine) : guardedStep call fr instr m = if m.limits.stackSize < fr.stack.size then
        .error (.raised (.failed .stackLimit)) m else step call fr instr m := by
  unfold guardedStep
  rw [bind_apply]
  change (if m.limits.stackSize < fr.stack.size then _ else _ : Action Effect) m = _
  split <;> rfl

omit [Caller.Keeps (alike room) call more] in
theorem guardedStep_tracks {one other} (hm : (alike room).Machines m m')
    (hs : Reached.Follows room second points m m' fr pos one other call more) :
    (alike room).Tracks
      (fun effect effect' later => Reached room fr.code second points later effect effect')
      (guardedStep call fr one) (fun n => guardedStep (more n) (fr.onto second pos []) other)
      m m' := by
  unfold Reached.Follows Likeness.Tracks at *
  rw [guardedStep_apply]
  by_cases hl : m.limits.stackSize < fr.stack.size
  · rw [if_pos hl]
    refine .raised (.of_eq fun n => ?_) hm
    rw [guardedStep_apply, if_pos (hm.limits ▸ hl)]
  · rw [if_neg hl]
    have he : ∀ n, guardedStep (more n) (fr.onto second pos []) other m' =
        step (more n) (fr.onto second pos []) other m' := fun n => by
      rw [guardedStep_apply, if_neg (hm.limits ▸ hl)]
    generalize step call fr one m = outcome at hs
    cases hs with
    | ok hends hm hr =>
      obtain ⟨least, hends⟩ := hends
      exact .ok ⟨least, fun n hf => (he n).trans (hends n hf)⟩ hm hr
    | raised hends hm =>
      obtain ⟨least, hends⟩ := hends
      exact .raised ⟨least, fun n hf => (he n).trans (hends n hf)⟩ hm
    | exhausted hroom => exact .exhausted hroom

/-- An instruction at a point, with its guard and its handlers. -/
theorem advanceUnder_tracks {alarm alarm' one other}
    (hi : fr.code.instructions[fr.position]? = some one)
    (hi' : second.instructions[pos]? = some other)
    (hh : HandlersAlike fr.code second points fr.position pos)
    (hin : fr.code.isApart fr.position = false) (hin' : second.isApart pos = false)
    (hm : (alike room).Machines m m') (hr : fr.returns = [])
    (hs : Reached.Follows room second points m m' (fr.jump (fr.position + 1))
      (pos + 1) one other call more) : (alike room).Tracks (fun progress progress' later =>
        Advanced room fr.code second points later progress progress') (advanceUnder alarm call fr)
      (fun n => advanceUnder alarm' (more n) (fr.onto second pos [])) m m' := by
  have handled : ∀ {after : Frame} {place exception m m'}, after.code = fr.code →
      after.returns = [] → (alike room).Machines m m' →
      (alike room).Tracks (fun progress progress' later =>
          Advanced room fr.code second points later progress progress')
        (do return .next (← handleUnder alarm call after fr.position exception))
        (fun n => do
          return .next (← handleUnder alarm' (more n) (after.onto second place []) pos
            exception))
        m m' := by
    intro after place exception m m' hc hr hm
    unfold handleUnder
    dsimp only [Frame.onto]
    rw [hc, hin, hin']
    rw [← hc] at hh ⊢
    exact .bind (handle_tracks hh hm hr) fun _ _ _ _ hm ha => .pure hm (.next ha)
  unfold advanceUnder
  dsimp only [Frame.onto]
  rw [hi, hi']
  refine .bind (guardedStep_tracks hm hs).attempt fun outcome outcome' later later' hm ho => ?_
  cases ho with
  | error => exact handled rfl hr hm
  | ok ho =>
    cases ho with
    | next ha => exact .pure hm (.next ha)
    | exit he => exact .pure hm (.exit he)
    | raise hc hr => exact handled hc hr hm

end Action

end Ecma
