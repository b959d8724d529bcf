/-
Code making as it is asked for. A piece of code is made whatever was made before it, as long as the
constructs around it are those that it expects, and it leaves their number and kinds as they are.
It changes no instruction that was there, protects none of them, and lists its handlers as the
statements stand that they serve.
-/
import Ecma.Proofs.Arrangement
import Ecma.Proofs.Defect
import Ecma.Proofs.Options.Trees

namespace Ecma

namespace Code

/-- Operations that go on with the next instruction and call nothing. -/
def Op.isStraight : Op → Bool
  | .createMutableBinding | .createImmutableBinding | .initializeBinding | .loadArg
  | .createArguments | .pushUndefined | .closure | .loadCallee | .resumeDispatch => true
  | _ => false

/-- Code whose prologue ends with its first suspension, at a position. -/
structure Template.OpensAt (code : Template) (stop : Nat) : Prop where
  straight : ∀ position < stop,
    code.instructions[position]?.any (fun instr => instr.op.isStraight) = true
  suspends : code.instructions[stop]? = some ⟨.suspend, some (.state 0)⟩
  unprotected : ∀ handler ∈ code.handlers, stop < handler.start

instance (code : Template) (stop : Nat) : Decidable (code.OpensAt stop) :=
  decidable_of_iff (_ ∧ _ ∧ _)
    ⟨fun h => ⟨h.1, h.2.1, h.2.2⟩, fun h => ⟨h.straight, h.suspends, h.unprotected⟩⟩

/-- Code in which every generator function has a prologue. -/
def Template.Opened (code : Template) : Prop :=
  ∀ inner ∈ code.flatten, inner.kind = .generator → ∃ stop, inner.OpensAt stop

theorem Template.mem_flattenAll {code codes} :
    code ∈ flattenAll codes ↔ ∃ outer ∈ codes, code ∈ outer.flatten := by
  induction codes with
  | nil => simp [flattenAll]
  | cons first rest ih => simp [flattenAll, ih]

theorem Template.Opened.mk {code : Template}
    (h : code.kind = .generator → ∃ stop, code.OpensAt stop)
    (hf : ∀ inner ∈ code.functions, inner.Opened) : code.Opened := by
  intro inner hm
  obtain ⟨name, kind, paramCount, strict, instructions, constants, functions, handlers, resume,
    units, tables, registers⟩ := code
  rw [flatten, List.mem_cons, mem_flattenAll] at hm
  obtain rfl | ⟨outer, ho, hi⟩ := hm
  · exact h
  · exact hf outer ho inner hi

end Code

/-- Code that was made of statements: those of a function, or of a whole program. -/
def Code.Template.MadeOf (code : Code.Template) (body : List (Syntax.Stmt (Option ScopeId))) :
    Prop :=
  (∃ function ctx em, function.body.statements = body ∧
    Compile.func function ctx em = .ok (code, em)) ∨
  ∃ options analysed, analysed.program.body = body ∧ Compile.template options analysed = .ok code

/-- Code whose handlers are laid out as the statements stand that they serve. -/
def Code.Template.Arranged (code : Code.Template) : Prop :=
  ∃ body guards high, code.MadeOf body ∧
    code.handlers.map Compile.Span.linked = guards.map Compile.Guard.toSpan ∧
    Compile.Layout 0 high guards ∧ ∀ guard ∈ guards, guard.owner.Within body

/-- Code as it has to be, with its functions. -/
structure Code.Template.Formed (code : Code.Template) : Prop where
  opened : code.Opened
  arranged : ∀ inner ∈ code.flatten, inner.Arranged

theorem Code.Template.Formed.of_parts {code : Code.Template} (ha : code.Arranged)
    (h : code.kind = .generator → ∃ stop, code.OpensAt stop)
    (hf : ∀ inner ∈ code.functions, inner.Formed) : code.Formed := by
  refine ⟨.mk h fun inner hm => (hf inner hm).opened, fun inner hm => ?_⟩
  obtain ⟨name, kind, paramCount, strict, instructions, constants, functions, handlers, resume,
    units, tables, registers⟩ := code
  rw [flatten, List.mem_cons, mem_flattenAll] at hm
  obtain rfl | ⟨outer, ho, hi⟩ := hm
  · exact ha
  · exact (hf outer ho).arranged inner hi

namespace Compile

open Code
open Syntax (Stmt)

variable {α β : Type}

/-! ## What is asked -/

/-- What is asked of code making. -/
structure Order where
  /-- Whether it has to succeed. -/
  strict : Prop
  /-- The handlers that it may add: their kinds, and the statements that they serve. -/
  site : HandlerKind → Stmt (Option ScopeId) → Prop

/-- What is asked of the code in a statement. -/
def Order.inside (order : Order) (owner : Stmt (Option ScopeId)) : Order :=
  { order with site := fun _ inner => inner.Inside owner }

/-- What is asked of code that the finalizer of a statement protects. -/
def Order.under (order : Order) (owner : Stmt (Option ScopeId)) : Order :=
  { order with site := fun kind inner => inner.Inside owner ∨ inner = owner ∧ kind = .catches }

/-- Handlers may be added for a statement and for all inside it. -/
def Order.Admits (order : Order) (owner : Stmt (Option ScopeId)) : Prop :=
  ∀ kind inner, inner = owner ∨ inner.Inside owner → order.site kind inner

theorem Order.Admits.inside {order : Order} {owner : Stmt (Option ScopeId)} (h : order.Admits owner)
    {kind inner} (hi : (order.inside owner).site kind inner) : order.site kind inner :=
  h kind inner (.inr hi)

theorem Order.Admits.under {order : Order} {owner : Stmt (Option ScopeId)} (h : order.Admits owner)
    {kind inner} (hi : (order.under owner).site kind inner) : order.site kind inner :=
  h kind inner (hi.symm.imp_left And.left)

theorem Order.inside_admits (order : Order) {owner part : Stmt (Option ScopeId)}
    (h : part ∈ owner.parts) : (order.inside owner).Admits part := by
  rintro kind inner (rfl | hi)
  · exact .single h
  · exact .tail hi h

theorem Order.Admits.part {order : Order} {owner part : Stmt (Option ScopeId)}
    (h : order.Admits owner) (hp : part ∈ owner.parts) : order.Admits part :=
  fun kind inner hi => h.inside (order.inside_admits hp kind inner hi)

/-- What is asked of code without handlers. -/
abbrev Order.bare (strict : Prop) : Order := ⟨strict, fun _ _ => False⟩

/-- What is asked of the code of a function or program with these statements. -/
abbrev Order.ofBody (strict : Prop) (body : List (Stmt (Option ScopeId))) : Order :=
  ⟨strict, fun _ owner => owner.Within body⟩

theorem Order.ofBody_admits {strict body part} (h : part ∈ body) :
    (Order.ofBody strict body).Admits part :=
  fun _ _ hi => ⟨part, h, hi⟩

/-- What an exit looks at in a construct. -/
def Control.hull : Control → Hull
  | .jumps inner => .jumps inner.labels inner.takesPlainBreak inner.continueLabel.isSome
  | .finalizer _ => .finalizer
  | .closing _ => .closing

/-- The ranges of an iterator lie one behind the other between two positions. -/
structure Closing.Spread (low high : Nat) (closing : Closing) : Prop where
  le : low ≤ high
  sorted : closing.ranges.Pairwise fun range later => range.2 ≤ later.1
  within : ∀ range ∈ closing.ranges, low ≤ range.1 ∧ range.2 ≤ high
  opened : ∀ start ∈ closing.opened, low ≤ start ∧ ∀ range ∈ closing.ranges, range.2 ≤ start

def Control.Spread (low high : Nat) : Control → Prop
  | .closing inner => inner.Spread low high
  | .jumps _ | .finalizer _ => True

/-- What code between two positions makes of a construct around it. -/
structure Control.Leads (low high : Nat) (control left : Control) : Prop where
  hull : left.hull = control.hull
  spread : ∀ base, control.Spread base low → left.Spread base high

theorem Control.Leads.of_le {low high} (h : low ≤ high) (control : Control) :
    control.Leads low high control := by
  refine ⟨rfl, fun base hs => ?_⟩
  cases control with
  | closing => exact ⟨Nat.le_trans hs.le h, hs.sorted, fun range hr =>
      ⟨(hs.within range hr).1, Nat.le_trans (hs.within range hr).2 h⟩, hs.opened⟩
  | _ => trivial

theorem Control.Leads.trans {low mid high} {a b c : Control} (h : a.Leads low mid b)
    (h' : b.Leads mid high c) : a.Leads low high c :=
  ⟨h'.hull.trans h.hull, fun base hs => h'.spread base (h.spread base hs)⟩

abbrev AllLead (low high : Nat) : List Control → List Control → Prop :=
  List.Forall₂ (Control.Leads low high)

theorem AllLead.of_le {low high} (h : low ≤ high) (controls : List Control) :
    AllLead low high controls controls := List.forall₂_same.mpr fun control _ => .of_le h control

theorem AllLead.trans {low mid high} : {a b c : List Control} → AllLead low mid a b →
    AllLead mid high b c → AllLead low high a c
  | _, _, _, .nil, .nil => .nil
  | _, _, _, .cons h hs, .cons h' hs' => .cons (h.trans h') (AllLead.trans hs hs')

theorem AllLead.hulls {low high} {controls left : List Control} (h : AllLead low high controls left) :
    left.map Control.hull = controls.map Control.hull := by
  induction h with
  | nil => rfl
  | cons h _ ih => rw [List.map_cons, List.map_cons, h.hull, ih]

/-- Handlers for empty ranges are left out. -/
theorem foldl_addHandler (handlers : List DraftHandler) (draft : Draft) :
    ∃ kept : List DraftHandler, kept.Sublist handlers ∧ handlers.foldl Draft.addHandler draft =
      { draft with handlers := draft.handlers ++ kept.toArray } := by
  induction handlers generalizing draft with
  | nil => exact ⟨[], .slnil, by simp⟩
  | cons handler rest ih =>
    rw [List.foldl_cons]
    unfold Draft.addHandler
    split
    · obtain ⟨kept, hs, he⟩ := ih { draft with handlers := draft.handlers.push handler }
      refine ⟨handler :: kept, hs.cons_cons handler, he.trans ?_⟩
      simp
    · obtain ⟨kept, hs, he⟩ := ih draft
      exact ⟨kept, hs.cons handler, he⟩

/-- An emitter with more handlers. -/
def Emitter.protecting (em : Emitter) (handlers : List DraftHandler) : Emitter :=
  { em with draft := handlers.foldl Draft.addHandler em.draft }

def Draft.spans (draft : Draft) : List Span := draft.handlers.toList.map Span.of

/-- What code making leaves, beginning with an emitter. -/
structure Emitter.Leads (site : HandlerKind → Stmt (Option ScopeId) → Prop) (em later : Emitter) :
    Prop where
  instructions : em.draft.instructions.toList <+: later.draft.instructions.toList
  constants : em.draft.constants.toList <+: later.draft.constants.toList
  functions : ∃ made : List Template, later.draft.functions.toList = em.draft.functions.toList ++ made ∧
    ∀ template ∈ made, template.Formed
  handlers : ∃ guards : List Guard,
    Draft.spans later.draft = Draft.spans em.draft ++ guards.map Guard.toSpan ∧
      Layout em.position later.position guards ∧ ∀ guard ∈ guards, site guard.kind guard.owner
  control : AllLead em.position later.position em.control later.control

namespace Emitter.Leads

variable {site site' : HandlerKind → Stmt (Option ScopeId) → Prop} {em mid later : Emitter}

theorem position (h : em.Leads site later) : em.position ≤ later.position := by
  simpa [Emitter.position, Draft.position] using h.instructions.length_le

theorem spans {strict} (h : em.Leads (Order.bare strict).site later) :
    Draft.spans later.draft = Draft.spans em.draft := by
  obtain ⟨guards, hg, -, hs⟩ := h.handlers
  rw [hg, List.eq_nil_iff_forall_not_mem.mpr hs, List.map_nil, List.append_nil]

/-- The draft has more instructions and constants, and the same functions and handlers. -/
theorem of_draft {draft} (hi : em.draft.instructions.toList <+: draft.instructions.toList)
    (hc : em.draft.constants.toList <+: draft.constants.toList)
    (hf : draft.functions = em.draft.functions) (hh : draft.handlers = em.draft.handlers) :
    em.Leads site { em with draft } := by
  have hp : em.draft.position ≤ draft.position := by simpa [Draft.position] using hi.length_le
  refine ⟨hi, hc, ⟨[], ?_, List.forall_mem_nil _⟩, ⟨[], ?_, .nil hp, List.forall_mem_nil _⟩, .of_le hp _⟩
  · rw [hf, List.append_nil]
  · simp only [Draft.spans, hh, List.map_nil, List.append_nil]

theorem refl (em : Emitter) : em.Leads site em := of_draft List.prefix_rfl List.prefix_rfl rfl rfl

theorem emit (em : Emitter) (instr : Instruction) : em.Leads site (em.emit instr) :=
  of_draft (by simp [Draft.emit]) List.prefix_rfl rfl rfl

theorem trans (h : em.Leads site mid) (h' : mid.Leads site later) : em.Leads site later where
  instructions := h.instructions.trans h'.instructions
  constants := h.constants.trans h'.constants
  functions := by
    obtain ⟨made, hm, hf⟩ := h.functions
    obtain ⟨more, hm', hf'⟩ := h'.functions
    refine ⟨made ++ more, ?_, List.forall_mem_append.mpr ⟨hf, hf'⟩⟩
    rw [hm', hm, List.append_assoc]
  handlers := by
    obtain ⟨guards, hg, hl, hs⟩ := h.handlers
    obtain ⟨more, hg', hl', hs'⟩ := h'.handlers
    refine ⟨guards ++ more, ?_, hl.append hl', List.forall_mem_append.mpr ⟨hs, hs'⟩⟩
    rw [hg', hg, List.map_append, List.append_assoc]
  control := h.control.trans h'.control

theorem widen (h : em.Leads site later) (hs : ∀ {kind inner}, site kind inner → site' kind inner) :
    em.Leads site' later where
  __ := h
  handlers := by
    obtain ⟨guards, hg, hl, hin⟩ := h.handlers
    exact ⟨guards, hg, hl, fun guard hm => hs (hin guard hm)⟩

/-- Handlers are added for all the code that was made. -/
theorem protect {handlers : List DraftHandler} {owner : Stmt (Option ScopeId)}
    (h : em.Leads site mid) (hq : mid.Leads (fun _ _ => False) later)
    (hr : ∀ handler ∈ handlers, site' handler.kind owner ∧
      Guard.Sound ⟨Span.of handler, owner, em.position, mid.position⟩)
    (ho : handlers.Pairwise fun handler next => handler.stop ≤ next.start)
    (hs : ∀ {kind inner}, site kind inner → site' kind inner ∧
      ∀ handler ∈ handlers, inner.Inside owner ∨ inner = owner ∧ kind = .catches ∧
        ∃ register, handler.kind = .finalizes register) :
    em.Leads site' (later.protecting handlers) := by
  obtain ⟨kept, hsub, he⟩ := foldl_addHandler handlers later.draft
  have hall := h.widen fun hk => (hs hk).1
  have hall := hall.trans (hq.widen False.elim)
  obtain ⟨guards, hg, hl, hin⟩ := h.handlers
  obtain ⟨none, hg', hl', hnone⟩ := hq.handlers
  obtain rfl : none = [] := List.eq_nil_iff_forall_not_mem.mpr hnone
  rw [Emitter.protecting, he]
  refine ⟨hall.instructions, hall.constants, hall.functions, ?_, hall.control⟩
  let more := kept.map fun handler => (⟨Span.of handler, owner, em.position, mid.position⟩ : Guard)
  refine ⟨guards ++ more, ?_, ?_, ?_⟩
  · rw [List.map_nil, List.append_nil] at hg'
    have hmore : more.map Guard.toSpan = kept.map Span.of := by simp [more]
    change (later.draft.handlers ++ kept.toArray).toList.map Span.of = _
    rw [Array.toList_append, List.map_append, List.map_append, hmore, ← List.append_assoc, ← hg,
      ← hg']
    rfl
  · have hmore : ∀ guard ∈ more, guard.Sound ∧ guard.low = em.position ∧
        guard.high = mid.position := by
      refine List.forall_mem_map.mpr fun handler hm => ⟨(hr _ (hsub.subset hm)).2, rfl, rfl⟩
    have hlay := hl.around hmore (List.pairwise_map.mpr (ho.sublist hsub)) fun guard hm => ?_
    · exact (List.append_nil (guards ++ more)) ▸ hlay.append hl'
    · refine List.forall_mem_map.mpr fun handler hk => ?_
      exact (hs (hin guard hm)).2 handler (hsub.subset hk)
  · exact List.forall_mem_append.mpr ⟨fun guard hm => (hs (hin guard hm)).1,
      List.forall_mem_map.mpr fun handler hm => (hr _ (hsub.subset hm)).1⟩

end Emitter.Leads

/-- What code making may leave. -/
inductive Order.Allows (order : Order) (em : Emitter) : Except CompileError (α × Emitter) → Prop
  | ok {a later} : em.Leads order.site later → Allows order em (.ok (a, later))
  | error {error} : ¬order.strict → Allows order em (.error error)

theorem Order.Allows.after {order : Order} {em mid : Emitter}
    {r : Except CompileError (α × Emitter)} (h : order.Allows mid r) (hl : em.Leads order.site mid) :
    order.Allows em r := by
  cases h with
  | ok h => exact .ok (hl.trans h)
  | error h => exact .error h

/-- Code that is made among constructs of these kinds as it is asked for. -/
class Obeys (order : Order) (ctx : Context) (hulls : List Hull) (code : Emit α) : Prop where
  obeys : ∀ {em}, em.control.map Control.hull = hulls → order.Allows em (code ctx em)

/-- Code that gives the code of a function and changes nothing. -/
class YieldsCode (strict : Prop) (ctx : Context) (code : Emit Template) : Prop where
  yields : ∀ {em}, (∃ template, template.Formed ∧
    code ctx em = .ok (template, em)) ∨
      ¬strict ∧ ∃ error, code ctx em = .error error

namespace Obeys

variable {order : Order} {ctx : Context} {hulls : List Hull} {em later : Emitter}

theorem made {code : Emit α} (h : Obeys order ctx hulls code) (hs : order.strict)
    (hb : em.control.map Control.hull = hulls) :
    ∃ a later, code ctx em = .ok (a, later) ∧ em.Leads order.site later := by
  have h := h.obeys hb
  generalize code ctx em = r at h
  cases h with
  | ok h => exact ⟨_, _, rfl, h⟩
  | error h => exact absurd hs h

theorem kept {code : Emit α} (h : Obeys order ctx hulls code)
    (hb : em.control.map Control.hull = hulls) {a : α} (hc : code ctx em = .ok (a, later)) :
    em.Leads order.site later := by
  have h := h.obeys hb
  rw [hc] at h
  cases h with
  | ok h => exact h

/-- More handlers may be added. -/
theorem widen {site} {code : Emit α} (h : Obeys ⟨order.strict, site⟩ ctx hulls code)
    (hs : ∀ {kind inner}, site kind inner → order.site kind inner) : Obeys order ctx hulls code := by
  refine ⟨fun {em} hb => ?_⟩
  have h := h.obeys hb
  generalize code ctx em = r at h
  cases h with
  | ok h => exact .ok (h.widen hs)
  | error h => exact .error h

instance pure {a : α} : Obeys order ctx hulls (Pure.pure a : Emit α) := ⟨fun _ => .ok (.refl _)⟩

theorem throw (h : ¬order.strict) {error} :
    Obeys order ctx hulls (throw error : Emit α) := ⟨fun _ => .error h⟩

theorem bind {x : Emit α} {f : α → Emit β} (hx : Obeys order ctx hulls x)
    (hf : ∀ a, Obeys order ctx hulls (f a)) : Obeys order ctx hulls (x >>= f) := by
  refine ⟨fun {em} hb => ?_⟩
  have hx := hx.obeys hb
  change order.Allows em (x ctx em >>= fun made => f made.1 ctx made.2)
  generalize x ctx em = r at hx
  cases hx with
  | error h => exact .error h
  | ok h => exact ((hf _).obeys (h.control.hulls.trans hb)).after h

instance (priority := low) seq {x : Emit α} {f : α → Emit β} [hx : Obeys order ctx hulls x]
    [hf : ∀ a, Obeys order ctx hulls (f a)] : Obeys order ctx hulls (x >>= f) :=
  hx.bind hf

instance choice {condition : Prop} [Decidable condition] {x y : Emit α}
    [Obeys order ctx hulls x] [Obeys order ctx hulls y] :
    Obeys order ctx hulls (if condition then x else y) := by
  split <;> infer_instance

instance read : Obeys order ctx hulls (MonadReader.read : Emit Context) := ⟨fun _ => .ok (.refl _)⟩

/-- What comes after a look at the context sees this one. -/
theorem reading {k : Context → Emit α} (h : Obeys order ctx hulls (k ctx)) :
    Obeys order ctx hulls (MonadReader.read >>= k) :=
  ⟨h.obeys⟩

/-! ### Drafts -/

/-- A change of the draft that keeps instructions, constants, functions and handlers. -/
theorem of_draft {f : Draft → α × Draft}
    (hi : ∀ draft, draft.instructions.toList <+: (f draft).2.instructions.toList)
    (hc : ∀ draft, draft.constants.toList <+: (f draft).2.constants.toList)
    (hf : ∀ draft, (f draft).2.functions = draft.functions)
    (hh : ∀ draft, (f draft).2.handlers = draft.handlers) : Obeys order ctx hulls (onDraft f) :=
  ⟨fun _ => .ok (.of_draft (hi _) (hc _) (hf _) (hh _))⟩

instance emit {instr} : Obeys order ctx hulls (changeDraft fun draft => draft.emit instr) :=
  ⟨fun _ => .ok (.emit _ instr)⟩

instance op {o} : Obeys order ctx hulls (op o) := emit

instance opWith {o operand} : Obeys order ctx hulls (opWith o operand) := emit

instance jump {o label} : Obeys order ctx hulls (jump o label) := opWith

instance place {label} : Obeys order ctx hulls (place label) :=
  ⟨fun _ => .ok (.of_draft List.prefix_rfl List.prefix_rfl rfl rfl)⟩

instance newLabel : Obeys order ctx hulls newLabel :=
  of_draft (fun _ => List.prefix_rfl) (fun _ => List.prefix_rfl) (fun _ => rfl) fun _ => rfl

instance newRegister : Obeys order ctx hulls newRegister :=
  of_draft (fun _ => List.prefix_rfl) (fun _ => List.prefix_rfl) (fun _ => rfl) fun _ => rfl

instance addName {name : String} :
    Obeys order ctx hulls (onDraft fun draft => draft.addName name) := by
  refine of_draft ?_ ?_ ?_ ?_ <;> intro draft <;> unfold Draft.addName Draft.pushConstant
  · split <;> exact List.prefix_rfl
  · split <;> simp
  · split <;> rfl
  · split <;> rfl

instance addConstant {constant : Constant} :
    Obeys order ctx hulls (onDraft fun draft => draft.addConstant constant) := by
  cases constant with
  | string v => exact addName
  | number v =>
    exact of_draft (fun _ => List.prefix_rfl)
      (fun _ => by simp [Draft.addConstant, Draft.pushConstant]) (fun _ => rfl) fun _ => rfl

instance addResume {label : Label} :
    Obeys order ctx hulls (onDraft fun draft => draft.addResume label) :=
  of_draft (fun _ => List.prefix_rfl) (fun _ => List.prefix_rfl) (fun _ => rfl) fun _ => rfl

instance addUnit {label : Label} :
    Obeys order ctx hulls (onDraft fun draft => draft.addUnit label) :=
  of_draft (fun _ => List.prefix_rfl) (fun _ => List.prefix_rfl) (fun _ => rfl) fun _ => rfl

instance addTable {table : DraftTable} :
    Obeys order ctx hulls (onDraft fun draft => draft.addTable table) :=
  of_draft (fun _ => List.prefix_rfl) (fun _ => List.prefix_rfl) (fun _ => rfl) fun _ => rfl

instance opRegister {o register} : Obeys order ctx hulls (opRegister o register) := opWith

instance opName {o : Op} {name : String} : Obeys order ctx hulls (opName o name) := seq

instance opBinding {o : Op} {name : String} {flag : Bool} :
    Obeys order ctx hulls (opBinding o name flag) := seq

instance pushNumber {v : Float} : Obeys order ctx hulls (pushNumber v) := seq

instance pushString {v : String} : Obeys order ctx hulls (pushString v) := seq

instance initializeSlot {slot} : Obeys order ctx hulls (initializeSlot slot) := opWith

instance position : Obeys order ctx hulls Compile.position := ⟨fun _ => .ok (.refl _)⟩

theorem pushClosure {template : Template} (h : template.Formed) :
    Obeys order ctx hulls (pushClosure template) := by
  refine bind ⟨fun {em} _ => .ok ?_⟩ fun _ => opWith
  have hl : em.Leads order.site em := .refl em
  refine ⟨hl.instructions, hl.constants, ⟨[template], ?_, List.forall_mem_singleton.mpr h⟩, hl.handlers,
    hl.control⟩
  simp only [Array.toList_push]

theorem closureOf {code : Emit Template} (h : YieldsCode order.strict ctx code) {rest : Emit α}
    (hr : Obeys order ctx hulls rest) : Obeys order ctx hulls
      (code >>= fun template => Compile.pushClosure template >>= fun _ => rest) := by
  refine ⟨fun {em} hb => ?_⟩
  change order.Allows em (code ctx em >>= fun made =>
    (Compile.pushClosure made.1 >>= fun _ => rest) ctx made.2)
  obtain ⟨template, ho, hc⟩ | ⟨hs, error, hc⟩ := @h.yields em
  · rw [hc]
    exact ((pushClosure ho).bind fun _ => hr).obeys hb
  · rw [hc]
    exact .error hs

theorem get_bind {k : Emitter → Emit α} : (get >>= k) ctx em = k em ctx em :=
  rfl

instance returnRegister : Obeys order ctx hulls returnRegister := by
  refine ⟨fun {em} hb => ?_⟩
  rw [Compile.returnRegister, get_bind]
  cases em.returnRegister with
  | some register => exact .ok (.refl em)
  | none =>
    have h : em.Leads order.site { em with draft := em.draft.addRegister.2 } :=
      .of_draft List.prefix_rfl List.prefix_rfl rfl rfl
    exact .ok ⟨h.instructions, h.constants, h.functions, h.handlers, h.control⟩

instance scopeAt {id} : Obeys order ctx hulls (scopeAt id) := ⟨fun _ => .ok (.refl _)⟩

theorem atScope {id : ScopeId} {k : Scope → Emit α}
    (h : Obeys order ctx hulls (k (ctx.scopes.scope id))) :
    Obeys order ctx hulls (Compile.scopeAt id >>= k) :=
  ⟨h.obeys⟩

theorem ofScope {id : ScopeId} {k : ScopeId → Emit α} (h : Obeys order ctx hulls (k id)) :
    Obeys order ctx hulls (scopeOf (some id) >>= k) :=
  ⟨h.obeys⟩

instance resolve {name} : Obeys order ctx hulls (resolve name) := ⟨fun _ => .ok (.refl _)⟩

instance inScope {scope : ScopeId} {entered : Bool} {body : Emit α} [h : Obeys order { ctx with
      scope, envDepth := ctx.envDepth + if entered then 1 else 0 } hulls body] :
    Obeys order ctx hulls (inScope scope entered body) :=
  ⟨h.obeys⟩

instance guarded {body : Emit α}
    [h : Obeys order { ctx with tryDepth := ctx.tryDepth + 1 } hulls body] :
    Obeys order ctx hulls (guarded body) :=
  ⟨h.obeys⟩

/-! ### Loops of the compiler -/

theorem forIn {items : List β} {init : α} {f : β → α → Emit (ForInStep α)}
    (h : ∀ item ∈ items, ∀ a, Obeys order ctx hulls (f item a)) :
    Obeys order ctx hulls (forIn items init f) := by
  induction items generalizing init with
  | nil => exact pure
  | cons item rest ih =>
    rw [List.forIn_cons]
    refine (h item (.head _) init).bind fun step => ?_
    cases step with
    | done a => exact pure
    | yield a => exact ih fun item hm => h item (.tail _ hm)

theorem forM {items : List β} {f} (h : ∀ item ∈ items, Obeys order ctx hulls (f item)) :
    Obeys order ctx hulls (items.forM f) := by
  induction items with
  | nil => exact pure
  | cons item rest ih =>
    exact (h item (.head _)).bind fun _ =>
      ih fun item hm => h item (.tail _ hm)

instance mapM {items : List β} {f : β → Emit α} [h : ∀ item, Obeys order ctx hulls (f item)] :
    Obeys order ctx hulls (items.mapM f) := by
  induction items with
  | nil => exact pure
  | cons item rest ih =>
    rw [List.mapM_cons]
    exact seq

/-! ## Protected code -/

/-- Code making that protects what was made between two positions, before any other handler is
added. -/
structure Registers (order : Order) (ctx : Context) (hulls : List Hull)
    (site : HandlerKind → Stmt (Option ScopeId) → Prop) (start stop : Nat) (code : Emit α) :
    Prop where
  allows : ∀ {em mid now : Emitter}, em.control.map Control.hull = hulls → em.Leads site mid →
    mid.Leads (Order.bare order.strict).site now → em.position = start → mid.position = stop →
    order.Allows em (code ctx now)

section

variable {site : HandlerKind → Stmt (Option ScopeId) → Prop} {start stop : Nat}
  {owner : Stmt (Option ScopeId)}

theorem Registers.after {x : Emit α} {k : α → Emit β} (hx : Obeys (.bare order.strict) ctx hulls x)
    (hk : ∀ a, Registers order ctx hulls site start stop (k a)) :
    Registers order ctx hulls site start stop (x >>= k) := by
  refine ⟨fun {em mid now} hb h hq hp hp' => ?_⟩
  have hx := hx.obeys (hq.control.hulls.trans (h.control.hulls.trans hb))
  change order.Allows em (x ctx now >>= fun made => k made.1 ctx made.2)
  generalize x ctx now = r at hx
  cases hx with
  | ok hx => exact (hk _).allows hb h (hq.trans hx) hp hp'
  | error hx => exact .error hx

theorem Registers.optionally {c : Bool} {x : Emit Unit} {k : Unit → Emit β}
    (hx : Obeys (.bare order.strict) ctx hulls x)
    (hk : Registers order ctx hulls site start stop (k ())) :
    Registers order ctx hulls site start stop (if c = true then x >>= k else k ()) := by
  split
  · exact .after hx fun _ => hk
  · exact hk

theorem Registers.add {kind : HandlerKind} {target : Label} {rest : Emit α}
    (hs : Serves kind owner) (ha : order.site kind owner)
    (hi : ∀ {k inner}, site k inner → order.site k inner ∧ (inner.Inside owner ∨
      inner = owner ∧ k = .catches ∧ ∃ register, kind = .finalizes register))
    (hr : Obeys order ctx hulls rest) :
    Registers order ctx hulls site start stop
      (addHandler start stop target kind >>= fun _ => rest) := by
  refine ⟨fun {em mid now} hb h hq hp hp' => ?_⟩
  subst hp hp'
  have hl := @Emitter.Leads.protect site order.site em mid now
    [⟨em.position, mid.position, target, kind⟩] owner h hq
    (List.forall_mem_singleton.mpr ⟨ha, hs, Nat.le_refl _, Nat.le_refl _, fun _ => ⟨rfl, rfl⟩⟩)
    (List.pairwise_singleton _ _) fun hk =>
      ⟨(hi hk).1, List.forall_mem_singleton.mpr (hi hk).2⟩
  exact (hr.obeys (hl.control.hulls.trans hb)).after hl

/-- Code is made and then protected. -/
theorem protecting {body : Emit α} {k : Nat → α → Nat → Emit β}
    (hb : Obeys ⟨order.strict, site⟩ ctx hulls body)
    (hk : ∀ start a stop, Registers order ctx hulls site start stop (k start a stop)) :
    Obeys order ctx hulls (Compile.position >>= fun start => body >>= fun a =>
      Compile.position >>= fun stop => k start a stop) := by
  refine ⟨fun {em} hh => ?_⟩
  have hb := hb.obeys hh
  change order.Allows em (body ctx em >>= fun made => k em.position made.1 made.2.position ctx made.2)
  generalize body ctx em = r at hb
  cases hb with
  | ok hb => exact (hk _ _ _).allows hh hb (.refl _) rfl rfl
  | error hb => exact .error hb

end

/-! ## Constructs around -/

theorem suspend_spread {low position : Nat} {closing : Closing} (h : closing.Spread low position) :
    (closing.suspend position).Spread low position := by
  unfold Closing.suspend
  split
  · next start hs =>
    obtain ⟨hl, ho⟩ := h.opened start hs
    refine ⟨h.le, ?_, ?_, fun _ hs => by cases hs⟩
    · exact List.pairwise_append.mpr ⟨h.sorted, List.pairwise_singleton _ _, fun range hr _ hm =>
        List.mem_singleton.mp hm ▸ ho range hr⟩
    · exact List.forall_mem_append.mpr ⟨h.within,
        List.forall_mem_singleton.mpr ⟨hl, Nat.le_refl _⟩⟩
  · exact h

theorem suspend_leads (position : Nat) (closing : Closing) : Control.Leads position position
    (.closing closing) (.closing (closing.suspend position)) :=
  ⟨rfl, fun _ => suspend_spread⟩

theorem resumeAll_leads (position : Nat) (controls : List Control) :
    AllLead position position controls (resumeAll position controls) := by
  refine List.forall₂_map_right_iff.mpr (List.forall₂_same.mpr fun control _ => ?_)
  cases control with
  | closing inner =>
    refine ⟨rfl, fun base hs => ⟨hs.le, hs.sorted, hs.within, fun start hm => ?_⟩⟩
    obtain rfl := Option.some.inj hm
    cases ho : inner.opened with
    | none => exact ⟨hs.le, fun range hr => (hs.within range hr).2⟩
    | some opened => exact hs.opened opened ho
  | _ => exact .of_le (Nat.le_refl _) _

section

variable {strict : Prop} (hb : em.control.map Control.hull = hulls)

include hb

/-- The jump to a construct is made, and the construct stays what it is. -/
theorem jumpOut {target} {jumps : Jumps} :
    ∃ marked later, jumpOut target jumps ctx em = .ok (marked, later) ∧
      em.Leads (Order.bare strict).site later ∧
      (Control.jumps marked).hull = (Control.jumps jumps).hull := by
  have hpops : Obeys (.bare True) ctx hulls (ForIn.forIn
      (List.range (ctx.envDepth - jumps.envDepth)) PUnit.unit fun _ _ =>
        (do Compile.op .popEnv; return .yield PUnit.unit : Emit (ForInStep PUnit))) :=
    forIn fun _ _ _ => seq
  obtain ⟨u, mid, hp, hmid⟩ := hpops.made trivial hb
  have after {code : Emit Jumps} {marked later} (h : code ctx mid = .ok (marked, later)) :
      (MonadReader.read >>= fun _ => ForIn.forIn
        (List.range (ctx.envDepth - jumps.envDepth)) PUnit.unit (fun _ _ =>
          (do Compile.op .popEnv; return .yield PUnit.unit : Emit (ForInStep PUnit))) >>= fun _ =>
            code) ctx em = .ok (marked, later) :=
    bind_ok.mpr ⟨ctx, em, rfl, bind_ok.mpr ⟨u, mid, hp, h⟩⟩
  have hjump : ∀ label, em.Leads (Order.bare strict).site
      (mid.emit ⟨.jump, some (.label label)⟩) := fun label => hmid.trans (.emit mid _)
  cases hc : jumps.continueLabel with
  | none =>
    refine ⟨{ jumps with breakUsed := true }, _, after ?_, hjump jumps.breakLabel, rfl⟩
    rw [hc]
    cases target <;> rfl
  | some label =>
    cases target with
    | continueTo index =>
      refine ⟨{ jumps with continueUsed := true }, _, after ?_, hjump label, rfl⟩
      rw [hc]
      rfl
    | _ => exact ⟨{ jumps with breakUsed := true }, _, after rfl, hjump jumps.breakLabel, rfl⟩

end

theorem leave (target : Exit) : (controls : List Control) → {em : Emitter} →
    em.control.map Control.hull = hulls → ∃ passed later,
      leave target controls ctx em = .ok (passed, later) ∧
        em.Leads (Order.bare True).site later ∧
        AllLead em.position later.position controls passed
  | [], em, hb => by
    have hreturn : Obeys (.bare True) ctx hulls returnKept := seq
    obtain ⟨_, later, hr, hl⟩ := hreturn.made trivial hb
    exact ⟨[], later, bind_ok.mpr ⟨(), later, hr, rfl⟩, hl, .nil⟩
  | .jumps jumps :: outer, em, hb => by
    by_cases ht : target.isAt outer.length = true
    · obtain ⟨marked, later, hj, hl, hh⟩ := @jumpOut ctx hulls em True hb target jumps
      refine ⟨.jumps marked :: outer, later, ?_, hl,
        .cons ⟨hh, fun _ _ => trivial⟩ (AllLead.of_le hl.position outer)⟩
      rw [Compile.leave, if_pos ht]
      exact bind_ok.mpr ⟨marked, later, hj, rfl⟩
    · obtain ⟨passed, later, hl, hb, hp⟩ := leave target outer hb
      refine ⟨.jumps jumps :: passed, later, ?_, hb, .cons (.of_le hb.position _) hp⟩
      rw [Compile.leave, if_neg ht]
      exact bind_ok.mpr ⟨passed, later, hl, rfl⟩
  | .finalizer es :: outer, em, hb => by
    have hlabel : Obeys (.bare True) ctx hulls (exitLabel target es) := by
      unfold exitLabel
      split <;> infer_instance
    obtain ⟨⟨label, es'⟩, mid, he, hm⟩ := hlabel.made trivial hb
    have hl := hm.trans (.emit mid ⟨.jump, some (.label label)⟩)
    exact ⟨.finalizer es' :: outer, _, bind_ok.mpr ⟨_, mid, he, rfl⟩, hl,
      .cons ⟨rfl, fun _ _ => trivial⟩ (AllLead.of_le hl.position outer)⟩
  | .closing closing :: outer, em, hb => by
    let closed := (em.emit ⟨.loadReg, some (.register closing.register)⟩).emit ⟨.iteratorClose, none⟩
    have hclosed : em.Leads (Order.bare True).site closed :=
      (Emitter.Leads.emit em _).trans (.emit _ _)
    obtain ⟨passed, later, hl, hlater, hp⟩ :=
      @leave target outer closed (hclosed.control.hulls.trans hb)
    have hall := hclosed.trans hlater
    refine ⟨.closing (closing.suspend em.draft.position) :: passed, later, ?_, hall,
      .cons ((suspend_leads _ closing).trans (.of_le hall.position _))
        ((AllLead.of_le hclosed.position outer).trans hp)⟩
    have hregister : (closing.suspend em.draft.position).register = closing.register := by
      unfold Closing.suspend
      split <;> rfl
    refine bind_ok.mpr ⟨_, em, rfl, ?_⟩
    rw [hregister]
    exact bind_ok.mpr ⟨(), _, rfl, bind_ok.mpr ⟨(), _, rfl, bind_ok.mpr ⟨passed, later, hl, rfl⟩⟩⟩

instance exitTo {target} : Obeys order ctx hulls (exitTo target) := by
  refine ⟨fun {em} hb => ?_⟩
  obtain ⟨passed, later, hl, hlater, hp⟩ := @leave ctx hulls target em.control em hb
  have he : Compile.exitTo target ctx em =
      .ok ((), { later with control := resumeAll later.draft.position passed }) :=
    bind_ok.mpr ⟨em, em, rfl, bind_ok.mpr ⟨passed, later, hl, rfl⟩⟩
  rw [he]
  have hlater : em.Leads order.site later := hlater.widen nofun
  exact .ok ⟨hlater.instructions, hlater.constants, hlater.functions, hlater.handlers,
    hp.trans (resumeAll_leads _ _)⟩

instance openClosing : Obeys order ctx hulls openClosing := by
  refine ⟨fun {em} _ => .ok ?_⟩
  have h : em.Leads order.site em := .refl em
  exact ⟨h.instructions, h.constants, h.functions, h.handlers, resumeAll_leads _ _⟩

instance hasCleanup : Obeys order ctx hulls hasCleanup := ⟨fun _ => .ok (.refl _)⟩

/-- Code is made inside one more construct. -/
theorem entering {control : Control} {body : Emit α} {k : α × Control → Emit β} {inner : Order}
    (h : Obeys inner ctx (control.hull :: hulls) body) (hs : inner.strict = order.strict)
    (hb : em.control.map Control.hull = hulls)
    (hk : ∀ a left mid, Control.Leads em.position mid.position control left →
      em.Leads inner.site mid → order.Allows em (k (a, left) ctx mid)) :
    order.Allows em ((within control body >>= k) ctx em) := by
  have h := @h.obeys { em with control := control :: em.control } (congrArg (control.hull :: ·) hb)
  change order.Allows em (within control body ctx em >>= fun made => k made.1 ctx made.2)
  rw [within_eq]
  generalize body ctx { em with control := control :: em.control } = r at h
  cases h with
  | error h => exact .error (hs ▸ h)
  | @ok a mid hm =>
    have hcontrol := hm.control
    obtain ⟨left, outer, hleft, houter, he⟩ := List.forall₂_cons_left_iff.mp hcontrol
    change order.Allows em (popped (a, mid) >>= fun made => k made.1 ctx made.2)
    unfold popped
    rw [he]
    exact hk a left { mid with control := outer } hleft
      ⟨hm.instructions, hm.constants, hm.functions, hm.handlers, houter⟩

theorem within {control : Control} {body : Emit α} {k : α × Control → Emit β}
    (h : Obeys order ctx (control.hull :: hulls) body)
    (hk : ∀ a left, left.hull = control.hull → Obeys order ctx hulls (k (a, left))) :
    Obeys order ctx hulls (within control body >>= k) := by
  exact ⟨fun hb => entering h rfl hb fun a left _ hleft hl =>
    ((hk a left hleft.hull).obeys (hl.control.hulls.trans hb)).after hl⟩

theorem withJumps {jumps : Jumps} {body : Emit α}
    (h : Obeys order ctx ((Control.jumps jumps).hull :: hulls) body) :
    Obeys order ctx hulls (withJumps jumps body) := by
  refine within h fun a left hl => ?_
  cases left with
  | jumps left => exact pure
  | finalizer => cases hl
  | closing => cases hl

theorem underFinalizer {body : Emit α} (h : Obeys order ctx (.finalizer :: hulls) body) :
    Obeys order ctx hulls (underFinalizer body) := by
  refine @within _ _ _ _ _ (.finalizer []) _ _ h fun a left hl => ?_
  cases left with
  | finalizer es => exact pure
  | jumps => cases hl
  | closing => cases hl

theorem forIn_addHandler {f : Nat × Nat → PUnit → Emit (ForInStep PUnit)}
    {handler : Nat × Nat → DraftHandler} {em : Emitter} (ranges : List (Nat × Nat))
    (hf : ∀ range em, f range ⟨⟩ ctx em = .ok (.yield ⟨⟩, em.protecting [handler range])) :
    ForIn.forIn ranges PUnit.unit f ctx em = .ok (⟨⟩, em.protecting (ranges.map handler)) := by
  induction ranges generalizing em with
  | nil => rfl
  | cons range rest ih =>
    rw [List.forIn_cons]
    exact bind_ok.mpr ⟨_, _, hf range em, ih⟩

/-- A loop adds its handlers behind those of its body. -/
theorem closingIterator {register : Nat} {body : Emit α} {owner : Stmt (Option ScopeId)}
    (hs : Serves (.closes register) owner) (ha : order.Admits owner)
    (h : Obeys (order.inside owner) ctx (.closing :: hulls) body) :
    Obeys order ctx hulls (closingIterator register body) := by
  refine ⟨fun {em} hb => @entering _ _ order ctx hulls em (.closing { register }) _ _ _ h rfl hb
    fun a left mid hleft hl => ?_⟩
  cases left with
  | jumps | finalizer => cases hleft.hull
  | closing inner =>
    have hspread : (inner.suspend mid.position).Spread em.position mid.position :=
      suspend_spread (hleft.spread em.position ⟨Nat.le_refl _, .nil, nofun, nofun⟩)
    change order.Allows em ((ForIn.forIn (inner.suspend mid.position).ranges PUnit.unit _ >>=
      fun _ => Pure.pure a : Emit α) ctx mid.label)
    rw [bind_ok.mpr ⟨_, _, @forIn_addHandler ctx _
      (fun range => ⟨range.1, range.2, mid.nextLabel, .closes register⟩) _ _ fun _ _ => rfl, rfl⟩]
    refine .ok (@Emitter.Leads.protect _ _ em mid _ _ owner hl
      (.of_draft List.prefix_rfl List.prefix_rfl rfl rfl) ?_ ?_ ?_)
    · refine List.forall_mem_map.mpr fun range hr => ⟨ha _ _ (.inl rfl), hs, ?_, ?_, fun hn => ?_⟩
      · exact (hspread.within range hr).1
      · exact (hspread.within range hr).2
      · exact absurd rfl (hn register)
    · exact List.pairwise_map.mpr hspread.sorted
    · exact fun hi => ⟨ha _ _ (.inr hi), fun _ _ => .inl hi⟩

theorem inLoop {labels : List String} {body : Label → Emit α}
    (h : ∀ next, Obeys order ctx (.jumps labels true true :: hulls) (body next)) :
    Obeys order ctx hulls (inLoop labels body) :=
  newLabel.bind fun next => newLabel.bind fun _ => read.bind fun _ => withJumps (h next)

theorem inBreakable {labels : List String} {takesPlainBreak : Bool} {body : Emit α}
    (h : Obeys order ctx (.jumps labels takesPlainBreak false :: hulls) body) :
    Obeys order ctx hulls (inBreakable labels takesPlainBreak body) :=
  newLabel.bind fun _ => read.bind fun _ => withJumps h

instance useBreak {labels plain continues} :
    Obeys order ctx (.jumps labels plain continues :: hulls) useBreak := by
  refine ⟨fun {em} hb => ?_⟩
  obtain ⟨left, outer, hcontrol, hleft, houter⟩ := List.map_eq_cons_iff.mp hb
  cases left with
  | jumps left =>
    have he : Compile.useBreak ctx em = .ok (left.breakLabel,
        { em with control := .jumps { left with breakUsed := true } :: outer }) := by
      refine bind_ok.mpr ⟨em, em, rfl, ?_⟩
      rw [hcontrol]
      rfl
    rw [he]
    have h : em.Leads order.site em := .refl em
    refine .ok ⟨h.instructions, h.constants, h.functions, h.handlers, ?_⟩
    rw [hcontrol]
    exact .cons ⟨rfl, fun _ _ => trivial⟩ (AllLead.of_le (Nat.le_refl _) outer)
  | finalizer | closing => cases hleft

instance continueUsed {labels plain continues} :
    Obeys order ctx (.jumps labels plain continues :: hulls) continueUsed := by
  refine ⟨fun {em} hb => ?_⟩
  obtain ⟨left, outer, hcontrol, hleft, -⟩ := List.map_eq_cons_iff.mp hb
  cases left with
  | jumps left =>
    have he : Compile.continueUsed ctx em = .ok (left.continueUsed, em) := by
      refine bind_ok.mpr ⟨em, em, rfl, ?_⟩
      rw [hcontrol]
      rfl
    rw [he]
    exact .ok (.refl em)
  | finalizer | closing => cases hleft

/-! ### Targets of exits -/

theorem innermost?_of_any {hit covers} (hj : ∀ jumps, covers (Control.jumps jumps).hull = hit jumps)
    (hf : covers .finalizer = false) (hc : covers .closing = false) : (controls : List Control) →
    (controls.map Control.hull).any covers = true → ∃ index, innermost? hit controls = some index
  | .jumps jumps :: outer, h => by
    rw [List.map_cons, List.any_cons, hj, Bool.or_eq_true] at h
    by_cases ht : hit jumps = true
    · exact ⟨outer.length, if_pos ht⟩
    · obtain ⟨index, hi⟩ := innermost?_of_any hj hf hc outer (h.resolve_left ht)
      exact ⟨index, (if_neg ht).trans hi⟩
  | .finalizer _ :: outer, h => by
    rw [List.map_cons, List.any_cons, Control.hull, hf, Bool.false_or] at h
    exact innermost?_of_any hj hf hc outer h
  | .closing _ :: outer, h => by
    rw [List.map_cons, List.any_cons, Control.hull, hc, Bool.false_or] at h
    exact innermost?_of_any hj hf hc outer h

/-- Where code making has to succeed, what an exit looks for is not missing. -/
theorem not_strict_of_missing {hit covers}
    (hj : ∀ jumps, covers (Control.jumps jumps).hull = hit jumps) (hf : covers .finalizer = false)
    (hc : covers .closing = false) (h : order.strict → hulls.any covers = true)
    (hb : em.control.map Control.hull = hulls) (hi : innermost? hit em.control = none) :
    ¬order.strict := by
  intro hs
  obtain ⟨index, hfound⟩ := innermost?_of_any hj hf hc em.control (hb ▸ h hs)
  rw [hi] at hfound
  cases hfound

theorem breakTarget {label} (h : order.strict → hulls.any (Hull.endsAt label) = true) :
    Obeys order ctx hulls (breakTarget label) := by
  refine ⟨fun {em} hb => ?_⟩
  rw [Compile.breakTarget, get_bind]
  cases hi : innermost? (fun jumps => jumps.endsAt label) em.control with
  | some index => exact .ok (.refl em)
  | none =>
    have := not_strict_of_missing (fun _ => by cases label <;> rfl) rfl rfl h hb hi
    cases label <;> exact .error this

theorem continueTarget {label} (h : order.strict → hulls.any (Hull.continuesAt label) = true) :
    Obeys order ctx hulls (continueTarget label) := by
  refine ⟨fun {em} hb => ?_⟩
  rw [Compile.continueTarget, get_bind]
  cases hi : innermost? (fun jumps => jumps.continuesAt label) em.control with
  | some index => exact .ok (.refl em)
  | none =>
    exact .error (not_strict_of_missing (fun _ => by cases label <;> rfl) rfl rfl h hb hi)

end Obeys

end Compile

end Ecma
