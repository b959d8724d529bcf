/-
Steps of the analysis. A step keeps the scopes there are, and it succeeds exactly if what it visits
is fair and no variable meets a lexical declaration of its name on the way out.
-/
import Ecma.Proofs.Declared

namespace Ecma.Scope

open Syntax

/-! ## Scopes that are kept -/

/-- A scope that is no script's and holds the declared names. -/
structure Opens (scopes : Scopes) (declared : List String) (id : ScopeId) : Prop where
  inside : id < scopes.size
  kind : (scopes.scope id).kind ≠ .script
  declares : ∀ name ∈ declared, name ∈ names (scopes.scope id).bindings

/-- A scope that is kept: if it owns variables, later steps of the analysis may add names to it. -/
structure Kept (scope later : Scope) : Prop where
  kind : later.kind = scope.kind
  arrow : later.arrow = scope.arrow
  parent : later.parent = scope.parent
  grows : ∀ name ∈ names scope.bindings, name ∈ names later.bindings
  bindings : scope.isVarScope = false → later.bindings = scope.bindings

theorem Kept.refl (scope : Scope) : Kept scope scope :=
  ⟨rfl, rfl, rfl, fun _ hn => hn, fun _ => rfl⟩

theorem Kept.isVarScope {scope later} (h : Kept scope later) :
    later.isVarScope = scope.isVarScope := by
  unfold Scope.isVarScope
  rw [h.kind]

/-- Scopes that are kept. -/
def Grown (scopes later : Scopes) : Prop :=
  ∀ (id : ScopeId) scope, scopes[id]? = some scope →
    ∃ found, later[id]? = some found ∧ Kept scope found

theorem Grown.refl (scopes : Scopes) : Grown scopes scopes := fun _ _ h => ⟨_, h, .refl _⟩

theorem Grown.trans {a b c} (h : Grown a b) (g : Grown b c) : Grown a c := by
  intro id scope hs
  obtain ⟨mid, hm, hk⟩ := h id scope hs
  obtain ⟨last, hl, gk⟩ := g id mid hm
  refine ⟨last, hl, gk.kind.trans hk.kind, gk.arrow.trans hk.arrow, gk.parent.trans hk.parent,
    fun name hn => gk.grows name (hk.grows name hn), fun hv => ?_⟩
  exact (gk.bindings (hk.isVarScope.trans hv)).trans (hk.bindings hv)

theorem Grown.push (scopes : Scopes) (scope : Scope) : Grown scopes (scopes.push scope) := by
  intro id found hf
  refine ⟨found, ?_, .refl found⟩
  rw [Array.getElem?_push, if_neg (Nat.ne_of_lt (Array.getElem?_eq_some_iff.mp hf).1), hf]

theorem Grown.modify {scopes id f} (h : ∀ scope, scopes[id]? = some scope → Kept scope (f scope)) :
    Grown scopes (scopes.modify id f) := by
  intro found scope hs
  rw [Array.getElem?_modify]
  split
  · next he =>
    subst he
    rw [hs]
    exact ⟨f scope, rfl, h scope hs⟩
  · exact ⟨scope, hs, .refl scope⟩

theorem Grown.size_le {scopes later} (h : Grown scopes later) : scopes.size ≤ later.size := by
  refine Nat.le_of_not_lt fun hl => ?_
  obtain ⟨_, hf, -⟩ := h later.size _ (Array.getElem?_eq_getElem hl)
  exact absurd (Array.getElem?_eq_some_iff.mp hf).1 (Nat.lt_irrefl _)

theorem scope_of_getElem? {scopes : Scopes} {id scope} (h : scopes[id]? = some scope)
    : scopes.scope id = scope := by
  simp [Scopes.scope, Array.getD_eq_getD_getElem?, h]

/-- A scope that was pushed is still there in the end. -/
theorem Grown.opens {scopes final : Scopes} {id} {scope : Scope} {declared} (h : Grown scopes final)
    (hs : scopes[id]? = some scope) (hk : scope.kind ≠ .script)
    (hn : ∀ name ∈ declared, name ∈ names scope.bindings) :
    Opens final declared id ∧ (final.scope id).arrow = scope.arrow := by
  obtain ⟨found, hf, hkept⟩ := h id scope hs
  have hfound := scope_of_getElem? hf
  refine ⟨⟨(Array.getElem?_eq_some_iff.mp hf).1, ?_, ?_⟩, ?_⟩
  · rw [hfound, hkept.kind]
    exact hk
  · rw [hfound]
    exact fun name hm => hkept.grows name (hn name hm)
  · rw [hfound, hkept.arrow]

/-! ## Variables on their way out -/

/-- Every scope stands behind its parent. -/
def Nested (scopes : Scopes) : Prop :=
  ∀ (id : ScopeId) scope parent, scopes[id]? = some scope → scope.parent = some parent → parent < id

theorem Nested.push {scopes} (h : Nested scopes) {scope}
    (hs : ∀ parent, scope.parent = some parent → parent < scopes.size) :
    Nested (scopes.push scope) := by
  intro id found parent hf hp
  rw [Array.getElem?_push] at hf
  split at hf
  · next he =>
    cases hf
    exact he ▸ hs parent hp
  · exact h id found parent hf hp

theorem Nested.modify {scopes} (h : Nested scopes) {id f}
    (hf : ∀ scope, (f scope).parent = scope.parent) : Nested (scopes.modify id f) := by
  intro found scope parent hs hp
  rw [Array.getElem?_modify] at hs
  split at hs
  · obtain ⟨before, hb, rfl⟩ := Option.map_eq_some_iff.mp hs
    exact h found before parent hb (hf before ▸ hp)
  · exact h found scope parent hs hp

/-- Whether a table declares a name in such a way that no variable may pass. -/
def bars (bindings : List Binding) (name : String) : Bool :=
  match kindIn? bindings name with
  | some .let_ | some .const | some .function => true
  | _ => false

theorem BlockTable.bars_iff {lexicals table} (h : BlockTable lexicals table) (name : String) :
    bars table name = true ↔ name ∈ lexicals.map Lexical.name := by
  rw [← h.name_mem]
  unfold bars
  refine ⟨fun hb => kindIn?_isSome.mp ?_, fun hm => ?_⟩
  · cases hk : kindIn? table name with
    | none => rw [hk] at hb; cases hb
    | some _ => rfl
  · obtain ⟨⟨_, kind⟩, -, -, hk⟩ := h.found hm
    rw [hk]
    cases kind <;> rfl

/-- On its way from a scope to the one that owns it, a variable passes a declaration of its name. -/
inductive Clashes (scopes : Scopes) (name : String) : ScopeId → Prop
  | here {id scope} : scopes[id]? = some scope → scope.isVarScope = false →
    bars scope.bindings name = true → Clashes scopes name id
  | out {id scope parent} : scopes[id]? = some scope → scope.isVarScope = false →
    scope.parent = some parent → Clashes scopes name parent → Clashes scopes name id

theorem clashes_iff {scopes id scope name} (hs : scopes[id]? = some scope)
    : Clashes scopes name id ↔ scope.isVarScope = false ∧ (bars scope.bindings name = true ∨
        ∃ parent, scope.parent = some parent ∧ Clashes scopes name parent) := by
  constructor
  · intro h
    cases h with
    | here hs' hv hb =>
      cases hs.symm.trans hs'
      exact ⟨hv, .inl hb⟩
    | out hs' hv hp hc =>
      cases hs.symm.trans hs'
      exact ⟨hv, .inr ⟨_, hp, hc⟩⟩
  · rintro ⟨hv, hb | ⟨parent, hp, hc⟩⟩
    · exact .here hs hv hb
    · exact .out hs hv hp hc

/-- Later steps do not change what clashes. -/
theorem Grown.clashes_iff {scopes later} (h : Grown scopes later) (hn : Nested scopes) {name}
    : {id : ScopeId} → id < scopes.size → (Clashes later name id ↔ Clashes scopes name id) := by
  intro id
  induction id using Nat.strongRecOn with
  | ind id ih =>
    intro hi
    have hs := Array.getElem?_eq_getElem hi
    obtain ⟨found, hf, hk⟩ := h id _ hs
    rw [Scope.clashes_iff hf, Scope.clashes_iff hs, hk.isVarScope, hk.parent]
    refine and_congr_right fun hv => or_congr (by rw [hk.bindings hv]) ?_
    refine exists_congr fun parent => and_congr_right fun hp => ?_
    have hlt := hn id _ parent hs hp
    exact ih parent hlt (Nat.lt_trans hlt hi)

/-- The check of a variable finds what clashes. -/
theorem any_iff_clashes {scopes} (hn : Nested scopes) {name} :
    {n id : Nat} → id < n → (((scopes.chainFrom n id).takeWhile
      fun found => !found.2.isVarScope).any (fun found => bars found.2.bindings name) = true ↔
      Clashes scopes name id)
  | 0, _, hi => absurd hi (Nat.not_lt_zero _)
  | n + 1, id, hi => by
    rw [Scopes.chainFrom]
    cases hs : scopes[id]? with
    | none =>
      refine ⟨fun h => (by cases h), fun h => ?_⟩
      cases h with
      | here hs' | out hs' => cases hs.symm.trans hs'
    | some scope =>
      rw [clashes_iff hs]
      dsimp only
      rw [List.takeWhile_cons]
      cases hv : scope.isVarScope with
      | true => simp
      | false =>
        cases hp : scope.parent with
        | none => simp
        | some parent =>
          have hlt := Nat.lt_of_lt_of_le (hn id scope parent hs hp) (Nat.le_of_lt_succ hi)
          simp only [Bool.not_false, if_true, List.any_cons, Bool.or_eq_true, true_and,
            any_iff_clashes hn hlt, Option.some.injEq, exists_eq_left']

/-- No variable clashes. -/
def Free (scopes : Scopes) (vars : List String) (id : ScopeId) : Prop :=
  ∀ name ∈ vars, ¬Clashes scopes name id

/-- A place among scopes. -/
structure Stands (here : Place) (scopes : Scopes) : Prop where
  nested : Nested scopes
  inside : here.scope < scopes.size

theorem Stands.grown {here scopes later} (h : Stands here scopes) (hg : Grown scopes later)
    (hn : Nested later) : Stands here later :=
  ⟨hn, Nat.lt_of_lt_of_le h.inside hg.size_le⟩

theorem Stands.free_iff {here scopes later} (h : Stands here scopes) (hg : Grown scopes later)
    {vars} : Free later vars here.scope ↔ Free scopes vars here.scope :=
  forall₂_congr fun _ _ => (hg.clashes_iff h.nested h.inside).not

/-! ## Visits -/

/-- A step of the analysis succeeds exactly if what it visits is fair and its variables are free. It
keeps the scopes there are, and its result fits the scopes in the end. -/
structure Visits {α : Type} (here : Place) (vars : List String) (fair : Prop) (step : Visit α)
    (fact : Scopes → α → Prop) : Prop where
  ok : ∀ {progress a after}, Stands here progress.scopes → step progress = .ok (a, after) →
    (Grown progress.scopes after.scopes ∧ Nested after.scopes) ∧
      (fair ∧ Free progress.scopes vars here.scope) ∧
      ∀ final, Grown after.scopes final → fact final a
  runs : ∀ {progress}, Stands here progress.scopes → fair → Free progress.scopes vars here.scope →
    ∃ r, step progress = .ok r

theorem visit_bind {α β : Type} {step : Visit α} {f : α → Visit β} {progress after : Progress}
    {b : β} : (step >>= f) progress = .ok (b, after) ↔
      ∃ a mid, step progress = .ok (a, mid) ∧ f a mid = .ok (b, after) := by
  change (step progress >>= fun p => f p.1 p.2) = .ok (b, after) ↔ _
  rw [Compile.except_bind_ok]
  exact ⟨fun ⟨p, h, hf⟩ => ⟨p.1, p.2, h, hf⟩, fun ⟨a, mid, h, hf⟩ => ⟨(a, mid), h, hf⟩⟩

namespace Visits

variable {α β : Type} {here : Place} {vars vars' : List String} {fair fair' : Prop}
  {fact : Scopes → α → Prop} {r : Scopes → β → Prop}

theorem congr {step} (h : Visits here vars fair step fact) (hf : fair ↔ fair') :
    Visits here vars fair' step fact :=
  propext hf ▸ h

theorem pure {a} (h : ∀ {final}, fact final a) : Visits here [] True (pure a) fact := by
  refine ⟨fun hs he => ?_, fun _ _ _ => ⟨_, rfl⟩⟩
  cases he
  exact ⟨⟨.refl _, hs.nested⟩, ⟨trivial, fun _ hn => absurd hn List.not_mem_nil⟩, fun _ _ => h⟩

theorem append {step : Visit α} {f : α → Visit β} (hx : Visits here vars fair step fact)
    (hf : ∀ a, Visits here vars' fair' (f a) fun final b => fact final a → r final b) :
    Visits here (vars ++ vars') (fair ∧ fair') (step >>= f) r := by
  refine ⟨fun hs hp => ?_, fun hs ⟨hfair, hfair'⟩ hfree => ?_⟩
  · obtain ⟨a, mid, hx', hf'⟩ := visit_bind.mp hp
    obtain ⟨⟨grown, nested⟩, ⟨hfair, hfree⟩, hfact⟩ := hx.ok hs hx'
    obtain ⟨⟨grown', nested'⟩, ⟨hfair', hfree'⟩, hresult⟩ := (hf a).ok (hs.grown grown nested) hf'
    refine ⟨⟨grown.trans grown', nested'⟩, ⟨⟨hfair, hfair'⟩, fun name hn => ?_⟩,
      fun final hk => hresult final hk (hfact final (grown'.trans hk))⟩
    exact (List.mem_append.mp hn).elim (hfree name) ((hs.free_iff grown).mp hfree' name)
  · obtain ⟨⟨a, mid⟩, hx'⟩ := hx.runs hs hfair fun name hn => hfree name (List.mem_append_left _ hn)
    obtain ⟨⟨grown, nested⟩, -, -⟩ := hx.ok hs hx'
    obtain ⟨⟨b, after⟩, hf'⟩ := (hf a).runs (hs.grown grown nested) hfair' ((hs.free_iff grown).mpr
      fun name hn => hfree name (List.mem_append_right _ hn))
    exact ⟨(b, after), visit_bind.mpr ⟨a, mid, hx', hf'⟩⟩

/-- A part that has no variables comes first. -/
theorem bind {step f} (hx : Visits here [] fair step fact)
    (hf : ∀ a, Visits here vars fair' (f a) fun final b => fact final a → r final b) :
    Visits here vars (fair ∧ fair') (step >>= f) r :=
  hx.append hf

theorem map {step : Visit α} {f : α → β} (h : Visits here vars fair step fact)
    (hf : ∀ {final a}, fact final a → r final (f a)) :
    Visits here vars fair (do return f (← step)) r := by
  have hb := h.append fun a => @pure β here (fun final b => fact final a → r final b) (f a) hf
  rw [List.append_nil] at hb
  exact hb.congr (and_iff_left trivial)

theorem record {f rest} (h : Visits here vars fair (rest ()) fact) :
    Visits here vars fair (Scope.record f >>= rest) fact :=
  ⟨fun {progress _ _} hs he => @h.ok { progress with uses := f progress.uses } _ _ hs he,
    fun {progress} hs => @h.runs { progress with uses := f progress.uses } hs⟩

theorem checkVar {name rest} (h : Visits here vars fair (rest ()) fact) :
    Visits here (name :: vars) fair (checkVar here name >>= rest) fact := by
  have hcheck {progress : Progress} (hs : Stands here progress.scopes) :
      (Scope.checkVar here name >>= rest) progress = .error (.redeclared name) ∧
        Clashes progress.scopes name here.scope ∨
      (Scope.checkVar here name >>= rest) progress = rest () progress ∧
        ¬Clashes progress.scopes name here.scope := by
    rw [← any_iff_clashes hs.nested (Nat.lt_succ_self _)]
    have he : Scope.checkVar here name progress = (if ((progress.scopes.chain here.scope).takeWhile
        fun found => !found.2.isVarScope).any fun found => bars found.2.bindings name
        then MonadExcept.throw (.redeclared name) else Pure.pure () : Visit Unit) progress := rfl
    change (Scope.checkVar here name progress >>= fun p => rest p.1 p.2) = _ ∧ _ ∨
      (Scope.checkVar here name progress >>= fun p => rest p.1 p.2) = _ ∧ _
    rw [he]
    split
    · next hany => exact .inl ⟨rfl, hany⟩
    · next hany => exact .inr ⟨rfl, hany⟩
  refine ⟨fun hs he => ?_, fun hs hf hfree => ?_⟩
  · obtain ⟨hc, -⟩ | ⟨hc, hn⟩ := hcheck hs
    · cases hc.symm.trans he
    · obtain ⟨hg, ⟨hfair, hfree⟩, hfact⟩ := h.ok hs (hc.symm.trans he)
      exact ⟨hg, ⟨hfair, List.forall_mem_cons.mpr ⟨hn, hfree⟩⟩, hfact⟩
  · obtain ⟨hn, hfree⟩ := List.forall_mem_cons.mp hfree
    obtain ⟨-, hc⟩ | ⟨hc, -⟩ := hcheck hs
    · exact absurd hc hn
    · exact hc ▸ h.runs hs hf hfree

theorem entered {kind : ScopeKind} {strict inside : Bool} {arrow : Bool}
    {bindings : Except EarlyError (List Binding)} {tabled : Prop} {declared barred : List String}
    {f : ScopeId → Visit β} (hk : kind = .block ∨ kind = .withObject ∨ kind = .catchClause)
    (ht : (∃ table, bindings = .ok table) ↔ tabled)
    (hd : ∀ {table}, bindings = .ok table → (∀ name ∈ declared, name ∈ names table) ∧
      ∀ name, bars table name = true ↔ name ∈ barred)
    (hf : ∀ id, Visits ⟨id, inside⟩ vars fair (f id) fun final b =>
      Opens final declared id → r final b) :
    Visits here vars ((tabled ∧ ∀ name ∈ barred, name ∉ vars) ∧ fair)
      (enter kind (some here.scope) strict arrow bindings >>= f) r := by
  have hvar : kind ≠ .script ∧ ∀ scope : Scope, scope.kind = kind → scope.isVarScope = false := by
    obtain rfl | rfl | rfl := hk <;> exact ⟨by decide, fun scope hs => by rw [isVarScope, hs]⟩
  cases bindings with
  | error error =>
    refine ⟨fun _ he => (by cases he), fun _ hfair _ => ?_⟩
    obtain ⟨_, h⟩ := ht.mpr hfair.1.1
    cases h
  | ok table =>
    obtain ⟨hdeclared, hbarred⟩ := hd rfl
    let scope : Scope := ⟨kind, some here.scope, table, kind == .withObject, strict, arrow⟩
    have hpush {progress : Progress} : (progress.scopes.push scope)[progress.scopes.size]? =
      some scope := Array.getElem?_push_size
    have hstands {progress : Progress} (hs : Stands here progress.scopes) :
        Stands ⟨progress.scopes.size, inside⟩ (progress.scopes.push scope) :=
      ⟨hs.nested.push fun _ hp => Option.some.inj hp ▸ hs.inside, by simp⟩
    have hfree {progress : Progress} (hs : Stands here progress.scopes) :
        Free (progress.scopes.push scope) vars progress.scopes.size ↔
          (∀ name ∈ barred, name ∉ vars) ∧ Free progress.scopes vars here.scope := by
      rw [← hs.free_iff (.push progress.scopes scope)]
      have hclash (name : String) : Clashes (progress.scopes.push scope) name progress.scopes.size ↔
          name ∈ barred ∨ Clashes (progress.scopes.push scope) name here.scope := by
        rw [clashes_iff hpush, hbarred]
        simp [hvar.2 scope rfl, scope]
      unfold Free
      simp only [hclash, not_or]
      exact ⟨fun h => ⟨fun name hb hv => (h name hv).1 hb, fun name hv => (h name hv).2⟩,
        fun h name hv => ⟨fun hb => h.1 name hb hv, h.2 name hv⟩⟩
    refine ⟨fun {progress b after} hs he => ?_, fun {progress} hs hfair hfree' => ?_⟩
    · obtain ⟨⟨hg, hn⟩, ⟨hfair, hfr⟩, hfact⟩ := @(hf progress.scopes.size).ok
        { progress with scopes := progress.scopes.push scope } b after (hstands hs) he
      obtain ⟨hb, hfr⟩ := (hfree hs).mp hfr
      refine ⟨⟨(Grown.push _ _).trans hg, hn⟩, ⟨⟨⟨ht.mp ⟨table, rfl⟩, hb⟩, hfair⟩, hfr⟩,
        fun final hk => ?_⟩
      exact hfact final hk ((hg.trans hk).opens hpush hvar.1 hdeclared).1
    · exact @(hf progress.scopes.size).runs { progress with scopes := progress.scopes.push scope }
        (hstands hs) hfair.2 ((hfree hs).mpr ⟨hfair.1.2, hfree'⟩)

theorem block {made tabled} {lexicals : List Lexical} {f} (ht : TabulatesBlock made tabled lexicals)
    (hf : ∀ id, Visits ⟨id, here.strict⟩ vars fair (f ⟨id, here.strict⟩) fun final b =>
      Opens final (lexicals.map Lexical.name) id → r final b) :
    Visits here vars ((tabled ∧ ∀ lexical ∈ lexicals, lexical.name ∉ vars) ∧ fair)
      (enterBlock here made >>= f) r := by
  simp only [enterBlock, bind_assoc, pure_bind]
  refine (entered (.inl rfl) ht.iff (fun hm => ?_) hf).congr (by rw [List.forall_mem_map])
  exact ⟨fun name => ((ht.table hm).name_mem name).mpr, (ht.table hm).bars_iff⟩

theorem opened {kind : ScopeKind} {table : List Binding} {strict inside : Bool}
    {f : ScopeId → Visit β} (hk : kind = .withObject ∨ kind = .catchClause)
    (ht : ∀ name, bars table name = false)
    (hf : ∀ id, Visits ⟨id, inside⟩ vars fair (f id) fun final b =>
      Opens final [] id → r final b) :
    Visits here vars fair (enter kind (some here.scope) strict false (.ok table) >>= f) r := by
  refine (entered (.inr hk) (iff_true_intro ⟨_, rfl⟩) (fun he => ?_) hf).congr
    ⟨And.right, fun h => ⟨⟨trivial, List.forall_mem_nil _⟩, h⟩⟩
  cases he
  simp [ht]

theorem grows_closeFunction (uses : Uses) (arrow : Bool) (self : Option String) (scope : Scope)
    (name : String) (h : name ∈ names scope.bindings) :
    name ∈ names (closeFunction uses arrow self scope).bindings := by
  unfold closeFunction
  have h : name ∈ names (if !arrow && (uses.arguments || uses.evalWithin) then
      addOverVar scope.bindings "arguments" .arguments else scope.bindings) := by
    split
    · exact mem_addOverVar.mpr (.inl h)
    · exact h
  cases self with
  | none => exact h
  | some self => exact mem_addUnlessDeclared.mpr (.inl h)

/-- A function is visited inside its scope, which then gets its last bindings. No variable leaves
it. -/
theorem inFunction {arrow strict self bindings tabled table declared parts}
    (ht : Tabulates bindings tabled table) (hd : ∀ name ∈ declared, name ∈ table)
    (hparts : ∀ id, Visits ⟨id, strict⟩ vars fair (parts ⟨id, strict⟩) fact) :
    Visits here [] (tabled ∧ fair) (inFunction here arrow self strict bindings parts)
      fun final r => (Opens final declared r.1 ∧ (final.scope r.1).arrow = arrow) ∧
        fact final r.2 := by
  cases hb : bindings with
  | error error =>
    refine ⟨fun _ he => (by cases he), fun _ hfair _ => ?_⟩
    obtain ⟨_, h⟩ := ht.iff.mpr hfair.1
    cases hb.symm.trans h
  | ok bound =>
    let scope : Scope := ⟨.function, some here.scope, bound, false, strict, arrow⟩
    have hpush {progress : Progress} : (progress.scopes.push scope)[progress.scopes.size]? =
      some scope := Array.getElem?_push_size
    have hstands {progress : Progress} (hs : Stands here progress.scopes) :
        Stands ⟨progress.scopes.size, strict⟩ (progress.scopes.push scope) :=
      ⟨hs.nested.push fun _ hp => Option.some.inj hp ▸ hs.inside, by simp⟩
    have hfree {progress : Progress} :
        Free (progress.scopes.push scope) vars progress.scopes.size := fun name _ hc =>
      Bool.noConfusion ((clashes_iff hpush).mp hc).1
    have hrun (progress : Progress) : Scope.inFunction here arrow self strict (.ok bound) parts
        progress = (do
          let (visited, after) ← parts ⟨progress.scopes.size, strict⟩
            ⟨progress.scopes.push scope, {}⟩
          return ((progress.scopes.size, visited), ⟨after.scopes.modify progress.scopes.size
            (closeFunction after.uses arrow self), progress.uses.around after.uses arrow⟩)) := rfl
    refine ⟨fun {progress found after} hs he => ?_, fun {progress} hs hfair _ => ?_⟩
    · rw [hrun] at he
      obtain ⟨⟨visited, left⟩, hv, he⟩ := Compile.except_bind_ok.mp he
      cases he
      obtain ⟨⟨hg, hn⟩, ⟨hfair, -⟩, hfact⟩ := (hparts _).ok (hstands hs) hv
      have hclosed : Grown left.scopes (left.scopes.modify progress.scopes.size
          (closeFunction left.uses arrow self)) := by
        refine .modify fun found hf =>
          ⟨rfl, rfl, rfl, grows_closeFunction _ _ _ found, fun hvar => ?_⟩
        obtain ⟨_, hf', hkept⟩ := hg _ _ hpush
        cases hf.symm.trans hf'
        rw [hkept.isVarScope] at hvar
        cases hvar
      refine ⟨⟨((Grown.push _ _).trans hg).trans hclosed, hn.modify fun _ => rfl⟩,
        ⟨⟨ht.iff.mp ⟨bound, hb⟩, hfair⟩, List.forall_mem_nil _⟩, fun final hk => ?_⟩
      refine ⟨((hg.trans hclosed).trans hk).opens hpush ScopeKind.noConfusion fun name hm => ?_,
        hfact final (hclosed.trans hk)⟩
      exact (ht.declares hb name).mpr (hd name hm)
    · obtain ⟨⟨visited, left⟩, hv⟩ := @(hparts progress.scopes.size).runs
        ⟨progress.scopes.push scope, {}⟩ (hstands hs) hfair.2 hfree
      exact ⟨_, (hrun progress).trans (by rw [hv]; rfl)⟩

end Visits

end Ecma.Scope
