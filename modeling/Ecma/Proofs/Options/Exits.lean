/-
Exits and the constructs around them keep emitters abreast. What a construct learns from the exits
through it is the same in both drafts, and it is told by the exits alone.
-/
import Ecma.Proofs.Options.Expressions

namespace Ecma.Compile

open Code (Operand Op Label FunctionKind)

variable {α β γ δ ε ζ : Type} {opts : Choices} {ctx : Context} {hulls : List Hull}
  {es es' : List Exit} {fs fs' : List Fact} {here here' : Option Shape}

/-! ## Loops over lists -/

namespace Pace

/-- A round for each of the things that two lists are made of. -/
theorem rounds {one : ζ → α} {other : ζ → β} {f : α → PUnit → Emit (ForInStep PUnit)}
    {g : β → PUnit → Emit (ForInStep PUnit)} (exitsOf : ζ → List Exit)
    (known : List ζ → List Fact) (place : List ζ → Option Shape) (zs : List ζ)
    (h : ∀ z rest, (z :: rest) <:+ zs → Pace opts ctx hulls (exitsOf z) (known (z :: rest))
      (place (z :: rest)) (f (one z) ⟨⟩) (g (other z) ⟨⟩)
      (Gives (· = .yield ⟨⟩) (known rest) (place rest))) :
    Pace opts ctx hulls (zs.flatMap exitsOf) (known zs) (place zs)
      (forIn (zs.map one) PUnit.unit f) (forIn (zs.map other) PUnit.unit g)
      (Then (known []) (place [])) := by
  induction zs with
  | nil => exact .pure ⟨rfl, rfl⟩
  | cons z rest ih =>
    simp only [List.map_cons, List.forIn_cons]
    refine .with_ (h z rest List.suffix_rfl) ?_
    rintro _ rfl
    exact ih fun z' rest' hs => h z' rest' (hs.trans (List.suffix_cons z rest))

theorem loop {xs : List α} {f g : α → PUnit → Emit (ForInStep PUnit)}
    (h : ∀ x ∈ xs, Pace opts ctx hulls [] fs here (f x ⟨⟩) (g x ⟨⟩)
      (Gives (· = .yield ⟨⟩) fs here)) :
    Pace opts ctx hulls [] fs here (forIn xs PUnit.unit f) (forIn xs PUnit.unit g)
      (Then fs here) := by
  have hr := @rounds _ _ _ _ _ _ id id f g (fun _ => []) (fun _ => fs)
    (fun _ => here) xs fun z rest hs => h z (hs.subset (.head _))
  rwa [List.map_id, List.flatMap_eq_nil_iff.mpr fun _ _ => rfl] at hr

theorem forM {f g} (exitsOf : α → List Exit) (known : List α → List Fact)
    (place : List α → Option Shape) (xs : List α)
    (h : ∀ x rest, (x :: rest) <:+ xs → Pace opts ctx hulls (exitsOf x) (known (x :: rest))
      (place (x :: rest)) (f x) (g x) (Then (known rest) (place rest))) :
    Pace opts ctx hulls (xs.flatMap exitsOf) (known xs) (place xs) (xs.forM f) (xs.forM g)
      (Then (known []) (place [])) := by
  induction xs with
  | nil => exact .pure ⟨rfl, rfl⟩
  | cons x rest ih =>
    change Pace _ _ _ _ _ _ (f x >>= fun _ => rest.forM f) (g x >>= fun _ => rest.forM g) _
    exact .andThen (h x rest List.suffix_rfl) fun _ _ =>
      ih fun x' rest' hs => h x' rest' (hs.trans (List.suffix_cons x rest))

end Pace

/-! ## Code that does not look around -/

/-- Code making that does not look at the constructs around. -/
def Blind (x : Emit α) : Prop :=
  ∀ ctx em control, x ctx { em with control } =
    (x ctx em).map fun r => (r.1, { r.2 with control })

namespace Blind

theorem pure (a : α) : Blind (Pure.pure a) := fun _ _ _ => rfl

theorem changeDraft (f : Code.Draft → Code.Draft) : Blind (changeDraft f) := fun _ _ _ => rfl

theorem opWith (o : Op) (operand : Operand) : Blind (opWith o operand) := fun _ _ _ => rfl

theorem onDraft (f : Code.Draft → α × Code.Draft) : Blind (onDraft f) := fun _ _ _ => rfl

theorem position : Blind position := fun _ _ _ => rfl

theorem bind {x : Emit α} {k : α → Emit β} (hx : Blind x) (hk : ∀ a, Blind (k a)) :
    Blind (x >>= k) := by
  intro ctx em control
  have hx := hx ctx em control
  change (x ctx _ >>= fun r => k r.1 ctx r.2) =
    (x ctx em >>= fun r => k r.1 ctx r.2).map _
  rw [hx]
  cases x ctx em with
  | error error => rfl
  | ok r => exact hk r.1 ctx r.2 control

theorem read {k : Context → Emit α} (hk : ∀ ctx, Blind (k ctx)) : Blind (MonadReader.read >>= k) :=
  fun ctx => hk ctx ctx

theorem returnRegister : Blind returnRegister := by
  intro ctx em control
  obtain ⟨draft, around, kept, apart⟩ := em
  rw [Pace.returnRegister_eq, Pace.returnRegister_eq]
  cases kept <;> rfl

theorem rounds {f : α → PUnit → Emit (ForInStep PUnit)} (hf : ∀ x, Blind (f x ⟨⟩)) (xs : List α) :
    Blind (forIn xs PUnit.unit f) := by
  induction xs with
  | nil => exact pure _
  | cons x xs ih =>
    rw [List.forIn_cons]
    refine bind (hf x) fun step => ?_
    cases step with
    | done => exact pure _
    | yield => exact ih

end Blind

theorem leave_blind (target : Exit) (control : List Control) : Blind (leave target control) := by
  induction control with
  | nil =>
    refine .bind ?_ fun _ => .pure _
    exact .bind .returnRegister fun _ => .bind (.opWith _ _) fun _ => .changeDraft _
  | cons construct outer ih =>
    cases construct with
    | jumps jumps =>
      unfold leave
      split
      · refine .bind ?_ fun _ => .pure _
        refine .read fun ctx => .bind (.rounds ?_ _) fun _ => ?_
        · exact fun _ => .bind (.changeDraft _) fun _ => .pure _
        · split <;> exact .bind (.opWith _ _) fun _ => .pure _
      · exact .bind ih fun _ => .pure _
    | finalizer es =>
      refine .bind ?_ fun _ => .bind (.opWith _ _) fun _ => .pure _
      unfold exitLabel
      split
      · exact .pure _
      · exact .bind (.onDraft _) fun _ => .pure _
    | closing closing =>
      refine .bind .position fun _ => ?_
      exact .bind (.opWith _ _) fun _ => .bind (.changeDraft _) fun _ =>
        .bind ih fun _ => .pure _

/-! ## Exits -/

theorem Entry.Learns.breaks {target : Exit} {jumps : PairedJumps}
    (h : (target.isContinue && jumps.continues.isSome) = false) :
    Entry.Learns [target] (.jumps jumps) (.jumps { jumps with breakUsed := true }) := by
  have hl := @Entry.Learns.jumps [target] jumps
  simpa only [PairedJumps.learn, breaksOff, goesOn, List.any_cons, h, List.any_nil, Bool.not_false,
    Bool.or_false, Bool.or_true] using hl

theorem Entry.Learns.continues {target : Exit} {jumps : PairedJumps}
    (h : (target.isContinue && jumps.continues.isSome) = true) :
    Entry.Learns [target] (.jumps jumps) (.jumps { jumps with continueUsed := true }) := by
  have hl := @Entry.Learns.jumps [target] jumps
  simpa only [PairedJumps.learn, breaksOff, goesOn, List.any_cons, h, List.any_nil, Bool.not_true,
    Bool.or_false, Bool.or_true] using hl

/-- A label that has no place can be aimed at from an empty stack. -/
theorem target_mark (used : Bool) (labels : Label × Label) (before after : List Fact) :
    Pace.Target labels.1 labels.2 0 (before ++ mark used labels :: after)
      (before ++ mark true labels :: after) :=
  .label before after (by cases used <;> simp)

theorem jumpOn_paced (jumps : PairedJumps) {labels : Label × Label}
    (hc : jumps.continues = some labels) :
    Pace opts ctx hulls [] (jumps.facts ++ fs) (up 0) (jump .jump labels.1) (jump .jump labels.2)
      (Then ({ jumps with continueUsed := true }.facts ++ fs) none) := by
  unfold PairedJumps.facts PairedJumps.continueFacts
  rw [hc]
  cases jumps.placed with
  | true => exact .jump (.aim (by simp))
  | false => exact .jump (target_mark _ labels [mark jumps.breakUsed jumps.breaks] fs)

theorem jumpOff_paced (jumps : PairedJumps) :
    Pace opts ctx hulls [] (jumps.facts ++ fs) (up 0) (jump .jump jumps.breaks.1)
      (jump .jump jumps.breaks.2) (Then ({ jumps with breakUsed := true }.facts ++ fs) none) :=
  .jump (target_mark _ jumps.breaks [] (jumps.continueFacts ++ fs))

/-- What is left behind by an exit that a construct takes. -/
def TookExit (target : Exit) (jumps : PairedJumps) (fs : List Fact) : After Jumps Jumps :=
  fun a b fs' here' => ∃ jumps' : PairedJumps, a = jumps'.one ∧ b = jumps'.other ∧
    Entry.Learns [target] (.jumps jumps) (.jumps jumps') ∧ fs' = jumps'.facts ++ fs ∧
    here' = none

theorem jumpOut_paced (target : Exit) (jumps : PairedJumps) :
    Pace opts ctx hulls [] (jumps.facts ++ fs) (up 0) (jumpOut target jumps.one)
      (jumpOut target jumps.other) (TookExit target jumps fs) := by
  have hoff (h : (target.isContinue && jumps.continues.isSome) = false) :
      Pace opts ctx hulls [] (jumps.facts ++ fs) (up 0)
        (do jump .jump jumps.breaks.1; return { jumps.one with breakUsed := true })
        (do jump .jump jumps.breaks.2; return { jumps.other with breakUsed := true })
        (TookExit target jumps fs) :=
    .step (jumpOff_paced jumps) fun _ _ =>
      .pure ⟨{ jumps with breakUsed := true }, rfl, rfl, .breaks h, rfl, rfl⟩
  refine .read ?_
  refine .step (.loop fun _ _ => .step (.op rfl rfl) fun _ _ => .pure ⟨rfl, rfl, rfl, rfl⟩)
    fun _ _ => ?_
  obtain ⟨labels, plain, depth, breaks, breakUsed, continues, placed, continueUsed⟩ := jumps
  cases target with
  | breakTo index | function => exact hoff rfl
  | continueTo index =>
    cases continues with
    | none => exact hoff rfl
    | some continues =>
      exact .step (jumpOn_paced _ rfl) fun _ _ => .pure ⟨_, rfl, rfl, .continues rfl, rfl, rfl⟩

/-- What is left behind by an exit through constructs. -/
def Left.exit (target : Exit) (cs : List Entry) (fs : List Fact) :
    After (List Control) (List Control) :=
  fun a b fs' here' => ∃ cs', a = cs'.map Entry.one ∧
    b = cs'.map Entry.other ∧ LearnAll [target] cs cs' ∧
    fs' = cs'.flatMap Entry.facts ++ fs ∧ here' = none

/-- The labels of exits through a finalizer. -/
theorem exitLabel_paced (target : Exit) (learnt : List ((Label × Label) × Exit)) :
    Pace opts ctx hulls [] (learnt.map (fun exit => mark true exit.1) ++ fs) here
      (exitLabel target (learnt.map fun exit => (exit.1.1, exit.2)))
      (exitLabel target (learnt.map fun exit => (exit.1.2, exit.2)))
      fun a b fs' here' => ∃ (learnt' : List ((Label × Label) × Exit)) (fs'' : List Fact),
        a.2 = learnt'.map (fun exit => (exit.1.1, exit.2)) ∧
        b.2 = learnt'.map (fun exit => (exit.1.2, exit.2)) ∧
        learnt'.map Prod.snd = addTarget (learnt.map Prod.snd) target ∧
        Pace.Target a.1 b.1 0 fs' fs'' ∧
        (learnt'.map (fun exit => mark true exit.1) ++ fs).Perm fs'' ∧ here' = here := by
  unfold exitLabel addTarget
  simp only [List.find?_map, Function.comp_def]
  cases hf : learnt.find? fun exit => exit.2 == target with
  | some exit =>
    have hin := List.mem_of_find?_eq_some hf
    have hmem : target ∈ learnt.map Prod.snd :=
      List.mem_map.mpr ⟨exit, hin, by simpa using List.find?_some hf⟩
    obtain ⟨before, after, rfl⟩ := List.append_of_mem hin
    rw [if_pos hmem]
    refine .pure ⟨_, _, rfl, rfl, rfl, ?_, .refl _, rfl⟩
    simp only [List.map_append, List.map_cons, List.append_assoc, List.cons_append]
    exact target_mark true exit.1 _ _
  | none =>
    have hmem : target ∉ learnt.map Prod.snd := by
      intro hm
      obtain ⟨exit, he, rfl⟩ := List.mem_map.mp hm
      simpa using List.find?_eq_none.mp hf exit he
    rw [if_neg hmem]
    refine Pace.withLabel fun l m => ?_
    refine .pure ⟨learnt ++ [((l, m), target)], _, ?_, ?_, ?_, target_mark false (l, m) [] _, ?_, rfl⟩
    · simp only [List.map_append, List.map_cons, List.map_nil]
    · simp only [List.map_append, List.map_cons, List.map_nil]
    · simp only [List.map_append, List.map_cons, List.map_nil]
    · simp only [List.map_append, List.map_cons, List.map_nil, List.append_assoc, List.cons_append,
        List.nil_append]
      exact List.perm_middle

/-- Both drafts end the protected range of a loop. -/
def PairedClosing.suspend (closing : PairedClosing) (p q : Nat) : PairedClosing :=
  match closing.opened with
  | some start =>
    { closing with opened := none, ranges := closing.ranges ++ [(start, (p, q))] }
  | none => closing

namespace PairedClosing

theorem one_suspend (closing : PairedClosing) (p q : Nat) :
    (closing.suspend p q).one = closing.one.suspend p := by
  obtain ⟨reg, opened, ranges⟩ := closing
  cases opened <;> simp [suspend, one, Closing.suspend]

theorem other_suspend (closing : PairedClosing) (p q : Nat) :
    (closing.suspend p q).other = closing.other.suspend q := by
  obtain ⟨reg, opened, ranges⟩ := closing
  cases opened <;> simp [suspend, other, Closing.suspend]

theorem register_suspend (closing : PairedClosing) (p q : Nat) :
    (closing.suspend p q).register = closing.register := by
  unfold suspend
  split <;> rfl

/-- The facts of a suspended loop are known where it is suspended. -/
theorem retains_suspend (closing : PairedClosing) (p q : Nat) (fs : List Fact) :
    Retains (.seam p q :: (closing.facts ++ fs)) ((closing.suspend p q).facts ++ fs) := by
  obtain ⟨reg, opened, ranges⟩ := closing
  cases opened with
  | none => exact .drop (fun _ _ _ => Fact.noConfusion) _
  | some start =>
    refine @Retains.append_right (.seam p q :: PairedClosing.facts ⟨reg, some start, ranges⟩) _
      (.of_perm ?_) fs
    simp only [suspend, PairedClosing.facts, Option.toList_none, Option.toList_some, List.map_nil, List.map_cons,
      List.nil_append, List.flatMap_append, List.flatMap_cons, List.flatMap_nil, List.append_nil, List.cons_append]
    exact List.perm_append_comm.trans (.swap _ _ _)

end PairedClosing

theorem leave_paced (target : Exit) (cs : List Entry) (fs : List Fact) :
    Pace opts ctx hulls [] (cs.flatMap Entry.facts ++ fs) (up 0)
      (leave target (cs.map Entry.one)) (leave target (cs.map Entry.other))
      (Left.exit target cs fs) := by
  induction cs generalizing fs with
  | nil =>
    refine .step (.take .returnRegister fun _ _ => .step (.opRegister rfl rfl) fun _ _ => .leave rfl)
      fun _ _ => ?_
    exact .pure ⟨[], rfl, rfl, .nil, rfl, rfl⟩
  | cons entry outer ih =>
    simp only [List.flatMap_cons, List.append_assoc]
    cases entry with
    | jumps jumps =>
      simp only [List.map_cons, Entry.one, Entry.other, leave, List.length_map]
      by_cases ht : target.isAt outer.length = true
      · simp only [ht, if_true]
        refine .bind (jumpOut_paced target jumps) ?_
        rintro a b _ _ ⟨jumps', rfl, rfl, hl, rfl, rfl⟩
        refine .pure ⟨.jumps jumps' :: outer, rfl, rfl, .cons ?_ ?_, ?_, rfl⟩
        · simpa [Entry.hull, Hull.takes, ht] using hl
        · simpa [Entry.hull, Hull.takes, ht] using LearnAll.refl outer
        · simp only [List.flatMap_cons, List.append_assoc, Entry.facts]
      · simp only [ht]
        refine .retain (.of_perm (List.perm_append_comm_assoc ..)) (.bind (ih (jumps.facts ++ fs)) ?_)
        rintro a b _ _ ⟨outer', rfl, rfl, hl, rfl, rfl⟩
        refine .retain (.of_perm (List.perm_append_comm_assoc ..))
          (.pure ⟨.jumps jumps :: outer', rfl, rfl, .cons ?_ ?_, ?_, rfl⟩)
        · simpa [Entry.hull, Hull.takes, ht] using Entry.Learns.refl (.jumps jumps)
        · simpa [Entry.hull, Hull.takes, ht] using hl
        · simp only [List.flatMap_cons, List.append_assoc, Entry.facts]
    | finalizer learnt =>
      simp only [List.map_cons, Entry.one, Entry.other, leave]
      refine .bind (exitLabel_paced target learnt) ?_
      rintro ⟨l, _⟩ ⟨m, _⟩ fs' _ ⟨learnt', fs'', rfl, rfl, hl, ht, hp, rfl⟩
      refine .step (.jump ht) fun _ _ => ?_
      refine .retain (.of_perm hp)
        (.pure ⟨.finalizer learnt' :: outer, rfl, rfl, .cons (.finalizer hl) ?_, ?_, rfl⟩)
      · exact .refl outer
      · simp only [List.flatMap_cons, List.append_assoc, Entry.facts]
    | closing closing =>
      simp only [List.map_cons, Entry.one, Entry.other, leave]
      refine .withPosition fun p q => ?_
      rw [← closing.one_suspend p q, ← closing.other_suspend p q]
      refine .retain (closing.retains_suspend p q _) ?_
      refine .step (.opRegister rfl rfl) fun _ _ => .step (.op rfl rfl) fun _ _ => ?_
      refine .retain (.of_perm (List.perm_append_comm_assoc ..)) (.bind (ih _) ?_)
      rintro a b _ _ ⟨outer', rfl, rfl, hl, rfl, rfl⟩
      refine .retain (.of_perm (List.perm_append_comm_assoc ..))
        (.pure ⟨.closing (closing.suspend p q) :: outer', rfl, rfl, .cons ?_ hl, ?_, rfl⟩)
      · exact .closing (closing.register_suspend p q)
      · simp only [List.flatMap_cons, List.append_assoc, Entry.facts]

/-! ### Ranges are opened again -/

/-- Both drafts begin a protected range of a loop unless one is open. -/
def PairedClosing.resume (closing : PairedClosing) (p q : Nat) : PairedClosing :=
  { closing with opened := some (closing.opened.getD (p, q)) }

/-- A construct after protected ranges are opened again. -/
def Entry.resume (p q : Nat) : Entry → Entry
  | .closing paired => .closing (paired.resume p q)
  | entry => entry

namespace Entry

theorem sides_resume (p q : Nat) (cs : List Entry) :
    (cs.map (Entry.resume p q)).map Entry.one = resumeAll p (cs.map Entry.one) ∧
      (cs.map (Entry.resume p q)).map Entry.other = resumeAll q (cs.map Entry.other) := by
  simp only [resumeAll, List.map_map]
  constructor <;> refine List.map_congr_left fun entry _ => ?_ <;> cases entry with
  | jumps | finalizer => rfl
  | closing closing => obtain ⟨reg, _ | start, ranges⟩ := closing <;> rfl

theorem learns_resume (p q : Nat) : (cs : List Entry) → LearnAll [] cs (cs.map (Entry.resume p q))
  | [] => .nil
  | entry :: outer => by
    refine .cons ?_ (learns_resume p q outer)
    cases entry with
    | jumps jumps => exact .refl (.jumps jumps)
    | finalizer learnt => exact .refl (.finalizer learnt)
    | closing closing => exact .closing rfl

end Entry

variable {room : Nat} {kind : FunctionKind} {cs : List Entry} {one other : Emitter}

/-- Constructs may open their protected ranges where emitters are abreast. -/
theorem Abreast.resume {stage p q} (hs : stage.ledger.seam p q) {fs}
    (h : Abreast room kind (fs ++ cs.flatMap Entry.facts) stage) :
    Abreast room kind (fs ++ (cs.map (Entry.resume p q)).flatMap Entry.facts) stage := by
  induction cs generalizing fs with
  | nil => exact h
  | cons entry outer ih =>
    simp only [List.map_cons, List.flatMap_cons, ← List.append_assoc] at h ⊢
    refine ih ?_
    cases entry with
    | jumps jumps => exact h
    | finalizer learnt => exact h
    | closing closing =>
      obtain ⟨reg, _ | start, ranges⟩ := closing
      · refine (@Abreast.note _ _ _ _ (.seam p q) h rfl hs).retain (.of_perm ?_)
        rw [← List.cons_append]
        exact .append_right _ List.perm_middle
      · exact h

theorem Abreast.enclosed {ledger} (h : Abreast room kind fs ⟨ledger, here, one, other⟩)
    (control control' : List Control) : Abreast room kind fs
      ⟨ledger, here, { one with control }, { other with control := control' }⟩ :=
  h.still ⟨rfl, rfl, rfl, rfl, rfl, rfl, List.prefix_rfl, Nat.le_refl _⟩
    ⟨rfl, rfl, rfl, rfl, rfl, rfl, List.prefix_rfl, Nat.le_refl _⟩ (.refl here)
    ⟨h.stored.handlers, h.stored.functions, h.stored.registers, h.stored.returnRegister,
      h.stored.resume⟩

theorem Standing.apart (h : Standing room kind fs cs here one other) :
    Standing room kind (cs.flatMap Entry.facts ++ fs) [] here
      { one with control := [] } { other with control := [] } := by
  obtain ⟨ledger, ha⟩ := h.abreast
  refine ⟨⟨ledger, ?_⟩, rfl, rfl⟩
  rw [List.flatMap_nil, List.append_nil]
  exact (ha.retain (.of_perm List.perm_append_comm)).enclosed _ _

theorem Standing.around
    (h : Standing room kind (cs.flatMap Entry.facts ++ fs) [] here one other) :
    Standing room kind fs cs here { one with control := cs.map Entry.one }
      { other with control := cs.map Entry.other } := by
  obtain ⟨ledger, ha⟩ := h.abreast
  rw [List.flatMap_nil, List.append_nil] at ha
  refine ⟨⟨ledger, ?_⟩, rfl, rfl⟩
  exact (ha.retain (.of_perm List.perm_append_comm)).enclosed _ _

theorem Standing.resume (h : Standing room kind fs cs here one other) : Standing room kind fs
      (cs.map (Entry.resume one.position other.position)) here
      { one with control := resumeAll one.position one.control }
      { other with control := resumeAll other.position other.control } := by
  obtain ⟨ledger, ha⟩ := h.abreast
  refine ⟨⟨ledger, ?_⟩, ?_, ?_⟩
  · exact (ha.resume ha.course.current).enclosed _ _
  · rw [(Entry.sides_resume ..).1, ← h.one]
  · rw [(Entry.sides_resume ..).2, ← h.other]

theorem openClosing_paced : Pace opts ctx hulls [] fs here openClosing openClosing
    (Then fs here) := by
  intro cs one other hh hs
  exact .ok ⟨fs, here, _, ⟨rfl, rfl⟩, Entry.learns_resume _ _ cs, hs.resume⟩

theorem exitTo_eq (target : Exit) (ctx : Context) (em : Emitter) : exitTo target ctx em =
      (leave target em.control ctx { em with control := [] }).map fun r =>
        ((), { r.2 with control := resumeAll r.2.position r.1 }) := by
  have hl := leave_blind target em.control ctx { em with control := [] } em.control
  change (leave target em.control ctx em >>= fun r =>
    Except.ok ((), { r.2 with control := resumeAll r.2.position r.1 })) = _
  change leave target em.control ctx em = _ at hl
  rw [hl]
  cases leave target em.control ctx { em with control := [] } <;> rfl

theorem exitTo_paced (target : Exit) : Pace opts ctx hulls [target] fs (up 0)
    (exitTo target) (exitTo target) (Then fs none) := by
  intro cs one other hh hs
  rw [exitTo_eq, exitTo_eq, hs.one, hs.other]
  have hl := @leave_paced opts ctx [] target cs fs [] _ _ rfl hs.apart
  generalize leave target (cs.map Entry.one) (opts.first ctx)
    { one with control := [] } = first at hl ⊢
  generalize leave target (cs.map Entry.other) (opts.second ctx)
    { other with control := [] } = second at hl ⊢
  cases hl with
  | error he => exact .error he
  | ok hl =>
    obtain ⟨_, _, _, ⟨cs', rfl, rfl, hlearn, rfl, rfl⟩, hnil, hs⟩ := hl
    cases hnil
    have hlater := hs.around.resume
    refine .ok ⟨fs, none, _, ⟨rfl, rfl⟩, ?_, hlater⟩
    simpa using hlearn.trans (Entry.learns_resume _ _ cs')

/-! ## Inside a construct -/

/-- The exits that a construct takes. -/
def Hull.taken (hull : Hull) (outer : List Hull) (es : List Exit) : List Exit :=
  es.filter fun exit => hull.takes outer.length exit

/-- The exits that a construct does not take. -/
def Hull.passed (hull : Hull) (outer : List Hull) (es : List Exit) : List Exit :=
  es.filter fun exit => !hull.takes outer.length exit

/-- The innermost construct is left. -/
def popped (r : α × Emitter) : Except CompileError ((α × Control) × Emitter) :=
  match r.2.control with
  | control :: outer => .ok ((r.1, control), { r.2 with control := outer })
  | [] => .error .unbalanced

theorem within_eq (control : Control) (body : Emit α) (ctx : Context) (em : Emitter) :
    within control body ctx em =
      body ctx { em with control := control :: em.control } >>= popped := by
  change (body ctx _ >>= fun r => _) = _
  cases body ctx { em with control := control :: em.control } with
  | error error => rfl
  | ok r =>
    obtain ⟨a, draft, around, kept, apart⟩ := r
    cases around <;> rfl

theorem within_then (control : Control) (body : Emit α) (rest : α × Control → Emit β)
    (ctx : Context) (em : Emitter) : (within control body >>= rest) ctx em =
      body ctx { em with control := control :: em.control } >>= popped >>=
        fun r => rest r.1 ctx r.2 := by
  change (within control body ctx em >>= fun r => rest r.1 ctx r.2) = _
  rw [within_eq]

/-- Code that does not look around may as well run outside. -/
theorem Blind.within {x} (hx : Blind x) (control : Control) (k : α → Emit β) :
    Compile.within control (x >>= k) = x >>= fun a => Compile.within control (k a) := by
  funext ctx em
  have hin := hx ctx em (control :: em.control)
  have hout := hx ctx em em.control
  rw [within_eq]
  change (x ctx _ >>= fun r => k r.1 ctx r.2) >>= popped =
    x ctx em >>= fun r => Compile.within control (k r.1) ctx r.2
  rw [hin]
  generalize x ctx em = first at hout ⊢
  cases first with
  | error error => rfl
  | ok r =>
    change Except.ok r = Except.ok (r.1, { r.2 with control := em.control }) at hout
    have hcontrol : r.2.control = em.control :=
      congrArg (fun r => r.2.control) (Except.ok.inj hout)
    change k r.1 ctx { r.2 with control := control :: em.control } >>= popped =
      Compile.within control (k r.1) ctx r.2
    rw [within_eq, hcontrol]

theorem Standing.into {entry} (h : Standing room kind (entry.facts ++ fs) cs here one other) :
    Standing room kind fs (entry :: cs) here { one with control := entry.one :: one.control }
      { other with control := entry.other :: other.control } := by
  obtain ⟨ledger, ha⟩ := h.abreast
  refine ⟨⟨ledger, ?_⟩, ?_, ?_⟩
  · refine (ha.retain (.of_perm ?_)).enclosed _ _
    rw [List.flatMap_cons, List.append_assoc]
    exact List.perm_append_comm_assoc ..
  · rw [List.map_cons, h.one]
  · rw [List.map_cons, h.other]

theorem Standing.outOf {entry} (h : Standing room kind fs (entry :: cs) here one other) :
    Standing room kind (entry.facts ++ fs) cs here { one with control := cs.map Entry.one }
      { other with control := cs.map Entry.other } := by
  obtain ⟨ledger, ha⟩ := h.abreast
  refine ⟨⟨ledger, ?_⟩, rfl, rfl⟩
  refine (ha.retain (.of_perm ?_)).enclosed _ _
  rw [List.flatMap_cons, List.append_assoc]
  exact List.perm_append_comm_assoc ..

namespace Pace

variable {x : Emit α} {y : Emit β} {after : After α β}

/-- A piece of code inside a construct, after which it is known what the construct learnt. -/
theorem within_bind (entry : Entry) {k : α → Emit γ} {l : β → Emit δ}
    {t : γ × Control → Emit ε} {u : δ × Control → Emit ζ} {last : After ε ζ}
    (h : Pace opts ctx (entry.hull :: hulls) es fs here x y after)
    (hk : ∀ a b fs' here' entry', after a b fs' here' →
      Entry.Learns (entry.hull.taken hulls es) entry entry' →
      Pace opts ctx hulls es' (entry'.facts ++ fs') here'
        (within entry'.one (k a) >>= t) (within entry'.other (l b) >>= u) last) :
    Pace opts ctx hulls (entry.hull.passed hulls es ++ es') (entry.facts ++ fs) here
      (within entry.one (x >>= k) >>= t) (within entry.other (y >>= l) >>= u) last := by
  intro cs one other hh hs
  have h := h (entry :: cs) _ _ (by rw [List.map_cons, hh]) hs.into
  rw [within_then, within_then]
  change Made _ (x _ _ >>= (fun p => k p.1 _ p.2) >>= popped >>= _)
    (y _ _ >>= (fun p => l p.1 _ p.2) >>= popped >>= _)
  generalize x (opts.first ctx) _ = first at h ⊢
  generalize y (opts.second ctx) _ = second at h ⊢
  cases h with
  | error he => exact .error he
  | @ok a b one' other' h =>
    obtain ⟨fs', here', _, ha, hl, hs⟩ := h
    cases hl with
    | @cons _ _ entry' _ outer' hentry houter =>
      have hlength : cs.length = hulls.length := by rw [← hh, List.length_map]
      rw [hlength] at hentry houter
      have hk := hk a b fs' here' entry' ha hentry outer' _ _ (houter.hull.trans hh) hs.outOf
      rw [within_then, within_then] at hk
      have hone : { one' with control := entry'.one :: outer'.map Entry.one } = one' := by
        rw [← List.map_cons, ← hs.one]
      have hother : { other' with control := entry'.other :: outer'.map Entry.other } = other' := by
        rw [← List.map_cons, ← hs.other]
      dsimp only at hk
      rw [hone, hother] at hk
      change Made _ (k a _ one' >>= popped >>= _) (l b _ other' >>= popped >>= _)
      generalize k a (opts.first ctx) one' >>= popped >>= _ = first at hk ⊢
      generalize l b (opts.second ctx) other' >>= popped >>= _ = second at hk ⊢
      cases hk with
      | error he => exact .error he
      | ok hk =>
        obtain ⟨fs'', here'', cs'', ha, hl', hs⟩ := hk
        exact .ok ⟨fs'', here'', cs'', ha, houter.trans hl', hs⟩

theorem within (entry : Entry) {t : α × Control → Emit ε} {u : β × Control → Emit ζ}
    {last : After ε ζ} (h : Pace opts ctx (entry.hull :: hulls) es fs here x y after)
    (hk : ∀ a b fs' here' entry', after a b fs' here' →
      Entry.Learns (entry.hull.taken hulls es) entry entry' →
      Pace opts ctx hulls es' (entry'.facts ++ fs') here' (t (a, entry'.one))
        (u (b, entry'.other)) last) :
    Pace opts ctx hulls (entry.hull.passed hulls es ++ es') (entry.facts ++ fs) here
      (within entry.one x >>= t) (Compile.within entry.other y >>= u) last := by
  have hw : Pace opts ctx hulls (entry.hull.passed hulls es ++ es')
      (entry.facts ++ fs) here (Compile.within entry.one (x >>= Pure.pure) >>= t)
      (Compile.within entry.other (y >>= Pure.pure) >>= u) last :=
    within_bind entry h hk
  rwa [bind_pure, bind_pure] at hw

end Pace

/-! ### Looking around -/

/-- Whether a break with this label ends a construct. -/
def Hull.endsAt (label : Option String) : Hull → Bool
  | .jumps labels plain _ =>
    match label with
    | some label => labels.contains label
    | none => plain
  | _ => false

/-- Whether a continue with this label goes on with a construct. -/
def Hull.continuesAt (label : Option String) : Hull → Bool
  | .jumps labels _ continues => continues &&
    match label with
    | some label => labels.contains label
    | none => true
  | _ => false

/-- The innermost construct with a property, by the number of constructs around it. -/
def nearest? (hit : Hull → Bool) : List Hull → Option Nat
  | [] => none
  | hull :: outer => if hit hull then some outer.length else nearest? hit outer

theorem innermost?_eq {view : Entry → Control} {hit : Jumps → Bool} {hitHull : Hull → Bool}
    (h : ∀ entry : Entry, hitHull entry.hull = match view entry with
      | .jumps jumps => hit jumps
      | _ => false)
    (cs : List Entry) :
    innermost? hit (cs.map view) = nearest? hitHull (cs.map Entry.hull) := by
  induction cs with
  | nil => rfl
  | cons entry outer ih =>
    have h := h entry
    simp only [List.map_cons, nearest?, List.length_map]
    rw [h]
    cases view entry with
    | jumps jumps => simp only [innermost?, List.length_map, ih]
    | finalizer => exact ih
    | closing => exact ih

theorem endsAt_hull (label : Option String) (entry : Entry) :
    (entry.hull.endsAt label = match entry.one with
      | .jumps jumps => jumps.endsAt label
      | _ => false) ∧
    entry.hull.endsAt label = match entry.other with
      | .jumps jumps => jumps.endsAt label
      | _ => false := by
  cases entry <;> cases label <;> exact ⟨rfl, rfl⟩

theorem continuesAt_hull (label : Option String) (entry : Entry) :
    (entry.hull.continuesAt label = match entry.one with
      | .jumps jumps => jumps.continuesAt label
      | _ => false) ∧
    entry.hull.continuesAt label = match entry.other with
      | .jumps jumps => jumps.continuesAt label
      | _ => false := by
  cases entry with
  | jumps jumps =>
    simp only [Entry.hull, Entry.one, Entry.other, Hull.continuesAt, Jumps.continuesAt,
      PairedJumps.one, PairedJumps.other, Option.isSome_map]
    cases label <;> trivial
  | _ => exact ⟨rfl, rfl⟩

/-- A look at the constructs around. -/
theorem Pace.look {k l : Emitter → Emit α} {after : After α α}
    (h : ∀ (cs : List Entry) (one other : Emitter), cs.map Entry.hull = hulls →
      one.control = cs.map Entry.one → other.control = cs.map Entry.other →
      Pace opts ctx hulls es fs here (k one) (l other) after) :
    Pace opts ctx hulls es fs here (MonadState.get >>= k) (MonadState.get >>= l) after :=
  fun cs one other hh hs => h cs one other hh hs.one hs.other cs one other hh hs

theorem breakTarget_paced (label : Option String) :
    Pace opts ctx hulls [] fs here (breakTarget label) (breakTarget label)
      (Gives (fun target => (nearest? (Hull.endsAt label) hulls).map Exit.breakTo = some target)
        fs here) := by
  refine .look fun cs one other hh hone hother => ?_
  rw [hone, hother, innermost?_eq (fun entry => (endsAt_hull label entry).1),
    innermost?_eq (fun entry => (endsAt_hull label entry).2), hh]
  cases nearest? (Hull.endsAt label) hulls with
  | some index => exact .pure ⟨rfl, rfl, rfl, rfl⟩
  | none =>
    cases label with
    | some label | none => exact .throw rfl

theorem continueTarget_paced (label : Option String) :
    Pace opts ctx hulls [] fs here (continueTarget label) (continueTarget label)
      (Gives (fun target => (nearest? (Hull.continuesAt label) hulls).map Exit.continueTo =
        some target) fs here) := by
  refine .look fun cs one other hh hone hother => ?_
  rw [hone, hother, innermost?_eq (fun entry => (continuesAt_hull label entry).1),
    innermost?_eq (fun entry => (continuesAt_hull label entry).2), hh]
  cases nearest? (Hull.continuesAt label) hulls with
  | some index => exact .pure ⟨rfl, rfl, rfl, rfl⟩
  | none => exact .throw rfl

/-- Whether a construct runs code when it is left. -/
def Hull.cleansUp : Hull → Bool
  | .jumps .. => false
  | .finalizer | .closing => true

theorem hasCleanup_paced : Pace opts ctx hulls [] fs here hasCleanup hasCleanup
    (Gives (fun found => found = hulls.any Hull.cleansUp) fs here) := by
  refine .look fun cs one other hh hone hother => ?_
  rw [hone, hother, List.any_map, List.any_map, ← hh, List.any_map]
  refine .pure ⟨?_, ?_, rfl, rfl⟩ <;> refine congrArg cs.any (funext fun entry => ?_) <;>
    cases entry <;> rfl

/-! ### The end of the innermost construct -/

theorem useBreak_paced {labels plain continues} :
    Pace opts ctx (.jumps labels plain continues :: hulls) [.breakTo hulls.length] fs here
      useBreak useBreak fun l m fs' here' => fs' = .aim l m 0 :: fs ∧ here' = here := by
  intro cs one other hh hs
  cases cs with
  | nil => cases hh
  | cons entry outer =>
    cases entry with
    | finalizer => cases hh
    | closing => cases hh
    | jumps jumps =>
      have hlength : outer.length = hulls.length := by
        simpa using congrArg List.length (List.cons.inj hh).2
      obtain ⟨ledger, ha⟩ := hs.abreast
      obtain ⟨more, haims, hgoes⟩ := (target_mark jumps.breakUsed jumps.breaks fs
        (jumps.continueFacts ++ outer.flatMap Entry.facts)).aims
      have hgoes := hgoes _ ha.holds
      have ha := @Abreast.note _ _ _ _ (.aim jumps.breaks.1 jumps.breaks.2 0) (ha.aim haims) rfl hgoes
      have hone := hs.one
      have hother := hs.other
      obtain ⟨draft, _, kept, apart⟩ := one
      obtain ⟨draft', _, kept', apart'⟩ := other
      cases hone
      cases hother
      refine .ok ⟨_, here, .jumps { jumps with breakUsed := true } :: outer, ⟨rfl, rfl⟩, ?_,
        ⟨⟨_, ha.enclosed _ _⟩, rfl, rfl⟩⟩
      refine .cons ?_ ?_
      · simpa [Entry.hull, Hull.takes, Exit.isAt, hlength] using
          @Entry.Learns.breaks (.breakTo hulls.length) jumps rfl
      · simpa [Entry.hull, Hull.takes, Exit.isAt, hlength] using LearnAll.refl outer

/-- A piece of code that may go to the end of the innermost construct. -/
theorem Pace.withBreak {labels : List String} {plain continues : Bool} {k j : Label → Emit α}
    {after : After α α} (hk : ∀ l m, Pace opts ctx (.jumps labels plain continues :: hulls) es
      (.aim l m 0 :: fs) here (k l) (j m) after) :
    Pace opts ctx (.jumps labels plain continues :: hulls) (.breakTo hulls.length :: es)
      fs here (useBreak >>= k) (useBreak >>= j) after := by
  refine useBreak_paced.bind ?_
  rintro l m _ _ ⟨rfl, rfl⟩
  exact hk l m

/-! ### Constructs that take jumps -/

theorem Entry.Learns.eq_learn {jumps entry} (h : Entry.Learns es (.jumps jumps) entry)
    : entry = .jumps (jumps.learn es) := by
  cases h
  rfl

namespace PairedJumps

/-- The hull of a construct that takes jumps. -/
def hull (jumps : PairedJumps) : Hull :=
  .jumps jumps.labels jumps.takesPlainBreak jumps.continues.isSome

/-- A loop that is entered. -/
def loop (labels : List String) (envDepth : Nat) (next breaks : Label × Label) : PairedJumps :=
  { labels, takesPlainBreak := true, envDepth, breaks, continues := some next }

/-- A switch or a labelled statement that is entered. -/
def breakable (labels : List String) (takesPlainBreak : Bool) (envDepth : Nat)
    (breaks : Label × Label) : PairedJumps :=
  { labels, takesPlainBreak, envDepth, breaks, continues := none }

end PairedJumps

/-- What is known after code inside a construct that learnt from it. -/
def Inside (jumps : PairedJumps) (after : After α β) : After (α × Jumps) (β × Jumps) :=
  fun a b fs' here' => ∃ fs'', after a.1 b.1 fs'' here' ∧ a.2 = jumps.one ∧
    b.2 = jumps.other ∧ fs' = jumps.facts ++ fs''

namespace Pace

variable {x : Emit α} {y : Emit β} {after : After α β}

theorem withJumps_bind (jumps : PairedJumps) {k : α → Emit γ} {l : β → Emit δ}
    {last : After (γ × Jumps) (δ × Jumps)}
    (h : Pace opts ctx (jumps.hull :: hulls) es fs here x y after)
    (hk : ∀ a b fs' here', after a b fs' here' → Pace opts ctx hulls es'
        ((jumps.learn (jumps.hull.taken hulls es)).facts ++ fs') here'
        (withJumps (jumps.learn (jumps.hull.taken hulls es)).one (k a))
        (withJumps (jumps.learn (jumps.hull.taken hulls es)).other (l b)) last) :
    Pace opts ctx hulls (jumps.hull.passed hulls es ++ es') (jumps.facts ++ fs) here
      (withJumps jumps.one (x >>= k)) (withJumps jumps.other (y >>= l)) last := by
  refine within_bind (.jumps jumps) h fun a b fs' here' entry' ha hl => ?_
  rw [hl.eq_learn]
  exact hk a b fs' here' ha

theorem withJumps_blind {x : Emit α} {y : Emit β} {k : α → Emit γ} {l : β → Emit δ}
    (hx : Blind x) (hy : Blind y) {one other : Jumps} {last : After (γ × Jumps) (δ × Jumps)}
    (h : Pace opts ctx hulls es fs here (x >>= fun a => withJumps one (k a))
      (y >>= fun b => withJumps other (l b)) last) :
    Pace opts ctx hulls es fs here (withJumps one (x >>= k)) (withJumps other (y >>= l))
      last := by
  unfold withJumps at h ⊢
  rw [hx.within, hy.within, bind_assoc, bind_assoc]
  exact h

/-- Code inside a construct that takes jumps. -/
theorem withJumps (jumps : PairedJumps)
    (h : Pace opts ctx (jumps.hull :: hulls) es fs here x y after) :
    Pace opts ctx hulls (jumps.hull.passed hulls es) (jumps.facts ++ fs) here
      (withJumps jumps.one x) (Compile.withJumps jumps.other y)
      (Inside (jumps.learn (jumps.hull.taken hulls es)) after) := by
  have hw : Pace opts ctx hulls (jumps.hull.passed hulls es ++ []) (jumps.facts ++ fs)
      here (Compile.withJumps jumps.one (x >>= Pure.pure))
      (Compile.withJumps jumps.other (y >>= Pure.pure))
      (Inside (jumps.learn (jumps.hull.taken hulls es)) after) :=
    withJumps_bind jumps h fun a b fs' here' ha => .pure ⟨fs', ha, rfl, rfl, rfl⟩
  rwa [bind_pure, bind_pure, List.append_nil] at hw

/-- What a construct knows of its continues may be asked inside. -/
theorem withJumps_continueUsed {jumps : PairedJumps} {k j : Bool → Emit α}
    {last : After (α × Jumps) (α × Jumps)} (h : Pace opts ctx hulls es fs here
      (Compile.withJumps jumps.one (k jumps.continueUsed))
      (Compile.withJumps jumps.other (j jumps.continueUsed)) last) :
    Pace opts ctx hulls es fs here (Compile.withJumps jumps.one (continueUsed >>= k))
      (Compile.withJumps jumps.other (continueUsed >>= j)) last :=
  h

theorem inLoop {labels : List String} {body body' : Label → Emit α}
    {last : After (α × Jumps) (α × Jumps)} (h : ∀ l m l' m', Pace opts ctx hulls es
      ((PairedJumps.loop labels ctx.envDepth (l, m) (l', m')).facts ++ fs) here
      (Compile.withJumps (PairedJumps.loop labels ctx.envDepth (l, m) (l', m')).one (body l))
      (Compile.withJumps (PairedJumps.loop labels ctx.envDepth (l, m) (l', m')).other (body' m))
      last) :
    Pace opts ctx hulls es fs here (inLoop labels body) (Compile.inLoop labels body') last :=
  .withLabel fun l m => .withLabel fun l' m' => .read (h l m l' m')

theorem inBreakable {labels : List String} {plain : Bool} {x y : Emit α} {after : After α α}
    (h : Pace opts ctx (.jumps labels plain false :: hulls) es fs here x y after) :
    Pace opts ctx hulls (Hull.passed (.jumps labels plain false) hulls es) fs here
      (inBreakable labels plain x) (Compile.inBreakable labels plain y) fun a b fs' here' =>
        ∃ l m, Inside ((PairedJumps.breakable labels plain ctx.envDepth (l, m)).learn
          (Hull.taken (.jumps labels plain false) hulls es)) after a b fs' here' := by
  refine .withLabel fun l m => .read ?_
  refine (withJumps (.breakable labels plain ctx.envDepth (l, m)) h).weaken ?_
  exact fun a b fs' here' hi => ⟨fs', here', .refl _, .refl _, l, m, hi⟩

/-- A label gets its place from where code expects it. -/
theorem land {l m : Label} {height : Nat} (before after : List Fact) (he : Eases here (up height)) :
    Pace opts ctx hulls [] (before ++ .label l m (some height) :: after) here
      (Compile.place l) (Compile.place m) (Then (before ++ after) (up height)) :=
  .ease he (.place before after fun _ h => by cases h; rfl)

/-- The label where a construct continues gets its place, and code that follows may aim at it. -/
theorem placeNext (jumps : PairedJumps) {l m} (hc : jumps.continues = some (l, m))
    (hp : jumps.placed = false) (he : Eases here (up 0)) :
    Pace opts ctx hulls [] (jumps.facts ++ fs) here (Compile.place l) (Compile.place m)
      (Then ({ jumps with placed := true }.facts ++ fs) (up 0)) := by
  obtain ⟨labels, plain, depth, breaks, breakUsed, continues, placed, continueUsed⟩ := jumps
  cases hc
  cases hp
  refine .ease he ((placeAim [mark breakUsed breaks] fs ?_).forget (.of_perm (.swap _ _ _)))
  intro found hf
  cases continueUsed <;> cases hf
  rfl

end Pace

/-! ### The end of a construct -/

/-- Where code arrives after a statement. -/
def Completion.reach (c : Completion) : Option Shape :=
  if c.isAbrupt then none else up 0

theorem Completion.reach_eases (c : Completion) : Eases c.reach (up 0) := by
  unfold reach
  split
  · exact .none _
  · exact .refl _

/-- Nothing awaits the label where a construct continues. -/
def PairedJumps.Idle (jumps : PairedJumps) : Prop :=
  jumps.continues = none ∨ jumps.placed = true ∨ jumps.continueUsed = false

theorem PairedJumps.Idle.retains {jumps : PairedJumps} (h : jumps.Idle) (fs : List Fact) :
    Retains (jumps.continueFacts ++ fs) fs := by
  obtain ⟨labels, plain, depth, breaks, breakUsed, _ | next, placed, continueUsed⟩ := jumps
  · exact .refl fs
  · obtain h | rfl | rfl := h
    · cases h
    · exact .drop (fun _ _ _ => Fact.noConfusion) fs
    · cases placed
      · exact .drop (fun _ _ _ h => by simp [mark] at h) fs
      · exact .drop (fun _ _ _ => Fact.noConfusion) fs

/-- The end of a construct gets its place. -/
theorem placeEnd_paced (jumps : PairedJumps) (hidle : jumps.Idle) (c : Completion) :
    Pace opts ctx hulls [] (jumps.facts ++ fs) c.reach (place jumps.one.breakLabel)
      (place jumps.other.breakLabel)
      (Then fs (c.orReachable jumps.breakUsed).reach) := by
  unfold PairedJumps.facts
  cases hb : jumps.breakUsed with
  | true => exact (Pace.land [] _ c.reach_eases).forget (hidle.retains fs)
  | false => exact (Pace.place [] _ fun _ h => by simp at h).forget (hidle.retains fs)

end Ecma.Compile

