import Reentrant.Proofs.MachineAccess

/-!
The life of a machine under any host. What a host does to a machine is access; a hook may make any
accesses and may then fail. A step ends at most one frame, tells the hook of it at once, and leaves
the rest to the hook. Whatever is done to a machine, step by step or between steps, its frames, its
numbering, its reports and its exit are as the facts of its life have them.
-/

namespace Reentrant

/-! ### The frame that a step ends -/

namespace Frame

/-- How the frame ends on a fault that it does not catch. -/
def uncaught (f : Frame) (fault : Fault) : Option Teardown :=
  if f.handler.isNone then some ⟨f.id, some fault, f.stack⟩ else none

/-- How the frame ends in its next step, if it does: on a fault, or by a return, or past the end of its
code. Without a native hook a native call is a fault. -/
def ends (f : Frame) (answered : Bool) : Option Teardown :=
  match f.pendingFault with
  | some fault => f.uncaught fault
  | none =>
      match f.program.code[f.ip]? with
      | none => some ⟨f.id, none, f.stack⟩
      | some op =>
          match Frame.execute { f with ip := f.ip + 1 } op with
          | (g, .error fault) => g.uncaught fault
          | (g, .ok .ret) => some ⟨f.id, none, g.stack⟩
          | (g, .ok (.native id)) => if answered then none else g.uncaught (.noHost id)
          | _ => none

/-! ### Places -/

theorem placed_withTop {f : Frame} (hf : f.Placed) {go : Frame → Value → Frame × Except Fault Flow}
    (hgo : ∀ g v, g.program = f.program → g.Placed → (go g v).1.Placed) : (f.withTop go).1.Placed := by
  rw [withTop]
  cases f.stack with
  | nil => exact hf
  | cons v rest => exact hgo { f with stack := rest } v rfl hf

theorem placed_binary {f : Frame} (hf : f.Placed) (combine : Value → Value → Except Fault Value) :
    (f.binary combine).1.Placed := by
  apply placed_withTop hf
  intro g b _ hg
  apply placed_withTop hg
  intro g a _ hg
  cases combine a b <;> exact hg

theorem placed_withTarget {f : Frame} (hf : f.Placed) {target : Nat} {go : Frame × Except Fault Flow}
    (hgo : target ≤ f.program.code.length → go.1.Placed) : (f.withTarget target go).1.Placed := by
  rcases f.withTarget_eq target go with ⟨-, heq⟩ | ⟨hin, heq⟩ <;> rw [heq]
  · exact hf
  · exact hgo (Nat.le_of_not_lt hin)

theorem placed_execute {f : Frame} (hf : f.Placed) (op : Op) : (f.execute op).1.Placed := by
  -- targets outside the code are refused
  cases op with
  | push v => exact hf
  | native id => exact hf
  | ret => exact hf
  | add => exact placed_binary hf _
  | sub => exact placed_binary hf _
  | mul => exact placed_binary hf _
  | div => exact placed_binary hf _
  | eq => exact placed_binary hf _
  | pop => exact placed_withTop hf fun g v _ hg => hg
  | not => exact placed_withTop hf fun g v _ hg => hg
  | throw => exact placed_withTop hf fun g v _ hg => hg
  | log => exact placed_withTop hf fun g v _ hg => hg
  | dup =>
      rw [execute]
      cases f.stack <;> exact hf
  | swap =>
      apply placed_withTop hf
      intro g b _ hg
      exact placed_withTop hg fun g a _ hg => hg
  | jump target => exact placed_withTarget hf fun hin => ⟨hin, hf.2⟩
  | catchAt target =>
      refine placed_withTarget hf fun hin => ⟨hf.1, fun t ht => ?_⟩
      cases ht
      exact hin
  | jumpIf target =>
      apply placed_withTarget hf
      intro hin
      apply placed_withTop hf
      intro g v hprogram hg
      cases v.truthy with
      | true => exact ⟨hprogram ▸ hin, hg.2⟩
      | false => exact hg

end Frame

/-! ### The machine's own part -/

namespace Machine

/-- The frame that the machine's next step ends, if it ends one. -/
def ending (m : Machine) (answered : Bool) : Option Teardown :=
  match m.frames with
  | [] => none
  | f :: _ =>
      if f.blocked ∨ ∃ limit ∈ m.limits.maxSteps, limit ≤ m.steps then none else f.ends answered

/-- The frame `g` has taken the place of the current frame `f`. -/
structure On (m : Machine) (f g : Frame) (below : List Frame) (m₁ : Machine) : Prop where
  frames : m.frames = f :: below
  frames₁ : m₁.frames = g :: below
  id : g.id = f.id
  placed : f.Placed → g.Placed
  next : m₁.nextFrame = m.nextFrame
  entry : m₁.entry = m.entry
  exit : m₁.exit = m.exit

/-- The current frame has ended, as `t` says. -/
structure Off (m : Machine) (t : Teardown) (m₁ : Machine) : Prop where
  frames : ∃ f, f.id = t.frame ∧ m.frames = f :: m₁.frames
  next : m₁.nextFrame = m.nextFrame
  entry : m₁.entry = m.entry
  exit : m₁.exit = if m.entry = some t.frame then some t.outcome else m.exit

/-- What a step has done to the machine before the host is told, if it ended what is said. -/
inductive Went (m : Machine) : Option Teardown → Machine → Prop where
  | still {m₁ : Machine} : m₁ = m → Went m none m₁
  | on {f g : Frame} {below : List Frame} {m₁ : Machine} : m.On f g below m₁ → Went m none m₁
  | ended {m₁ : Machine} {t : Teardown} : m.Off t m₁ → Went m (some t) m₁

/-- A signal that says what was ended. -/
inductive Came (m : Machine) : Option Teardown → Signal × Machine → Prop where
  | proceed {m₁ : Machine} : m.Went none m₁ → Came m none (.proceed, m₁)
  | ended {t : Teardown} {m₁ : Machine} : m.Went (some t) m₁ → Came m (some t) (.ended t, m₁)

section On

variable {m m₁ : Machine} {f g : Frame} {below : List Frame} (h : m.On f g below m₁)

include h

theorem On.finish (fault : Option Fault) : m.Came (some ⟨f.id, fault, g.stack⟩) (m₁.finish fault) := by
  rw [Machine.finish, h.frames₁]
  simp only [h.id]
  refine .ended (.ended ⟨⟨f, rfl, h.frames⟩, h.next, h.entry, ?_⟩)
  simp only [h.entry, h.exit]

theorem On.unwind (fault : Fault) : m.Came (g.uncaught fault) (m₁.unwind fault) := by
  rw [Machine.unwind, h.frames₁, Frame.uncaught]
  cases hhandler : g.handler with
  | none =>
      have hfinish := h.finish (some fault)
      rw [← h.id] at hfinish
      simp only [hhandler]
      exact hfinish
  | some target =>
      simp only [hhandler]
      refine .proceed (.on ⟨h.frames, rfl, h.id, fun hf => ⟨?_, fun t ht => ?_⟩, h.next, h.entry,
        h.exit⟩)
      · exact (h.placed hf).2 target hhandler
      · cases ht

end On

/-- The machine's own part of a step ends the frame that it is said to end. A native call is left to
the host. -/
theorem advanceFrame_came {m : Machine} {f : Frame} {below : List Frame}
    (hframes : m.frames = f :: below) :
    (∀ answered, m.Came (f.ends answered)
      (({ m with steps := m.steps + 1 } : Machine).advanceFrame f below)) ∨
    ∃ id g m₁, ({ m with steps := m.steps + 1 } : Machine).advanceFrame f below =
        (.call id f.id, m₁) ∧ m.On f g below m₁ ∧
      ∀ answered, f.ends answered = if answered then none else g.uncaught (.noHost id) := by
  have hon : ∀ {g : Frame} {m₁ : Machine}, m₁.frames = g :: below → g.id = f.id →
      (f.Placed → g.Placed) → m₁.nextFrame = m.nextFrame → m₁.entry = m.entry →
      m₁.exit = m.exit → m.On f g below m₁ :=
    fun hframes₁ hid hplaced hnext hentry hexit =>
      ⟨hframes, hframes₁, hid, hplaced, hnext, hentry, hexit⟩
  unfold Frame.ends advanceFrame
  cases hpending : f.pendingFault with
  | some fault =>
      apply Or.inl
      intro _
      show m.Came (Frame.uncaught { f with pendingFault := none } fault) _
      apply On.unwind
      exact hon rfl rfl (fun hf => hf) rfl rfl rfl
  | none =>
      cases hop : f.program.code[f.ip]? with
      | none =>
          apply Or.inl
          intro _
          apply On.finish
          exact hon hframes rfl (fun hf => hf) rfl rfl rfl
      | some op =>
          have hlt := (List.getElem?_eq_some_iff.1 hop).1
          have hid := (Frame.execute_continues
            { f with ip := f.ip + 1, pendingFault := none } op).id_eq
          have hplaced : f.Placed →
              (Frame.execute { f with ip := f.ip + 1, pendingFault := none } op).1.Placed :=
            fun hf => Frame.placed_execute (f := { f with ip := f.ip + 1, pendingFault := none })
              ⟨hlt, hf.2⟩ op
          dsimp only
          generalize Frame.execute { f with ip := f.ip + 1, pendingFault := none } op = executed
            at hid hplaced ⊢
          obtain ⟨g, result⟩ := executed
          have hgoes : ∀ m₁ : Machine, m₁.frames = g :: below → m₁.nextFrame = m.nextFrame →
              m₁.entry = m.entry → m₁.exit = m.exit → m.On f g below m₁ :=
            fun m₁ hframes₁ => hon hframes₁ hid hplaced
          rcases result with fault | (_ | _ | id | v)
          · apply Or.inl
            intro _
            apply On.unwind
            exact hgoes _ rfl rfl rfl rfl
          · exact Or.inl fun _ => .proceed (.on (hgoes _ rfl rfl rfl rfl))
          · apply Or.inl
            intro _
            apply On.finish
            exact hgoes _ rfl rfl rfl rfl
          · refine Or.inr ⟨id, g, _, Prod.ext (congrArg (Signal.call id) hid) rfl, ?_, ?_⟩
            · exact hgoes _ rfl rfl rfl rfl
            · exact fun _ => rfl
          · exact Or.inl fun _ => .proceed (.on (hgoes _ rfl rfl rfl rfl))

/-- A machine whose current frame may not be stepped stays as it is. -/
theorem advance_of_refused {ε : Type} {m : Machine} {f : Frame} {below : List Frame}
    (hframes : m.frames = f :: below)
    (hrefused : f.blocked ∨ ∃ limit ∈ m.limits.maxSteps, limit ≤ m.steps) :
    ∃ e : Halt ε, m.advance = (.error e, m) := by
  rw [advance, hframes]
  by_cases hblocked : f.blocked = true
  · exact ⟨.blockedFrame f.id, by simp [hblocked]⟩
  · obtain ⟨limit, hmax, hlimit⟩ := hrefused.resolve_left hblocked
    refine ⟨.stepLimit limit, ?_⟩
    simp only [hblocked, Bool.false_eq_true, if_false, Option.mem_def.1 hmax]
    exact if_pos hlimit

end Machine

section Ended

variable {m m₁ : Machine} {past : List Fact} {t : Teardown}

theorem Machine.Off.ids (hoff : m.Off t m₁) : m.ids = t.frame :: m₁.ids := by
  obtain ⟨f, hid, hframes⟩ := hoff.frames
  rw [Machine.ids, hframes, List.map_cons, hid]
  rfl

theorem Stands.ended (h : Stands m past) (hoff : m.Off t m₁) : Stands m₁ (past ++ [.ended t]) := by
  obtain ⟨f, -, hframes⟩ := hoff.frames
  have hstays : ∀ id ∈ m₁.ids, id ∈ m.ids := by
    rw [hoff.ids]
    exact fun id hid => List.mem_cons_of_mem _ hid
  have hloads : loads (past ++ [.ended t]) = loads past :=
    (loads_append _ _).trans (List.append_nil _)
  constructor
  case descending =>
    have hdescending := h.descending
    rw [hoff.ids] at hdescending
    exact hdescending.of_cons
  case below =>
    rw [hoff.next]
    exact fun id hid => h.below id (hstays id hid)
  case positive =>
    rw [hoff.next]
    exact h.positive
  case placed => exact fun g hg => h.placed g (hframes ▸ List.mem_cons_of_mem f hg)
  case issued =>
    rw [hloads, hoff.next]
    exact h.issued
  case accounted =>
    have hdrops : drops (past ++ [.ended t]) = drops past :=
      (drops_append _ _).trans (List.append_nil _)
    have hends : ends (past ++ [.ended t]) = ends past ++ [t] := ends_append _ _
    rw [hloads, hdrops, hends, List.map_append, List.map_singleton]
    refine List.Perm.trans ?_ h.accounted
    rw [hoff.ids, List.cons_append, ← List.append_assoc (drops past), ← List.append_assoc m₁.ids]
    exact List.perm_append_singleton _ _

/-- The entry frame that counts is the one that was loaded last, as long as it is on the stack: an abort
gives it up, but drops it as well. -/
theorem Lives.entry_iff (h : Lives m past) {id : FrameId} (hid : id ∈ m.ids) :
    m.entry = some id ↔ lastEntry past = some id := by
  rcases h.entry with heq | ⟨hnone, hids⟩
  · rw [heq]
  · rw [hnone]
    exact iff_of_false (Option.some_ne_none id).symm (hids id hid)

theorem Lives.ended (h : Lives m past) (hoff : m.Off t m₁) : Lives m₁ (past ++ [.ended t]) := by
  have hends : ends (past ++ [.ended t]) = ends past ++ [t] := ends_append _ _
  have hlast : lastEntry (past ++ [.ended t]) = lastEntry past := lastEntry_append _ _
  have hcurrent : t.frame ∈ m.ids := by
    rw [hoff.ids]
    exact List.mem_cons_self
  constructor
  case toStands => exact h.toStands.ended hoff
  case entry =>
    rw [hlast, hoff.entry]
    refine h.entry.imp_right (And.imp_right fun hids id hid => hids id ?_)
    rw [hoff.ids]
    exact List.mem_cons_of_mem _ hid
  case exit =>
    intro o
    rw [hoff.exit, hlast, hends]
    by_cases hlatest : lastEntry past = some t.frame
    · rw [if_pos ((h.entry_iff hcurrent).2 hlatest), Option.some_inj]
      constructor
      · exact fun ho => ⟨t, List.mem_append_right _ List.mem_cons_self, hlatest, ho⟩
      · rintro ⟨t', ht', heq, ho⟩
        rcases List.mem_append.1 ht' with hearlier | hnow
        · exact absurd (Option.some.inj (heq.symm.trans hlatest))
            (h.not_ended hcurrent t' hearlier)
        · rw [← List.mem_singleton.1 hnow]
          exact ho
    · rw [if_neg fun heq => hlatest ((h.entry_iff hcurrent).1 heq), h.exit o]
      constructor
      · rintro ⟨t', ht', hrest⟩
        exact ⟨t', List.mem_append_left _ ht', hrest⟩
      · rintro ⟨t', ht', heq, ho⟩
        rcases List.mem_append.1 ht' with hearlier | hnow
        · exact ⟨t', hearlier, heq, ho⟩
        · rw [List.mem_singleton.1 hnow] at heq
          exact absurd heq hlatest

/-- The facts go on with what the machine ended on its own. -/
theorem Lives.went {ending : Option Teardown} (h : Lives m past) (hwent : m.Went ending m₁) :
    Lives m₁ (past ++ ending.toList.map .ended) := by
  cases hwent with
  | still heq =>
      rw [heq]
      simpa using h
  | @on f g below _ hon =>
      have hplaced := hon.placed (h.placed f (hon.frames ▸ List.mem_cons_self))
      simpa using
        h.replace hon.frames hon.id hplaced hon.frames₁ hon.next hon.entry hon.exit
  | ended hoff => exact h.ended hoff

end Ended

/-! ### Guests -/

/-- A host that changes a machine by access alone. Each hook says what it does to the machine, in order,
and what it comes to. -/
structure Guest (ω ε : Type) where
  onNative : Option (RoutineId → FrameId → Machine → ω → List Access × Except ε Unit × ω) := none
  onTeardown : Option (Teardown → Machine → ω → List Access × Except ε Unit × ω) := none

namespace Guest

variable {ω ε : Type}

def enact (m : Machine) (r : List Access × Except ε Unit × ω) : Except ε Unit × Machine × ω :=
  (r.2.1, m.accessAll r.1, r.2.2)

def host (g : Guest ω ε) : Host ω ε where
  onNative := g.onNative.map fun hook id caller m w => enact m (hook id caller m w)
  onTeardown := g.onTeardown.map fun hook t m w => enact m (hook t m w)

def record (m : Machine) (past : List Fact) (r : List Access × Except ε Unit × ω) :
    List Access × Except ε Unit × ω × List Fact :=
  (r.1, r.2.1, r.2.2, past ++ Access.factsAll m r.1)

/-- The same guest, which writes down what happens in its hooks. -/
def recording (g : Guest ω ε) : Guest (ω × List Fact) ε where
  onNative := g.onNative.map fun hook id caller m s => record m s.2 (hook id caller m s.1)
  onTeardown := g.onTeardown.map fun hook t m s => record m (s.2 ++ [.told t]) (hook t m s.1)

/-- Takes away what was written down. -/
def unrecorded {α : Type} (r : α × Machine × ω × List Fact) : α × Machine × ω :=
  (r.1, r.2.1, r.2.2.1)

section Recording

variable (g : Guest ω ε) (m : Machine) (w : ω) (past : List Fact)

theorem atSite_unrecorded (site : HookSite) (r : List Access × Except ε Unit × ω) :
    unrecorded (Machine.atSite site (enact m (record m past r))) =
      Machine.atSite site (enact m r) := by
  obtain ⟨as, result, w⟩ := r
  cases result <;> rfl

theorem report_unrecorded (t : Teardown) :
    unrecorded (Machine.report g.recording.host t m (w, past)) = Machine.report g.host t m w := by
  unfold Machine.report recording host
  cases g.onTeardown with
  | none => rfl
  | some hook => exact atSite_unrecorded m (past ++ [.told t]) _ (hook t m w)

theorem call_unrecorded (id : RoutineId) (caller : FrameId) :
    unrecorded (Machine.call g.recording.host id caller m (w, past)) =
      Machine.call g.host id caller m w := by
  have hreport := report_unrecorded g
  unfold Machine.call
  simp only [recording, host, Option.map_map] at hreport ⊢
  cases g.onNative with
  | some hook => exact atSite_unrecorded m past _ (hook id caller m w)
  | none =>
      simp only [Option.map_none]
      rcases m.unwind (.noHost id) with ⟨_ | _ | _ | t, m₁⟩
      · rfl
      · rfl
      · rfl
      · exact hreport m₁ w past t

/-- Writing down changes nothing else. -/
theorem step_unrecorded : unrecorded (m.step g.recording.host (w, past)) = m.step g.host w := by
  unfold Machine.step
  rcases @Machine.advance ε m with ⟨_ | _ | _ | ⟨id, caller⟩ | t, m₁⟩
  · rfl
  · rfl
  · rfl
  · exact call_unrecorded g m₁ w past id caller
  · exact report_unrecorded g m₁ w past t

end Recording

/-- The host's turn in a step, after the machine's own part: the hook is told of what ended, if there is
one, and access follows. -/
def Turned (g : Guest ω ε) (ending : Option Teardown) (m : Machine) (past : List Fact)
    (m' : Machine) (past' : List Fact) : Prop :=
  ∃ as, m' = m.accessAll as ∧
    past' = past ++ (if g.onTeardown.isSome then ending.toList.map .told else []) ++
      Access.factsAll m as

section Turn

variable (g : Guest ω ε) (m : Machine) (w : ω) (past : List Fact)

theorem turned_none : g.Turned none m past m past :=
  ⟨[], rfl, by simp [Access.factsAll]⟩

theorem enact_turned (ending : Option Teardown) (site : HookSite)
    (r : List Access × Except ε Unit × ω) :
    let told := if g.onTeardown.isSome then ending.toList.map .told else []
    let s := Machine.atSite site (enact m (record m (past ++ told) r))
    g.Turned ending m past s.2.1 s.2.2.2 := by
  obtain ⟨as, result, w⟩ := r
  cases result <;> exact ⟨as, rfl, rfl⟩

theorem report_turned (t : Teardown) :
    let s := Machine.report g.recording.host t m (w, past)
    g.Turned (some t) m past s.2.1 s.2.2.2 := by
  have henact := enact_turned g m past (some t)
  unfold Turned at henact ⊢
  unfold Machine.report recording host
  cases hhook : g.onTeardown with
  | none => exact ⟨[], rfl, by simp [Access.factsAll]⟩
  | some hook =>
      rw [hhook] at henact
      exact henact _ (hook t m w)

/-- A native call, after the machine's part `m` of a step from `m₀`: without a native hook it ends the
frame that does not catch the fault. -/
theorem call_turned {m₀ : Machine} {f f' : Frame} {below : List Frame} (hon : m₀.On f f' below m)
    (id : RoutineId) (caller : FrameId) :
    let s := Machine.call g.recording.host id caller m (w, past)
    let ending := if g.onNative.isSome then none else f'.uncaught (.noHost id)
    ∃ m₁, m₀.Went ending m₁ ∧ g.Turned ending m₁ past s.2.1 s.2.2.2 := by
  have hreport := report_turned g
  unfold Machine.call
  simp only [host, recording] at hreport ⊢
  cases g.onNative with
  | some hook =>
      refine ⟨m, .on hon, ?_⟩
      simpa using enact_turned g m past none (.native id) (hook id caller m w)
  | none =>
      have hcame := hon.unwind (.noHost id)
      simp only [Option.map_none, Option.isSome_none, Bool.false_eq_true, if_false] at hreport ⊢
      generalize f'.uncaught (.noHost id) = ending at hcame ⊢
      generalize m.unwind (.noHost id) = r at hcame ⊢
      cases hcame with
      | proceed hwent => exact ⟨_, hwent, turned_none g _ past⟩
      | ended hwent => exact ⟨_, hwent, hreport _ w past _⟩

/-- A step is the machine's own part, which ends a frame or none, and then the host's turn. -/
theorem step_turned :
    let s := m.step g.recording.host (w, past)
    let ending := m.ending g.onNative.isSome
    ∃ m₁, m.Went ending m₁ ∧ g.Turned ending m₁ past s.2.1 s.2.2.2 := by
  unfold Machine.ending
  cases hframes : m.frames with
  | nil =>
      rw [Machine.step, Machine.advance, hframes]
      exact ⟨m, .still rfl, turned_none g m past⟩
  | cons f below =>
      dsimp only
      by_cases hrefused : f.blocked ∨ ∃ limit ∈ m.limits.maxSteps, limit ≤ m.steps
      · obtain ⟨e, hadvance⟩ := Machine.advance_of_refused (ε := ε) hframes hrefused
        rw [if_pos hrefused, Machine.step, hadvance]
        exact ⟨m, .still rfl, turned_none g m past⟩
      · have hadvance := Machine.advance_of_ready (ε := ε) hframes
          (Bool.eq_false_iff.2 fun hblocked => hrefused (.inl hblocked))
          (fun limit hmax => Nat.lt_of_not_le fun hlimit => hrefused (.inr ⟨limit, hmax, hlimit⟩))
        rw [if_neg hrefused, Machine.step, hadvance]
        rcases Machine.advanceFrame_came hframes with hcame | ⟨id, f', m₁, hcall, hon, hends⟩
        · have hcame := hcame g.onNative.isSome
          generalize f.ends g.onNative.isSome = ending at hcame ⊢
          generalize ({ m with steps := m.steps + 1 } : Machine).advanceFrame f below = r at hcame ⊢
          cases hcame with
          | proceed hwent => exact ⟨_, hwent, turned_none g _ past⟩
          | ended hwent => exact ⟨_, hwent, report_turned g _ w past _⟩
        · rw [hcall, hends]
          exact call_turned g m₁ w past hon id f.id

end Turn

end Guest

theorem Lives.told {m : Machine} {past : List Fact} (h : Lives m past) (t : Teardown) :
    Lives m (past ++ [.told t]) := by
  have hloads : loads (past ++ [.told t]) = loads past :=
    (loads_append _ _).trans (List.append_nil _)
  have hdrops : drops (past ++ [.told t]) = drops past :=
    (drops_append _ _).trans (List.append_nil _)
  have hends : ends (past ++ [.told t]) = ends past := (ends_append _ _).trans (List.append_nil _)
  have hlast : lastEntry (past ++ [.told t]) = lastEntry past := lastEntry_append _ _
  constructor
  case toStands =>
    exact ⟨h.descending, h.below, h.positive, h.placed, hloads ▸ h.issued,
      by rw [hloads, hdrops, hends]; exact h.accounted⟩
  case entry =>
    rw [hlast]
    exact h.entry
  case exit =>
    rw [hlast, hends]
    exact h.exit

theorem Lives.turned {ω ε : Type} {g : Guest ω ε} {ending : Option Teardown} {m m' : Machine}
    {past past' : List Fact} (h : Lives m past) (hturned : g.Turned ending m past m' past') :
    Lives m' past' := by
  obtain ⟨as, rfl, rfl⟩ := hturned
  refine accessAll ?_ as
  by_cases hhook : g.onTeardown.isSome = true
  · rw [if_pos hhook]
    cases ending with
    | none => simpa using h
    | some t => exact h.told t
  · rw [if_neg hhook, List.append_nil]
    exact h

/-! ### Reports -/

/-- Every end is told at once, and nothing else is told. -/
inductive Reported : List Fact → Prop
  | nil : Reported []
  | loaded {past : List Fact} (id : FrameId) (entry : Bool) :
      Reported past → Reported (.loaded id entry :: past)
  | dropped {past : List Fact} (id : FrameId) : Reported past → Reported (.dropped id :: past)
  | ended {past : List Fact} (t : Teardown) : Reported past → Reported (.ended t :: .told t :: past)

theorem Reported.append {past new : List Fact} (h : Reported past) (hnew : Reported new) :
    Reported (past ++ new) := by
  induction h with
  | nil => exact hnew
  | loaded id entry _ ih => exact .loaded id entry ih
  | dropped id _ ih => exact .dropped id ih
  | ended t _ ih => exact .ended t ih

theorem Reported.reports_eq {past : List Fact} (h : Reported past) : reports past = ends past := by
  induction h with
  | nil => rfl
  | loaded id entry _ ih => exact ih
  | dropped id _ ih => exact ih
  | ended t _ ih => exact congrArg (t :: ·) ih

theorem Reported.access (m : Machine) (a : Access) : Reported (a.facts m) := by
  have hdropped : ∀ frames : List Frame, Reported (frames.map fun f => .dropped f.id) := by
    intro frames
    induction frames with
    | nil => exact .nil
    | cons f below ih => exact .dropped f.id ih
  cases a with
  | load p => exact .loaded _ false .nil
  | loadEntry p => exact .loaded _ true .nil
  | abort => exact hdropped m.frames
  | _ => exact .nil

theorem Reported.accessAll (m : Machine) (as : List Access) : Reported (Access.factsAll m as) := by
  induction as generalizing m with
  | nil => exact .nil
  | cons a as ih => exact (Reported.access m a).append (ih _)

theorem ends_facts (m : Machine) (a : Access) : ends (a.facts m) = [] := by
  cases a with
  | abort => exact filterMap_dropped (fun _ => rfl) m.frames
  | _ => rfl

theorem ends_factsAll (m : Machine) (as : List Access) : ends (Access.factsAll m as) = [] := by
  induction as generalizing m with
  | nil => rfl
  | cons a as ih => rw [Access.factsAll, ends_append, ends_facts, ih, List.append_nil]

/-- What a guest's hook has been told: all ends, or nothing if there is no hook. -/
def Guest.Hears {ω ε : Type} (g : Guest ω ε) (past : List Fact) : Prop :=
  if g.onTeardown.isSome then Reported past else reports past = []

namespace Guest.Hears

variable {ω ε : Type} {g : Guest ω ε} {past : List Fact} (h : g.Hears past)

include h

theorem accessAll (m : Machine) (as : List Access) : g.Hears (past ++ Access.factsAll m as) := by
  unfold Hears at h ⊢
  by_cases hhook : g.onTeardown.isSome = true
  · rw [if_pos hhook] at h ⊢
    exact h.append (Reported.accessAll m as)
  · rw [if_neg hhook] at h ⊢
    rw [reports_append, h, (Reported.accessAll m as).reports_eq, ends_factsAll]
    rfl

theorem turned {ending : Option Teardown} {m m' : Machine} {past' : List Fact}
    (hturned : g.Turned ending m (past ++ ending.toList.map .ended) m' past') : g.Hears past' := by
  obtain ⟨as, -, rfl⟩ := hturned
  refine accessAll ?_ m as
  unfold Hears at h ⊢
  by_cases hhook : g.onTeardown.isSome = true
  · simp only [if_pos hhook, List.append_assoc] at h ⊢
    apply h.append
    cases ending with
    | none => exact .nil
    | some t => exact .ended t .nil
  · simp only [if_neg hhook, List.append_nil] at h ⊢
    rw [reports_append, h]
    cases ending <;> rfl

theorem reports_subset : reports past ⊆ ends past := by
  unfold Hears at h
  by_cases hhook : g.onTeardown.isSome = true
  · rw [if_pos hhook] at h
    rw [h.reports_eq]
    exact List.Subset.refl _
  · rw [if_neg hhook] at h
    rw [h]
    exact List.nil_subset _

end Guest.Hears

/-! ### Watched machines -/

/-- A machine and its guest, with what has happened so far. -/
structure Watched (ω : Type) where
  machine : Machine
  world : ω
  past : List Fact := []

inductive Operation where
  | access (a : Access)
  | step
  | run (fuel : Nat)

section Operations

variable {ω ε : Type}

def Operation.perform (h : Host ω ε) (s : Machine × ω) : Operation → Machine × ω
  | .access a => (s.1.access a, s.2)
  | .step => (s.1.step h s.2).2
  | .run fuel => (s.1.run h fuel s.2).2

variable (g : Guest ω ε)

namespace Watched

/-- A step, with the end of a frame written down before the hook is told of it. -/
def step (x : Watched ω) : Except (Halt ε) Progress × Watched ω :=
  let ending := x.machine.ending g.onNative.isSome
  let s := x.machine.step g.recording.host (x.world, x.past ++ ending.toList.map .ended)
  (s.1, { machine := s.2.1, world := s.2.2.1, past := s.2.2.2 })

def drain : Nat → Watched ω → Watched ω
  | 0, x => x
  | fuel + 1, x =>
      match x.step g with
      | (.ok .proceed, x) => drain fuel x
      | (_, x) => x

def perform (x : Watched ω) : Operation → Watched ω
  | .access a =>
      { x with machine := x.machine.access a, past := x.past ++ a.facts x.machine }
  | .step => (x.step g).2
  | .run fuel => x.drain g fuel

def after (l : Limits) (w : ω) (ops : List Operation) : Watched ω :=
  ops.foldl (perform g) { machine := { limits := l }, world := w }

/-- Takes away what was written down. -/
def bare (x : Watched ω) : Machine × ω := (x.machine, x.world)

theorem step_bare (x : Watched ω) :
    ((x.step g).1, (x.step g).2.bare) = x.machine.step g.host x.world :=
  g.step_unrecorded x.machine x.world _

theorem drain_bare (fuel : Nat) (x : Watched ω) :
    (x.drain g fuel).bare = (x.machine.drain g.host fuel x.world).2 := by
  induction fuel generalizing x with
  | zero => rfl
  | succ fuel ih =>
      rw [drain, Machine.drain, ← step_bare]
      rcases x.step g with ⟨_ | _ | _, y⟩
      · rfl
      · exact ih y
      · rfl

theorem perform_bare (x : Watched ω) (op : Operation) :
    (x.perform g op).bare = op.perform g.host x.bare := by
  cases op with
  | access a => rfl
  | step => exact congrArg Prod.snd (step_bare g x)
  | run fuel =>
      refine (drain_bare g fuel x).trans ?_
      show _ = (x.machine.run g.host fuel x.world).2
      rw [Machine.run]
      rcases x.machine.drain g.host fuel x.world with ⟨_ | _ | _, m, w⟩
      · rfl
      · rfl
      · dsimp only
        cases m.exit <;> rfl

theorem after_bare (l : Limits) (w : ω) (ops : List Operation) :
    (after g l w ops).bare = ops.foldl (Operation.perform g.host) ({ limits := l }, w) := by
  unfold after
  generalize hx : ({ machine := { limits := l }, world := w } : Watched ω) = x
  have hbare : x.bare = ({ limits := l }, w) := by rw [← hx]; rfl
  rw [← hbare]
  clear hx hbare
  induction ops generalizing x with
  | nil => rfl
  | cons op ops ih => rw [List.foldl_cons, List.foldl_cons, ← perform_bare, ih]

/-- The machine is as the facts have it, and the hook has heard what it should. -/
structure Kept (x : Watched ω) : Prop extends Lives x.machine x.past where
  heard : g.Hears x.past

variable {g}

theorem Kept.step {x : Watched ω} (h : x.Kept g) : (x.step g).2.Kept g := by
  obtain ⟨m₁, hwent, hturned⟩ := g.step_turned x.machine x.world
    (x.past ++ (x.machine.ending g.onNative.isSome).toList.map .ended)
  exact { toLives := (h.toLives.went hwent).turned hturned, heard := h.heard.turned hturned }

theorem Kept.drain (fuel : Nat) {x : Watched ω} (h : x.Kept g) : (x.drain g fuel).Kept g := by
  induction fuel generalizing x with
  | zero => exact h
  | succ fuel ih =>
      have hstep := h.step
      rw [Watched.drain]
      generalize x.step g = r at hstep ⊢
      rcases r with ⟨_ | _ | _, y⟩
      · exact hstep
      · exact ih hstep
      · exact hstep

theorem Kept.perform {x : Watched ω} (h : x.Kept g) (op : Operation) : (x.perform g op).Kept g := by
  cases op with
  | access a =>
      have hheard := h.heard.accessAll x.machine [a]
      rw [Access.factsAll, Access.factsAll, List.append_nil] at hheard
      exact { toLives := h.toLives.access a, heard := hheard }
  | step => exact h.step
  | run fuel => exact h.drain fuel

theorem after_kept (l : Limits) (w : ω) (ops : List Operation) : (after g l w ops).Kept g := by
  unfold after
  have hstart : Kept g { machine := { limits := l }, world := w } := by
    refine { toLives := Lives.initial l, heard := ?_ }
    unfold Guest.Hears
    by_cases hhook : g.onTeardown.isSome = true
    · rw [if_pos hhook]
      exact .nil
    · rw [if_neg hhook]
      rfl
  generalize ({ machine := { limits := l }, world := w } : Watched ω) = x at hstart ⊢
  induction ops generalizing x with
  | nil => exact hstart
  | cons op ops ih => exact ih _ (hstart.perform op)

end Watched

end Operations

/-- The life of a machine, whatever is done to it and whatever its guest does: its frames are numbered
in the order of loading, no number is used twice, and they stand within their code. Every frame that was
loaded is on the stack, or was dropped, or was ended by one step; then, and only then, the hook has been
told of it, at once. The exit is the outcome of the entry frame that was loaded last, if a step ended
it. A hook that fails midway leaves the machine as it is then, so this is so in the middle of a step as
well. -/
theorem Watched.life_kept {ω ε : Type} (g : Guest ω ε) (l : Limits) (w : ω) (ops : List Operation) :
    let x := Watched.after g l w ops
    x.bare = ops.foldl (Operation.perform g.host) ({ limits := l }, w) ∧
    x.machine.ids.Pairwise (· > ·) ∧ (∀ id ∈ x.machine.ids, id < x.machine.nextFrame) ∧
    (∀ f ∈ x.machine.frames, f.Placed) ∧
    loads x.past = List.range' 1 (x.machine.nextFrame - 1) ∧
    (x.machine.ids ++ (drops x.past ++ (ends x.past).map (·.frame))).Perm (loads x.past) ∧
    (if g.onTeardown.isSome then Reported x.past ∧ reports x.past = ends x.past
      else reports x.past = []) ∧
    (∀ id ∈ drops x.past, ∀ t ∈ reports x.past, t.frame ≠ id) ∧
    ∀ o, x.machine.exit = some o ↔
      ∃ t ∈ ends x.past, lastEntry x.past = some t.frame ∧ t.outcome = o := by
  intro x
  have hkept : x.Kept g := Watched.after_kept l w ops
  have hheard := hkept.heard
  refine ⟨Watched.after_bare g l w ops, hkept.descending, hkept.below, hkept.placed, hkept.issued,
    hkept.accounted, ?_, ?_, hkept.exit⟩
  · unfold Guest.Hears at hheard
    by_cases hhook : g.onTeardown.isSome = true
    · rw [if_pos hhook] at hheard ⊢
      exact ⟨hheard, hheard.reports_eq⟩
    · rw [if_neg hhook] at hheard ⊢
      exact hheard
  · exact fun id hid t ht => hkept.dropped_not_ended hid t (hheard.reports_subset ht)

/-- What a hook drops once a frame has ended is not reported. -/
example :
    let dropping : Guest Unit Unit := { onTeardown := some fun _ _ w => ([.abort], .ok (), w) }
    let main : Program := ⟨"main", [.push .null, .ret]⟩
    (Watched.after dropping {} () [.access (.loadEntry main), .access (.load main), .run 9]).past =
      [.loaded 1 true, .loaded 2 false, .ended ⟨2, none, [.null]⟩, .told ⟨2, none, [.null]⟩,
        .dropped 1] := by
  rfl

end Reentrant
