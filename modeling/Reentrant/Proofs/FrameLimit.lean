import Reentrant.Proofs.BuiltinPolls
import Reentrant.Proofs.CallerView
import Reentrant.Proofs.InvocationOutcome

/-!
The frame limit. A frame is compared with the limit once, when it is loaded, and then keeps its place on
the stack. Nothing reaches a frame that stands past the limit: it is no caller, so no result is brought to
it, and its own first step ends it with the fault that it was loaded with.
-/

namespace Reentrant

variable {σ : Type}

/-! ### Frames and their places -/

/-- The property holds of every frame and the number of frames below it. -/
def AtDepths (P : Frame → Nat → Prop) : List Frame → Prop
  | [] => True
  | f :: below => P f below.length ∧ AtDepths P below

namespace AtDepths

variable {P : Frame → Nat → Prop} {frames : List Frame}

theorem of_append {above below : List Frame} {f : Frame} (h : AtDepths P (above ++ f :: below)) :
    P f below.length := by
  induction above with
  | nil => exact h.1
  | cons a above ih => exact ih h.2

theorem of_forall (h : ∀ f ∈ frames, ∀ depth, P f depth) : AtDepths P frames := by
  induction frames with
  | nil => trivial
  | cons f below ih =>
      rw [List.forall_mem_cons] at h
      exact ⟨h.1 _, ih h.2⟩

theorem map (h : AtDepths P frames) {change : Frame → Frame}
    (hchange : ∀ f ∈ frames, ∀ depth, P f depth → P (change f) depth) :
    AtDepths P (frames.map change) := by
  induction frames with
  | nil => trivial
  | cons f below ih =>
      rw [List.forall_mem_cons] at hchange
      refine ⟨?_, ih h.2 hchange.2⟩
      rw [List.length_map]
      exact hchange.1 _ h.1

theorem loadAll (h : AtDepths P frames) {l : Limits} (hfresh : ∀ id depth p, P (l.fresh id depth p) depth)
    (id : FrameId) (ps : List Program) : AtDepths P (l.freshAll id frames.length ps ++ frames) := by
  induction ps generalizing frames id with
  | nil => exact h
  | cons p ps ih =>
      rw [Limits.freshAll, List.append_assoc, List.singleton_append]
      have hcons : AtDepths P (l.fresh id frames.length p :: frames) := ⟨hfresh _ _ _, h⟩
      exact ih hcons (id + 1)

end AtDepths

theorem Limits.length_freshAll (l : Limits) (id : FrameId) (depth : Nat) (ps : List Program) :
    (l.freshAll id depth ps).length = ps.length := by
  have hids := congrArg List.length (l.ids_freshAll id depth ps)
  simpa using hids

/-! ### Frames past the limit -/

/-- The fault of a frame past the limit. -/
def Limits.excess (l : Limits) : Fault :=
  ⟨"STACK_OVERFLOW", "more than " ++ Decimal.text l.maxFrames ++ " frames"⟩

/-- A frame as it was loaded past the limit. -/
structure Frame.Overflown (l : Limits) (f : Frame) : Prop where
  ip : f.ip = 0
  stack : f.stack = []
  handler : f.handler = none
  unblocked : f.blocked = false
  pending : f.pendingFault = some l.excess

/-- Every frame with `maxFrames` frames or more below it is as it was loaded. -/
def PastLimit (l : Limits) : List Frame → Prop :=
  AtDepths fun f depth => l.maxFrames ≤ depth → f.Overflown l

/-- The report of the end of a frame past the limit. -/
def Limits.teardown (l : Limits) (id : FrameId) : Teardown := ⟨id, some l.excess, []⟩

namespace PastLimit

variable {l : Limits} {frames : List Frame}

theorem loadAll (h : PastLimit l frames) (id : FrameId) (ps : List Program) :
    PastLimit l (l.freshAll id frames.length ps ++ frames) :=
  AtDepths.loadAll h (fun _ _ _ hpast => ⟨rfl, rfl, rfl, rfl, if_pos hpast⟩) id ps

/-- A result is brought to a blocked frame, which does not stand past the limit. -/
theorem answered (h : PastLimit l frames) {caller : FrameId}
    (hblocked : ∀ f ∈ frames, f.id = caller → f.blocked = true) (r : Option DispatchResult) :
    PastLimit l (frames.map (Frame.answered caller r)) := by
  refine AtDepths.map h fun f hf depth hover hpast => ?_
  have hoverflown := hover hpast
  have hne : f.id ≠ caller := fun heq => by
    have hcalls := hblocked f hf heq
    rw [hoverflown.unblocked] at hcalls
    cases hcalls
  cases r with
  | none => exact hoverflown
  | some r =>
      rw [Frame.answered, if_neg hne]
      exact hoverflown

end PastLimit

/-- The step of a frame past the limit ends it. -/
theorem Frame.Overflown.advance {m : Machine} {f : Frame} {below : List Frame} {s : Signal}
    {m₁ : Machine} (h : f.Overflown m.limits) (hframes : m.frames = f :: below)
    (hadvance : @Machine.advance HookError m = (.ok s, m₁)) :
    s = .ended (m.limits.teardown f.id) := by
  have hadvanced := Machine.advanceFrame_of_advance hframes hadvance
  simp only [Machine.advanceFrame, h.pending, Machine.unwind, h.handler, Machine.finish, h.stack,
    Prod.mk.injEq] at hadvanced
  exact hadvanced.1.symm

/-! ### One step -/

namespace Bridge

variable {keep : σ → Prop} {m m' : Machine} {b b' : Bridge σ} {f : Frame} {below : List Frame}

/-- The frames that a native call of a frame within the limit loads. -/
theorem Reaction.pastLimit_called {id : RoutineId} (h : Reaction (.call id f.id) m b m' b')
    (hframes : m.frames = f :: below) (hbelow : ∀ g ∈ below, g.id ≠ f.id)
    (hwithin : below.length < m.limits.maxFrames) (hpast : PastLimit m.limits below) :
    PastLimit m.limits m'.frames := by
  have hcall := h.of_call hframes
  generalize b.registry.intake id f.stack = intake at hcall
  obtain ⟨intake, rest⟩ := intake
  have htop : ∀ g : Frame, PastLimit m.limits (g :: below) := fun g =>
    ⟨fun hle => absurd hwithin (Nat.not_lt.2 hle), hpast⟩
  cases intake with
  | settled result notes spent =>
      rw [hcall.1]
      exact htop _
  | begun routine s =>
      obtain ⟨hlt, rfl, -⟩ := hcall
      rw [Machine.loadAll_answer _ _ (by exact hlt), List.map_cons, map_answered_of_ne hbelow]
      change PastLimit m.limits (m.limits.freshAll m.nextFrame (below.length + 1) _ ++ _ :: below)
      exact (htop _).loadAll _ _

/-- The frames that the end of a frame loads, and the result that it brings to a blocked one. -/
theorem Reaction.pastLimit_ended {t : Teardown} (h : Reaction (.ended t) m b m' b')
    (hblocked : ∀ x ∈ b.tasks, ∀ g ∈ m.frames, g.id = x.caller → g.blocked = true)
    (hpast : PastLimit m.limits m.frames) : PastLimit m.limits m'.frames := by
  cases h with
  | left => exact hpast
  | unheard => exact hpast
  | @resumed _ _ _ es pre post y z s tr _ _ htasks _ _ _ hz htr _ hcaller =>
      have hy : y ∈ b.tasks := htasks ▸ List.mem_append_right _ List.mem_cons_self
      rw [Machine.loadAll_answer _ _ hcaller]
      simpa only [List.length_map] using
        (hpast.answered (hblocked y hy) (tr.result? z)).loadAll m.nextFrame tr.programs

theorem Aligned.pastLimit_step (h : Aligned keep m b) {r : Except (Halt HookError) Progress}
    (hstep : Stepped m b (r, m', b')) (hpast : PastLimit m.limits m.frames) :
    PastLimit m.limits m'.frames := by
  cases hstep with
  | done => exact hpast
  | refused => exact hpast
  | @counted f below s m₁ _ _ hframes hadvanced hadvance hreaction =>
      have hbelow := h.ne_top hframes
      rw [hframes] at hpast
      -- a frame that goes on or calls does not stand past the limit
      have hwithin : (∀ t, s ≠ .ended t) → below.length < m.limits.maxFrames := fun hs =>
        Nat.lt_of_not_le fun hle => hs _ ((hpast.1 hle).advance hframes hadvance)
      cases hadvanced with
      | proceed hid hblocked logged =>
          cases hreaction
          exact ⟨fun hle => absurd (hwithin nofun) (Nat.not_lt.2 hle), hpast.2⟩
      | @call g hid hblocked routine =>
          exact hreaction.pastLimit_called rfl (fun d hd => hid ▸ hbelow d hd) (hwithin nofun) hpast.2
      | ended fault stack =>
          refine hreaction.pastLimit_ended (fun x hx g hg heq => ?_) hpast.2
          exact (h.blocked g (hframes ▸ List.mem_cons_of_mem _ hg)).2 ⟨x, hx, heq.symm⟩

end Bridge

/-! ### Runs -/

/-- The topmost frame has no frames above it. -/
theorem split_top {ids above below rest : List FrameId} {id : FrameId}
    (hids : ids.Pairwise fun d e => e < d) (hsplit : ids = above ++ id :: below)
    (htop : ids = id :: rest) : above = [] ∧ rest = below := by
  cases above with
  | nil => exact ⟨rfl, (List.cons.inj (htop.symm.trans hsplit)).2⟩
  | cons a above =>
      obtain ⟨rfl, -⟩ := List.cons.inj (htop.symm.trans hsplit)
      rw [hsplit, List.cons_append, List.pairwise_cons] at hids
      exact absurd (hids.1 id (by simp)) (Nat.lt_irrefl _)

namespace Launch

section Kept

variable {keep : σ → Prop} {c : Launch σ} (hkeep : c.registry.KeepsTo keep) {n : Nat}

include hkeep

theorem pastLimit_after (n : Nat) : PastLimit c.limits (c.after n).1.frames := by
  induction n with
  | zero =>
      have hnil : PastLimit c.limits [] := trivial
      exact hnil.loadAll 1 [c.program]
  | succ n ih =>
      rw [← limits_after hkeep n] at ih ⊢
      exact (aligned_after hkeep n).pastLimit_step (stepped_after hkeep n) ih

/-- The step of a frame past the limit, unless it is refused, ends the frame. -/
theorem overflown_top {f : Frame} {below : List Frame} (hframes : (c.after n).1.frames = f :: below)
    (hpast : c.limits.maxFrames ≤ below.length) :
    c.result n = .ok .proceed ∧ c.ending n = some (c.limits.teardown f.id) ∨
      ∃ limit, c.limits.maxSteps = some limit ∧ c.result n = .error (.stepLimit limit) ∧
        c.ending n = none ∧ c.after (n + 1) = c.after n := by
  have hlimits := limits_after hkeep n
  have hover := pastLimit_after hkeep n
  rw [hframes] at hover
  have hf := hover.1 hpast
  rw [← hlimits] at hf ⊢
  have hstepped := stepped_after hkeep n
  rw [ending]
  generalize c.result n = r, c.after (n + 1) = after at hstepped ⊢
  obtain ⟨m', b'⟩ := after
  cases hstepped with
  | done hnil =>
      rw [hframes] at hnil
      cases hnil
  | refused hlimit hadvance =>
      rw [hadvance]
      exact .inr ⟨_, hlimit, rfl, rfl, rfl⟩
  | counted hframes' hadvanced hadvance hreaction =>
      obtain rfl := hf.advance hframes hadvance
      rw [hadvance]
      exact .inl ⟨rfl, rfl⟩

/-- A frame keeps its place until it ends. -/
theorem place_stays {id : FrameId} {above below : List FrameId}
    (hids : (c.after n).1.frames.map (·.id) = above ++ id :: below) {k : Nat} (hnk : n ≤ k)
    (hstays : ∀ j < k, n ≤ j → ∀ t, c.ending j = some t → t.frame ≠ id) :
    ∃ above', (c.after k).1.frames.map (·.id) = above' ++ id :: below := by
  induction hnk with
  | refl => exact ⟨above, hids⟩
  | @step k hnk ih =>
      obtain ⟨above', hids'⟩ := ih fun j hj => hstays j (Nat.lt_succ_of_lt hj)
      obtain ⟨old, hold, hframes⟩ := (effect_after hkeep k).2.frames
      rw [hframes, List.map_append]
      suffices h : ∃ above'', old.map (·.id) = above'' ++ id :: below by
        obtain ⟨above'', h⟩ := h
        exact ⟨_, by rw [h, ← List.append_assoc]⟩
      rw [hold, hids']
      cases hending : c.ending k with
      | none => exact ⟨above', List.filter_eq_self.2 fun _ _ => rfl⟩
      | some t =>
          have hne := hstays k (Nat.lt_succ_self k) hnk t hending
          obtain ⟨f, rest, htop, hid⟩ := ending_top hkeep hending
          -- the frame that ends is the topmost one
          have hdescending := (aligned_after hkeep k).ledger.descending
          rw [hids'] at hdescending
          rw [htop, List.map_cons] at hids'
          cases above' with
          | nil => exact absurd (hid.symm.trans (List.cons.inj hids').1) hne
          | cons a above' =>
              obtain rfl : f.id = a := (List.cons.inj hids').1
              rw [List.cons_append, List.pairwise_cons] at hdescending
              refine ⟨above', ?_⟩
              rw [List.cons_append, List.filter_cons_of_neg (by simp [hid]), List.filter_eq_self]
              intro d hd
              simpa using Nat.ne_of_gt (hid ▸ hdescending.1 d hd)

/-- However long after it was loaded, a frame past the limit ends with the fault it was loaded with. -/
theorem ending_overflown {above below : List Frame} {f : Frame}
    (hframes : (c.after n).1.frames = above ++ f :: below) (hpast : c.limits.maxFrames ≤ below.length)
    {j : Nat} {t : Teardown} (hending : c.ending j = some t) (hid : t.frame = f.id) :
    n ≤ j ∧ t = c.limits.teardown f.id := by
  have hids : (c.after n).1.frames.map (·.id) = above.map (·.id) ++ f.id :: below.map (·.id) := by
    rw [hframes, List.map_append, List.map_cons]
  have hmem : f.id ∈ (c.after n).1.frames.map (·.id) := by
    rw [hids]
    exact List.mem_append_right _ List.mem_cons_self
  have hbounds := (aligned_after hkeep n).ledger.bounds _ hmem
  have hlt : f.id < (c.after n).1.nextFrame := by
    rw [(aligned_after hkeep n).next]
    exact hbounds.2
  have hnj : n ≤ j := Nat.le_of_not_lt fun hjn =>
    (mem_frames_iff hkeep hbounds.1 hlt).1 hmem ⟨j, hjn, t, hending, hid⟩
  refine ⟨hnj, ?_⟩
  obtain ⟨above', hids'⟩ := place_stays hkeep hids hnj fun i hi _ u hu heq =>
    absurd (ending_unique hkeep hu hending (heq.trans hid.symm)) (Nat.ne_of_lt hi)
  obtain ⟨g, rest, htop, hg⟩ := ending_top hkeep hending
  have htop' : (c.after j).1.frames.map (·.id) = f.id :: rest.map (·.id) := by
    rw [htop, List.map_cons, hg, hid]
  obtain ⟨-, hrest⟩ := split_top (aligned_after hkeep j).ledger.descending hids' htop'
  have hlength : c.limits.maxFrames ≤ rest.length := by
    have hsame := congrArg List.length hrest
    rw [List.length_map, List.length_map] at hsame
    rwa [hsame]
  rcases overflown_top hkeep htop hlength with ⟨-, hends⟩ | ⟨limit, -, -, hnone, -⟩
  · rw [hending] at hends
    rw [← hid, ← hg]
    exact Option.some.inj hends
  · rw [hending] at hnone
    cases hnone

/-- A frame past the limit calls nothing. -/
theorem calling_overflown {above below : List Frame} {f : Frame}
    (hframes : (c.after n).1.frames = above ++ f :: below) (hpast : c.limits.maxFrames ≤ below.length)
    (id : RoutineId) : c.calling n ≠ some (id, f.id) := by
  intro hcalling
  have hf := (pastLimit_after hkeep n)
  rw [hframes] at hf
  have hover := hf.of_append hpast
  rw [← limits_after hkeep n] at hover
  rw [calling] at hcalling
  split at hcalling
  · next hadvance =>
      cases hcalling
      cases htop : (c.after n).1.frames with
      | nil =>
          rw [Machine.advance, htop] at hadvance
          cases hadvance
      | cons g rest =>
          obtain ⟨-, -, hcaller, -⟩ := Machine.advance_call htop hadvance
          have hids := (aligned_after hkeep n).ledger.descending
          have hsplit : (c.after n).1.frames.map (·.id) =
              above.map (·.id) ++ f.id :: below.map (·.id) := by
            rw [hframes, List.map_append, List.map_cons]
          have hfirst : (c.after n).1.frames.map (·.id) = f.id :: rest.map (·.id) := by
            rw [htop, List.map_cons, hcaller]
          obtain ⟨habove, -⟩ := split_top hids hsplit hfirst
          rw [List.map_eq_nil_iff] at habove
          subst habove
          cases hover.advance hframes hadvance
  · cases hcalling

/-- A frame that a step loads within the limit is not faulted. -/
theorem loaded_within {above below : List Frame} {f : Frame}
    (hframes : (c.after (n + 1)).1.frames = above ++ f :: below)
    (hnew : (c.after n).1.nextFrame ≤ f.id) (hwithin : below.length < c.limits.maxFrames) :
    f.pendingFault = none := by
  obtain ⟨old, hold, hloaded⟩ := (effect_after hkeep n).2.frames
  rw [limits_after hkeep n] at hloaded
  let P : Frame → Nat → Prop := fun f depth =>
    (c.after n).1.nextFrame ≤ f.id → depth < c.limits.maxFrames → f.pendingFault = none
  have hbefore : AtDepths P old := by
    refine AtDepths.of_forall fun g hg depth hge => ?_
    have hmem : g.id ∈ old.map (·.id) := List.mem_map_of_mem hg
    rw [hold, List.mem_filter] at hmem
    have hlt := ((aligned_after hkeep n).ledger.bounds _ hmem.1).2
    rw [← (aligned_after hkeep n).next] at hlt
    exact absurd hge (Nat.not_le_of_gt hlt)
  have hafter := hbefore.loadAll (l := c.limits)
    (fun _ _ _ _ hless => if_neg (Nat.not_le_of_gt hless)) (c.after n).1.nextFrame
    ((c.issued n).map (·.program))
  rw [← hloaded, hframes] at hafter
  exact hafter.of_append hnew hwithin

/-- The future of a frame past the limit gets the fault that the frame was loaded with. -/
theorem outcome?_overflown {f : Frame} {future : FutureId}
    (hentry : (f.id, future) ∈ (c.after n).2.table.entries) {j : Nat}
    (hending : c.ending j = some (c.limits.teardown f.id)) {k : Nat} (hjk : j < k) :
    (c.after k).2.futures.outcome? future = some (.faulted c.limits.excess) := by
  rw [(aligned_after hkeep n).ledger.entries, mem_tabled] at hentry
  obtain ⟨id, -, htwo, heq⟩ := hentry
  obtain ⟨rfl, rfl⟩ := Prod.mk.inj heq
  exact outcome?_of_ending hkeep hending (Nat.sub_add_cancel htwo).symm hjk

end Kept

end Launch

/-! ### The built-in routines -/

namespace Direct

open Builtin (Waiting)

/-- A poll of a built-in asks for one program at most. -/
theorem programs_poll_le {look : FutureId → Option Outcome} {l : Library} {t : TaskId} {caller : FrameId}
    {next : FutureId} (s : Waiting) (hnext : look next = none) :
    ((Builtin.poll s).transcript look l t caller next).programs.length ≤ 1 := by
  by_cases hwaits : ∃ f, awaits s = some f ∧ look f = none
  · obtain ⟨f, hf, hlook⟩ := hwaits
    rw [transcript_pending hf hlook]
    exact Nat.zero_le 1
  · rcases single_poll s hnext fun f hf hlook => hwaits ⟨f, hf, hlook⟩ with ⟨r, htr⟩ | ⟨p, s', htr⟩
    · rw [htr]
      exact Nat.zero_le 1
    · rw [htr]
      exact Nat.le_refl 1

end Direct

namespace Bridge

theorem requests_le {b : Bridge Builtin.Waiting} (hpoll : b.registry.poll = Builtin.poll) (s : Signal)
    (m : Machine) : (requests s m b).length ≤ 1 := by
  have hnone : ∀ futures : FutureStore Continuation, futures.cells.size = b.futures.cells.size →
      futures.outcome? b.futures.cells.size = none := fun futures hsize =>
    FutureStore.outcome?_of_ge _ (Nat.le_of_eq hsize)
  cases s with
  | proceed => exact Nat.zero_le 1
  | done => exact Nat.zero_le 1
  | call id caller =>
      rw [requests]
      split
      · rw [hpoll]
        exact Direct.programs_poll_le _ (hnone _ rfl)
      · exact Nat.zero_le 1
  | ended t =>
      rw [requests]
      split
      · split
        · rw [hpoll]
          exact Direct.programs_poll_le _ (hnone _ (FutureStore.size_resolved _ _ _))
        · exact Nat.zero_le 1
      · exact Nat.zero_le 1

end Bridge

namespace Launch

/-- Built-ins load frames one at a time, and only for frames within the limit. -/
theorem depth_le {keep : Builtin.Waiting → Prop} {c : Launch Builtin.Waiting}
    (hkeep : c.registry.KeepsTo keep) (hpoll : c.registry.poll = Builtin.poll) (n : Nat) :
    (c.after n).1.frames.length ≤ c.limits.maxFrames + 1 := by
  induction n with
  | zero => exact Nat.le_add_left 1 _
  | succ n ih =>
      have hlimits := limits_after hkeep n
      have hpast := pastLimit_after hkeep n
      have hregistry := (host_after hkeep n).1
      have hstepped := stepped_after hkeep n
      generalize c.result n = r, (c.after (n + 1)).1 = m', (c.after (n + 1)).2 = b' at hstepped ⊢
      cases hstepped with
      | done => exact ih
      | refused => exact ih
      | @counted f below s m₁ _ _ hframes hadvanced hadvance hreaction =>
          have hrequests := Bridge.requests_le (by rw [hregistry]; exact hpoll) s m₁
          obtain ⟨-, -, ⟨old, hold, hloaded⟩, -⟩ := hreaction.effect
          have hsame : old.length = m₁.frames.length := by
            simpa only [List.length_map] using congrArg List.length hold
          rw [hloaded, List.length_append, Limits.length_freshAll, hreaction.programs_queued, hsame]
          rw [hframes, List.length_cons] at ih
          rw [hframes, ← hlimits] at hpast
          cases hadvanced with
          | proceed hid hblocked logged =>
              change 0 + (below.length + 1) ≤ _
              omega
          | call hid hblocked routine =>
              have hwithin : below.length < (c.after n).1.limits.maxFrames :=
                Nat.lt_of_not_le fun hle => by
                  cases (hpast.1 hle).advance hframes hadvance
              rw [hlimits] at hwithin
              rw [List.length_cons]
              omega
          | ended fault stack =>
              change _ + below.length ≤ _
              omega

/-- What the frame limit means for the state after `n` steps. -/
structure FrameLimited (c : Launch σ) (n : Nat) : Prop where
  /-- With the limit's number of frames below it, a frame is as it was loaded, and faulted. -/
  past : ∀ above f below, (c.after n).1.frames = above ++ f :: below →
    c.limits.maxFrames ≤ below.length → f.Overflown c.limits
  /-- Such a frame calls nothing. -/
  silent : ∀ above f below, (c.after n).1.frames = above ++ f :: below →
    c.limits.maxFrames ≤ below.length → ∀ id, c.calling n ≠ some (id, f.id)
  /-- Its own step ends it with that fault, unless it is refused; then nothing happens. -/
  torn : ∀ f below, (c.after n).1.frames = f :: below → c.limits.maxFrames ≤ below.length →
    c.result n = .ok .proceed ∧ c.ending n = some (c.limits.teardown f.id) ∨
      ∃ limit, c.limits.maxSteps = some limit ∧ c.result n = .error (.stepLimit limit) ∧
        c.ending n = none ∧ c.after (n + 1) = c.after n
  /-- Whenever it ends, this is how, and from then on its invocation's future holds the fault. -/
  delivered : ∀ above f below, (c.after n).1.frames = above ++ f :: below →
    c.limits.maxFrames ≤ below.length → ∀ j t, c.ending j = some t → t.frame = f.id →
      n ≤ j ∧ t = c.limits.teardown f.id ∧
        ∀ future, (f.id, future) ∈ (c.after n).2.table.entries → ∀ k, j < k →
          (c.after k).2.futures.outcome? future = some (.faulted c.limits.excess)
  /-- With fewer frames below it, a frame that the next step loads is not faulted. -/
  loaded : ∀ above f below, (c.after (n + 1)).1.frames = above ++ f :: below →
    (c.after n).1.nextFrame ≤ f.id → below.length < c.limits.maxFrames → f.pendingFault = none
  /-- Neither is the entry frame. -/
  entry : ∀ f ∈ c.machine.frames, 0 < c.limits.maxFrames → f.pendingFault = none

/-- In every state of every run of well-behaved routines the frames past the limit are faulted and do
nothing but end with that fault, and no frame within the limit is loaded faulted. The built-in routines
never take the stack further than one frame past the limit. -/
theorem frame_limit_kept :
    (∀ {σ : Type} (c : Launch σ), c.registry.WellBehaved → ∀ n, c.FrameLimited n) ∧
      ∀ c : Launch Builtin.Waiting, c.registry = Builtin.registry → ∀ n,
        (c.after n).1.frames.length ≤ c.limits.maxFrames + 1 := by
  constructor
  · rintro σ c ⟨keep, hkeep⟩ n
    exact {
      past := fun above f below hframes hpast => by
        have hover := pastLimit_after hkeep n
        rw [hframes] at hover
        exact hover.of_append hpast
      silent := fun above f below hframes hpast => calling_overflown hkeep hframes hpast
      torn := fun f below hframes hpast => overflown_top hkeep hframes hpast
      delivered := fun above f below hframes hpast j t hending hid => by
        obtain ⟨hnj, rfl⟩ := ending_overflown hkeep hframes hpast hending hid
        exact ⟨hnj, rfl, fun future hentry k hjk => outcome?_overflown hkeep hentry hending hjk⟩
      loaded := fun above f below hframes hnew hwithin => loaded_within hkeep hframes hnew hwithin
      entry := fun f hf hpos => by
        obtain rfl := List.mem_singleton.1 hf
        exact if_neg (Nat.not_le_of_gt hpos) }
  · intro c hregistry n
    obtain ⟨keep, hkeep⟩ := Builtin.wellBehaved
    rw [← hregistry] at hkeep
    exact depth_le hkeep (by rw [hregistry]; rfl) n

/-- The same run with room for one frame only. -/
def callBothTight : Launch Builtin.Waiting := { callBoth with limits := { maxFrames := 1 } }

theorem excess_callBothTight :
    callBothTight.limits.excess = ⟨"STACK_OVERFLOW", "more than 1 frames"⟩ := by decide +kernel

theorem frame_limit_kept_callBothTight :
    (callBothTight.after 1).1.frames.length = 2 ∧
      callBothTight.ending 1 = some ⟨2, some ⟨"STACK_OVERFLOW", "more than 1 frames"⟩, []⟩ ∧
      (callBothTight.after 2).2.futures.outcome? 0 =
        some (.faulted ⟨"STACK_OVERFLOW", "more than 1 frames"⟩) ∧
      (callBothTight.after 2).1.frames.length ≤ 2 := by
  obtain ⟨f, below, hframes, hbelow, hid⟩ : ∃ f below,
      (callBothTight.after 1).1.frames = f :: below ∧ below.length = 1 ∧ f.id = 2 :=
    ⟨_, _, rfl, rfl, rfl⟩
  have hlimited := frame_limit_kept.1 callBothTight Builtin.wellBehaved 1
  have hpast : callBothTight.limits.maxFrames ≤ below.length := Nat.le_of_eq hbelow.symm
  have hending : callBothTight.ending 1 = some ⟨2, some callBothTight.limits.excess, []⟩ := by
    rcases hlimited.torn f below hframes hpast with ⟨-, hends⟩ | ⟨limit, hlimit, -⟩
    · rw [hends, hid]
      rfl
    · cases hlimit
  obtain ⟨-, -, hfuture⟩ :=
    hlimited.delivered [] f below hframes hpast 1 _ hending hid.symm
  rw [← excess_callBothTight]
  refine ⟨by rw [hframes, List.length_cons, hbelow], hending, ?_, ?_⟩
  · exact hfuture 0 (by rw [hid]; decide) 2 (by decide)
  · exact frame_limit_kept.2 callBothTight rfl 2

end Launch

end Reentrant
