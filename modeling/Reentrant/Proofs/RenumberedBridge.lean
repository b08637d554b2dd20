import Mathlib.Data.List.Forall2
import Reentrant.Proofs.FuturePlay
import Reentrant.Proofs.HostReaction
import Reentrant.Proofs.Renumbering

/-!
A bridge that has been used before. What an earlier session leaves in it are its futures, the
journal and the numbers it has given out. As long as the routines behave alike whatever the numbers
are, a session that runs on top of that keeps step with one on a new bridge: each operation of the
bridge takes two bridges that differ by the leftovers to two that differ by the same leftovers.
-/

namespace Reentrant

variable {σ : Type}

/-! ### Routines that do not mind their numbers -/

/-- The two callbacks do the same in the same order, the second one under shifted numbers, as long as
they get the same answers. What they let the outside see may differ. -/
inductive Callback.Alike (d : Shift) : Callback → Callback → Prop where
  | done : Alike d .done .done
  | callerOf (t : TaskId) {k k' : Option FrameId → Callback}
      (h : ∀ caller, Alike d (k caller) (k' (caller.map (· + d.frames)))) :
      Alike d (.callerOf t k) (.callerOf (t + d.tasks) k')
  | invoke (t : TaskId) (p : Program) {k k' : FutureId → Callback}
      (h : ∀ f, Alike d (k f) (k' (f + d.futures))) :
      Alike d (.invoke t p k) (.invoke (t + d.tasks) p k')
  | invokeNamed (t : TaskId) (procedure : String) {k k' : Except Fault FutureId → Callback}
      (herror : ∀ fault, Alike d (k (.error fault)) (k' (.error fault)))
      (hok : ∀ f, Alike d (k (.ok f)) (k' (.ok (f + d.futures)))) :
      Alike d (.invokeNamed t procedure k) (.invokeNamed (t + d.tasks) procedure k')
  | observe (f : FutureId) {k k' : Option Outcome → Callback} (h : ∀ o, Alike d (k o) (k' o)) :
      Alike d (.observe f k) (.observe (f + d.futures) k')
  | resolve (f : FutureId) (o : Outcome) {k k' : Option FutureError → Callback}
      (h : ∀ e, Alike d (k e) (k' e)) :
      Alike d (.resolve f o k) (.resolve (f + d.futures) o k')
  | register (f : FutureId) {c c' : Callback} (hc : Alike d c c')
      {k k' : Option FutureError → Callback} (h : ∀ e, Alike d (k e) (k' e)) :
      Alike d (.register f c k) (.register (f + d.futures) c' k')
  | note (n n' : Note) {k k' : Callback} (h : Alike d k k') :
      Alike d (.note n k) (.note n' k')

/-- The two polls ask for the same in the same order, the second one under shifted numbers, as long
as they get the same answers, and end alike. What they let the outside see may differ. -/
inductive Poll.Alike (d : Shift) (alike : σ → σ → Prop) : Poll σ → Poll σ → Prop where
  | ready (result : Except RoutineError DispatchResult) :
      Alike d alike (.ready result) (.ready result)
  | pending {s s' : σ} (h : alike s s') : Alike d alike (.pending s) (.pending s')
  | context {k k' : TaskId → FrameId → Poll σ}
      (h : ∀ t caller, Alike d alike (k t caller) (k' (t + d.tasks) (caller + d.frames))) :
      Alike d alike (.context k) (.context k')
  | invoke (p : Program) {k k' : FutureId → Poll σ}
      (h : ∀ f, Alike d alike (k f) (k' (f + d.futures))) :
      Alike d alike (.invoke p k) (.invoke p k')
  | invokeNamed (procedure : String) {k k' : Except Fault FutureId → Poll σ}
      (herror : ∀ fault, Alike d alike (k (.error fault)) (k' (.error fault)))
      (hok : ∀ f, Alike d alike (k (.ok f)) (k' (.ok (f + d.futures)))) :
      Alike d alike (.invokeNamed procedure k) (.invokeNamed procedure k')
  | observe (f : FutureId) {k k' : Option Outcome → Poll σ} (h : ∀ o, Alike d alike (k o) (k' o)) :
      Alike d alike (.observe f k) (.observe (f + d.futures) k')
  | resolve (f : FutureId) (o : Outcome) {k k' : Option FutureError → Poll σ}
      (h : ∀ e, Alike d alike (k e) (k' e)) :
      Alike d alike (.resolve f o k) (.resolve (f + d.futures) o k')
  | register (f : FutureId) {c c' : Callback} (hc : c.Alike d c')
      {k k' : Option FutureError → Poll σ} (h : ∀ e, Alike d alike (k e) (k' e)) :
      Alike d alike (.register f c k) (.register (f + d.futures) c' k')
  | note (n n' : Note) {k k' : Poll σ} (h : Alike d alike k k') :
      Alike d alike (.note n k) (.note n' k')

/-- Every suspending routine starts in a state that is like itself under shifted numbers, and states
that are alike are polled alike. -/
structure Registry.Blind (g : Registry σ) (d : Shift) (alike : σ → σ → Prop) : Prop where
  starts : ∀ r ∈ g.routines, ∀ start, r.body = .suspending start → ∀ xs, alike (start xs) (start xs)
  polls : ∀ s s', alike s s' → (g.poll s).Alike d alike (g.poll s')

/-- What the routines of the registry do depends on their arguments and on the outcomes they await,
but not on the numbers of their frames, their futures and themselves. -/
def Registry.Oblivious (g : Registry σ) : Prop := ∀ d, ∃ alike, g.Blind d alike

/-! ### Shifted numbers -/

/-- What the second continuation does is what the first one does, under shifted numbers. -/
inductive Continuation.Alike (d : Shift) : Continuation → Continuation → Prop where
  | resume (t : TaskId) : Alike d (.resume t) (.resume (t + d.tasks))
  | callback {c c' : Callback} (h : c.Alike d c') : Alike d (.callback c) (.callback c')

structure Cell.Alike (d : Shift) (c c' : Cell Continuation) : Prop where
  outcome : c'.outcome = c.outcome
  waiting : Option.Rel (Continuation.Alike d) c.waiting c'.waiting
  registered : c'.registered = c.registered

theorem Cell.Alike.empty (d : Shift) : Cell.Alike d {} {} := ⟨rfl, .none, rfl⟩

/-- The futures `s'` are the futures `s` on top of those of an earlier session. -/
structure FutureStore.Onto (r : Residue) (s s' : FutureStore Continuation) : Prop where
  size : s'.cells.size = s.cells.size + r.cells.size
  get : ∀ f, (s.get f).Alike r.shift (s'.get (f + r.cells.size))

def PendingTable.shift (d : Shift) (t : PendingTable) : PendingTable :=
  ⟨t.entries.map fun e => (e.1 + d.frames, e.2 + d.futures)⟩

def Journal.onto (r : Residue) (j : Journal) : Journal :=
  { j with events := r.events ++ j.events.map (Event.shift r.frames) }

def Invocation.shift (d : Shift) (i : Invocation) : Invocation :=
  { i with future := i.future + d.futures, caller := i.caller + d.frames }

def Completion.shift (n : Nat) (c : Completion) : Completion := { c with caller := c.caller + n }

namespace FutureStore.Onto

variable {r : Residue} {s s' : FutureStore Continuation}

/-- New futures after those of an earlier session. -/
theorem initial (r : Residue) : FutureStore.Onto r {} ⟨r.cells⟩ where
  size := (Nat.zero_add _).symm
  get f := by
    rw [get_of_ge _ (Nat.zero_le f), get_of_ge _ (Nat.le_add_left r.cells.size f)]
    exact .empty _

theorem set (h : s.Onto r s') (f : FutureId) {c c' : Cell Continuation} (hc : c.Alike r.shift c') :
    (s.set f c).Onto r (s'.set (f + r.cells.size) c') where
  size := by
    rw [FutureStore.set, FutureStore.set, Array.size_setIfInBounds, Array.size_setIfInBounds, h.size]
  get g := by
    by_cases hg : f = g
    · subst hg
      by_cases hf : f < s.cells.size
      · rw [get_set_self _ hf, get_set_self _ (by rw [h.size]; exact Nat.add_lt_add_right hf _)]
        exact hc
      · have hge := Nat.le_of_not_lt hf
        rw [set_of_ge _ hge, set_of_ge _ (by rw [h.size]; exact Nat.add_le_add_right hge _)]
        exact h.get f
    · rw [get_set_of_ne _ hg, get_set_of_ne _ fun heq => hg (Nat.add_right_cancel heq)]
      exact h.get g

theorem create (h : s.Onto r s') :
    s'.create.1 = s.create.1 + r.cells.size ∧ s.create.2.Onto r s'.create.2 := by
  refine ⟨h.size, ?_, fun f => ?_⟩
  · simp [FutureStore.create, h.size, Nat.add_right_comm]
  · rw [get_create, get_create]
    exact h.get f

theorem outcome? (h : s.Onto r s') (f : FutureId) :
    s'.outcome? (f + r.cells.size) = s.outcome? f :=
  (h.get f).outcome

/-- What a resolution or a registration comes to on two such stores: it is refused by both, or both
change alike and hand out continuations that are alike. -/
inductive Handed (r : Residue) :
    Except FutureError (FutureStore Continuation × Option Continuation) →
      Except FutureError (FutureStore Continuation × Option Continuation) → Prop where
  | refused (e : FutureError) : Handed r (.error e) (.error e)
  | granted {s s' : FutureStore Continuation} {run run' : Option Continuation} (h : s.Onto r s')
      (hrun : Option.Rel (Continuation.Alike r.shift) run run') :
      Handed r (.ok (s, run)) (.ok (s', run'))

theorem resolve (h : s.Onto r s') (f : FutureId) (o : Outcome) :
    Handed r (s.resolve f o) (s'.resolve (f + r.cells.size) o) := by
  have hcell := h.get f
  rcases s.resolve_cases f o with ⟨hnone, heq⟩ | ⟨held, hheld, heq⟩
  · obtain ⟨-, heq'⟩ | ⟨held', hheld', -⟩ := s'.resolve_cases (f + r.cells.size) o
    · rw [heq, heq']
      exact .granted (h.set f ⟨rfl, .none, hcell.registered⟩) hcell.waiting
    · rw [hcell.outcome, hnone] at hheld'
      cases hheld'
  · obtain ⟨hnone', -⟩ | ⟨held', -, heq'⟩ := s'.resolve_cases (f + r.cells.size) o
    · rw [hcell.outcome, hheld] at hnone'
      cases hnone'
    · rw [heq, heq']
      exact .refused _

theorem register (h : s.Onto r s') (f : FutureId) {k k' : Continuation}
    (hk : k.Alike r.shift k') : Handed r (s.register f k) (s'.register (f + r.cells.size) k') := by
  have hcell := h.get f
  have hregistered := hcell.registered
  have houtcome := hcell.outcome
  rcases s.register_cases f k with ⟨hset, heq⟩ | ⟨hset, ⟨hnone, heq⟩ | ⟨o, ho, heq⟩⟩ <;>
    rcases s'.register_cases (f + r.cells.size) k' with
      ⟨hset', heq'⟩ | ⟨hset', ⟨hnone', heq'⟩ | ⟨o', ho', heq'⟩⟩
  case inl.inl =>
    rw [heq, heq']
    exact .refused _
  case inr.inl.inr.inl =>
    rw [heq, heq']
    exact .granted (h.set f ⟨houtcome, .some hk, rfl⟩) .none
  case inr.inr.inr.inr =>
    rw [heq, heq']
    exact .granted (h.set f ⟨houtcome, hcell.waiting, rfl⟩) (.some hk)
  all_goals simp_all

end FutureStore.Onto

theorem Journal.record_onto (r : Residue) (j : Journal) (e : Event) :
    (j.onto r).record (e.shift r.frames) = (j.record e).onto r := by
  rw [record, record]
  have henabled : (j.onto r).enabled = j.enabled := rfl
  rw [henabled]
  cases j.enabled with
  | false => rfl
  | true => simp [onto]

namespace PendingTable

variable (d : Shift) (t : PendingTable)

theorem place_shift (e : FrameId × FutureId) (es : List (FrameId × FutureId)) :
    place (e.1 + d.frames, e.2 + d.futures)
        (es.map fun e => (e.1 + d.frames, e.2 + d.futures)) =
      (place e es).map fun e => (e.1 + d.frames, e.2 + d.futures) := by
  induction es with
  | nil => rfl
  | cons x es ih =>
      have hlt : e.1 + d.frames < x.1 + d.frames ↔ e.1 < x.1 := Nat.add_lt_add_iff_right
      rw [List.map_cons, place, place]
      by_cases h : e.1 < x.1
      · rw [if_pos (hlt.2 h), if_pos h]
        rfl
      · rw [if_neg fun h' => h (hlt.1 h'), if_neg h, ih]
        rfl

/-- What an insertion comes to, under shifted numbers. -/
def attemptShift : Except BridgeError PendingTable → Except BridgeError PendingTable
  | .ok t => .ok (t.shift d)
  | .error e => .error (e.shift d.frames)

theorem insert_shift (frame : FrameId) (f : FutureId) :
    (t.shift d).insert (frame + d.frames) (f + d.futures) = attemptShift d (t.insert frame f) := by
  have hframe : (t.shift d).contains (frame + d.frames) = t.contains frame := by
    simp only [contains, shift, List.any_map]
    exact List.any_congr rfl fun e => shift_beq _ _ _
  have hfuture : (t.shift d).entries.any (·.2 == f + d.futures) = t.entries.any (·.2 == f) := by
    simp only [shift, List.any_map]
    exact List.any_congr rfl fun e => shift_beq _ _ _
  rw [insert, insert, hframe, hfuture]
  cases t.contains frame with
  | true => rfl
  | false =>
      cases t.entries.any (·.2 == f) with
      | true => rfl
      | false =>
          simp only [Bool.false_eq_true, if_false, attemptShift, Except.ok.injEq]
          exact congrArg PendingTable.mk (place_shift d (frame, f) t.entries)

theorem remove_shift (frame : FrameId) :
    (t.shift d).remove (frame + d.frames) =
      ((t.remove frame).1.map (· + d.futures), (t.remove frame).2.shift d) := by
  have hfind : (fun e : FrameId × FutureId => e.1 == frame + d.frames) ∘
      (fun e : FrameId × FutureId => (e.1 + d.frames, e.2 + d.futures)) =
        fun e => e.1 == frame := by
    funext e
    exact shift_beq _ _ _
  have hfilter : (fun e : FrameId × FutureId => e.1 != frame + d.frames) ∘
      (fun e : FrameId × FutureId => (e.1 + d.frames, e.2 + d.futures)) =
        fun e => e.1 != frame := by
    funext e
    exact congrArg Bool.not (shift_beq _ _ _)
  simp only [remove, shift, List.find?_map, List.filter_map, hfind, hfilter, Option.map_map]
  rfl

end PendingTable

/-! ### Two bridges -/

inductive Activity.Alike (alike : σ → σ → Prop) : Activity σ → Activity σ → Prop where
  | idle {s s' : σ} (h : alike s s') : Alike alike (.idle s) (.idle s')
  | running : Alike alike .running .running
  | over : Alike alike .over .over

/-- The task `x'` is the task `x` on top of an earlier session. -/
structure Task.Onto (r : Residue) (alike : σ → σ → Prop) (x x' : Task σ) : Prop where
  id : x'.id = x.id + r.tasks
  caller : x'.caller = x.caller + r.frames
  routine : x'.routine = x.routine
  activity : x.activity.Alike alike x'.activity
  issued : x'.issued = x.issued.map (· + r.cells.size)
  outstanding : x'.outstanding = x.outstanding
  listed : x'.listed = x.listed
  drives : x'.drives = x.drives

namespace Bridge

/-- The bridge `b'` is the bridge `b` on top of an earlier session. -/
structure Onto (r : Residue) (alike : σ → σ → Prop) (b b' : Bridge σ) : Prop where
  blind : b.registry.Blind r.shift alike
  registry : b'.registry = b.registry
  library : b'.library = b.library
  futures : b.futures.Onto r b'.futures
  table : b'.table = b.table.shift r.shift
  tasks : List.Forall₂ (Task.Onto r alike) b.tasks b'.tasks
  outbox : b'.outbox = b.outbox.map (Invocation.shift r.shift)
  completions : b'.completions = b.completions.map (Completion.shift r.frames)
  journal : b'.journal = b.journal.onto r
  nextTask : b'.nextTask = b.nextTask + r.tasks
  fatal : b'.fatal = b.fatal.map (BridgeError.shift r.frames)
  nesting : b'.nesting = b.nesting

/-- The answers are the same, or the states in which the polls wait are alike. -/
inductive Answer.Alike (alike : σ → σ → Prop) : Answer σ → Answer σ → Prop where
  | ready (result : Except RoutineError DispatchResult) :
      Alike alike (.ready result) (.ready result)
  | pending {s s' : σ} (h : alike s s') : Alike alike (.pending s) (.pending s')

/-- What an operation that can go wrong comes to on two such bridges. -/
structure Paired (r : Residue) (alike : σ → σ → Prop) (x x' : Except BridgeError Unit × Bridge σ) :
    Prop where
  result : x'.1 = x.1.mapError (BridgeError.shift r.frames)
  bridge : x.2.Onto r alike x'.2

/-- The bridge after such an operation, with what went wrong remembered. -/
def remembering : Except BridgeError Unit × Bridge σ → Bridge σ
  | (.ok (), b) => b
  | (.error e, b) => b.fail e

namespace Onto

variable {r : Residue} {alike : σ → σ → Prop} {b b' : Bridge σ}

/-! #### Bookkeeping -/

theorem record (h : b.Onto r alike b') (e : Event) :
    (b.record e).Onto r alike (b'.record (e.shift r.frames)) :=
  { h with journal := by rw [Bridge.record, h.journal, Journal.record_onto]; rfl }

theorem addNote (h : b.Onto r alike b') (n n' : Note) :
    (b.addNote n).Onto r alike (b'.addNote n') :=
  { h with }

theorem fail (h : b.Onto r alike b') (e : BridgeError) :
    (b.fail e).Onto r alike (b'.fail (e.shift r.frames)) :=
  { h with
    fatal := by
      simp only [Bridge.fail, h.fatal]
      cases e <;> cases b.fatal <;> rfl }

theorem remembering {x x' : Except BridgeError Unit × Bridge σ} (h : Paired r alike x x') :
    (Bridge.remembering x).Onto r alike (Bridge.remembering x') := by
  obtain ⟨e | _, b⟩ := x <;> obtain ⟨result', b'⟩ := x' <;> obtain ⟨⟨⟩, hbridge⟩ := h
  · exact hbridge.fail e
  · exact hbridge

theorem finish (h : b.Onto r alike b') (caller : FrameId) (routine : String)
    (result : DispatchResult) :
    (b.finish caller routine result).Onto r alike (b'.finish (caller + r.frames) routine result) :=
  { h.record (.routineFinished caller routine result) with
    completions := by simp [Bridge.finish, h.completions, Completion.shift] }

theorem task? (h : b.Onto r alike b') (t : TaskId) :
    Option.Rel (Task.Onto r alike) (b.task? t) (b'.task? (t + r.tasks)) := by
  rw [Bridge.task?, Bridge.task?]
  have htasks := h.tasks
  generalize b.tasks = xs, b'.tasks = xs' at htasks
  induction htasks with
  | nil => exact .none
  | @cons x x' xs xs' hx _ ih =>
      simp only [List.find?_cons, hx.id, shift_beq]
      cases x.id == t with
      | true => exact .some hx
      | false => exact ih

theorem callerOf (h : b.Onto r alike b') (t : TaskId) :
    b'.callerOf (t + r.tasks) = (b.callerOf t).map (· + r.frames) := by
  have htask := h.task? t
  rw [Bridge.callerOf, Bridge.callerOf]
  generalize b.task? t = x, b'.task? (t + r.tasks) = x' at htask
  cases htask with
  | none => rfl
  | some hx => exact congrArg some hx.caller

/-- A change of a task that does not depend on numbers. -/
theorem modifyTask (h : b.Onto r alike b') (t : TaskId) (change change' : Task σ → Task σ)
    (hchange : ∀ x x', Task.Onto r alike x x' → Task.Onto r alike (change x) (change' x')) :
    (b.modifyTask t change).Onto r alike (b'.modifyTask (t + r.tasks) change') :=
  { h with
    tasks := by
      simp only [Bridge.modifyTask, List.forall₂_map_left_iff, List.forall₂_map_right_iff]
      refine h.tasks.imp fun x x' hx => ?_
      have hid : x'.id = t + r.tasks ↔ x.id = t := by rw [hx.id, Nat.add_right_cancel_iff]
      by_cases ht : x.id = t
      · rw [if_pos ht, if_pos (hid.2 ht)]
        exact hchange x x' hx
      · rw [if_neg ht, if_neg fun ht' => ht (hid.1 ht')]
        exact hx }

theorem issue (h : b.Onto r alike b') (t : TaskId) (caller : FrameId) (p : Program) :
    (b'.issue (t + r.tasks) (caller + r.frames) p).1 = (b.issue t caller p).1 + r.cells.size ∧
      (b.issue t caller p).2.Onto r alike (b'.issue (t + r.tasks) (caller + r.frames) p).2 := by
  obtain ⟨hissued, hfutures⟩ := h.futures.create
  have hcreated : ({ b with
      futures := b.futures.create.2
      outbox := b.outbox ++ [⟨p, b.futures.create.1, caller⟩] } : Bridge σ).Onto r alike
        { b' with
          futures := b'.futures.create.2
          outbox := b'.outbox ++ [⟨p, b'.futures.create.1, caller + r.frames⟩] } :=
    { h with
      futures := hfutures
      outbox := by simp [h.outbox, hissued, Invocation.shift, Residue.shift] }
  refine ⟨hissued, hcreated.modifyTask t _ _ fun x x' hx => ?_⟩
  exact { hx with
    issued := by
      rw [List.map_append, ← hx.issued]
      exact congrArg (x'.issued ++ [·]) hissued }

theorem invokeFor (h : b.Onto r alike b') (t : TaskId) (p : Program) :
    (b'.invokeFor (t + r.tasks) p).1 = (b.invokeFor t p).1 + r.cells.size ∧
      (b.invokeFor t p).2.Onto r alike (b'.invokeFor (t + r.tasks) p).2 := by
  have hfound := h.task? t
  rw [Bridge.invokeFor, Bridge.invokeFor]
  generalize b.task? t = found, b'.task? (t + r.tasks) = found' at hfound
  cases hfound with
  | none =>
      obtain ⟨hcreated, hfutures⟩ := h.futures.create
      refine ⟨hcreated, { h with futures := ?_ }⟩
      simp only [hcreated]
      exact hfutures.set _ ⟨rfl, .none, rfl⟩
  | @some x x' hx =>
      simp only [hx.caller]
      exact h.issue t x.caller p

theorem conclude (h : b.Onto r alike b') {x x' : Task σ} (hx : Task.Onto r alike x x')
    (result : DispatchResult) : (b.conclude x result).Onto r alike (b'.conclude x' result) := by
  rw [Bridge.conclude, Bridge.conclude, hx.id, hx.caller, hx.routine]
  exact (h.finish x.caller x.routine result).modifyTask x.id _ _ fun y y' hy =>
    { hy with activity := .over, listed := rfl }

theorem checkStalled (h : b.Onto r alike b') {x x' : Task σ} (hx : Task.Onto r alike x x') :
    (b.checkStalled x).Onto r alike (b'.checkStalled x') := by
  have hstalled : (b'.task? x'.id).any (·.outstanding == 0) =
      (b.task? x.id).any (·.outstanding == 0) := by
    have hfound := h.task? x.id
    rw [hx.id]
    generalize b.task? x.id = found, b'.task? (x.id + r.tasks) = found' at hfound
    cases hfound with
    | none => rfl
    | some hy => exact congrArg (· == 0) hy.outstanding
  rw [Bridge.checkStalled, Bridge.checkStalled, hstalled]
  split
  · rw [hx.routine]
    exact h.conclude hx _
  · exact h

theorem release (h : b.Onto r alike b') (t : TaskId) :
    (b.release t).Onto r alike (b'.release (t + r.tasks)) := by
  have hless := h.modifyTask t (fun x => { x with drives := x.drives - 1 })
    (fun x => { x with drives := x.drives - 1 })
    fun x x' hx => { hx with drives := congrArg (· - 1) hx.drives }
  refine { hless with tasks := List.rel_filter (fun x x' hx => ?_) hless.tasks }
  have hid : (x'.id != t + r.tasks) = (x.id != t) := by
    rw [hx.id, bne, bne, shift_beq]
  show _ ↔ _
  simp only [hid, hx.listed, hx.drives]

/-! #### Futures -/

section Firing

variable {fire : Continuation → Bridge σ → Bridge σ}
  (hfire : ∀ k k', Continuation.Alike r.shift k k' → ∀ b b', b.Onto r alike b' →
    (fire k b).Onto r alike (fire k' b'))

include hfire

theorem settle (h : b.Onto r alike b') (f : FutureId) (o : Outcome) :
    (b'.settle fire (f + r.cells.size) o).1 = (b.settle fire f o).1 ∧
      (b.settle fire f o).2.Onto r alike (b'.settle fire (f + r.cells.size) o).2 := by
  have hhanded := h.futures.resolve f o
  rw [Bridge.settle, Bridge.settle]
  generalize b.futures.resolve f o = x, b'.futures.resolve (f + r.cells.size) o = x' at hhanded
  cases hhanded with
  | refused e => exact ⟨rfl, h⟩
  | granted hfutures hrun =>
      cases hrun with
      | none => exact ⟨rfl, { h with futures := hfutures }⟩
      | some hk => exact ⟨rfl, hfire _ _ hk _ _ { h with futures := hfutures }⟩

theorem attach (h : b.Onto r alike b') (f : FutureId) {k k' : Continuation}
    (hk : k.Alike r.shift k') :
    (b'.attach fire (f + r.cells.size) k').1 = (b.attach fire f k).1 ∧
      (b.attach fire f k).2.Onto r alike (b'.attach fire (f + r.cells.size) k').2 := by
  have hhanded := h.futures.register f hk
  rw [Bridge.attach, Bridge.attach]
  generalize b.futures.register f k = x, b'.futures.register (f + r.cells.size) k' = x' at hhanded
  cases hhanded with
  | refused e => exact ⟨rfl, h⟩
  | granted hfutures hrun =>
      cases hrun with
      | none => exact ⟨rfl, { h with futures := hfutures }⟩
      | some hk => exact ⟨rfl, hfire _ _ hk _ _ { h with futures := hfutures }⟩

/-- Callbacks that are alike bring about the same. -/
theorem callBack {c c' : Callback} (hc : c.Alike r.shift c') (h : b.Onto r alike b') :
    (b.callBack fire c).Onto r alike (b'.callBack fire c') := by
  induction hc generalizing b b' with
  | done => exact h
  | callerOf t _ ih =>
      rw [Bridge.callBack, Bridge.callBack]
      simp only [Residue.shift, h.callerOf t]
      exact ih _ h
  | invoke t p _ ih =>
      obtain ⟨hissued, hnext⟩ := h.invokeFor t p
      rw [Bridge.callBack, Bridge.callBack]
      simp only [Residue.shift, hissued]
      exact ih _ hnext
  | invokeNamed t name _ _ iherror ihok =>
      rw [Bridge.callBack, Bridge.callBack, h.library]
      cases b.library.get? name with
      | none => exact iherror _ h
      | some p =>
          obtain ⟨hissued, hnext⟩ := h.invokeFor t p
          simp only [Residue.shift, hissued]
          exact ihok _ hnext
  | observe f _ ih =>
      have houtcome := h.futures.outcome? f
      rw [Bridge.callBack, Bridge.callBack]
      simp only [Residue.shift, houtcome]
      exact ih _ h
  | resolve f o _ ih =>
      obtain ⟨hrefused, hnext⟩ := h.settle hfire f o
      rw [Bridge.callBack, Bridge.callBack]
      simp only [Residue.shift, hrefused]
      exact ih _ hnext
  | register f hc _ _ ih =>
      obtain ⟨hrefused, hnext⟩ := h.attach hfire f (.callback hc)
      rw [Bridge.callBack, Bridge.callBack]
      simp only [Residue.shift, hrefused]
      exact ih _ hnext
  | note n n' _ ih => exact ih (h.addNote n n')

/-! #### Polling -/

/-- Polls that are alike are granted the same. -/
theorem converse {p p' : Poll σ} (hp : p.Alike r.shift alike p') (t : TaskId) (caller : FrameId)
    (h : b.Onto r alike b') :
    Answer.Alike alike (b.converse fire t caller p).1
        (b'.converse fire (t + r.tasks) (caller + r.frames) p').1 ∧
      (b.converse fire t caller p).2.Onto r alike
        (b'.converse fire (t + r.tasks) (caller + r.frames) p').2 := by
  induction hp generalizing b b' with
  | ready result => exact ⟨.ready result, h⟩
  | pending hs => exact ⟨.pending hs, h⟩
  | context _ ih => exact ih t caller h
  | invoke p _ ih =>
      obtain ⟨hissued, hnext⟩ := h.issue t caller p
      rw [Bridge.converse, Bridge.converse]
      simp only [hissued]
      exact ih _ hnext
  | invokeNamed name _ _ iherror ihok =>
      rw [Bridge.converse, Bridge.converse, h.library]
      cases b.library.get? name with
      | none => exact iherror _ h
      | some p =>
          obtain ⟨hissued, hnext⟩ := h.issue t caller p
          simp only [hissued]
          exact ihok _ hnext
  | observe f _ ih =>
      have houtcome := h.futures.outcome? f
      rw [Bridge.converse, Bridge.converse]
      simp only [Residue.shift, houtcome]
      exact ih _ h
  | resolve f o _ ih =>
      obtain ⟨hrefused, hnext⟩ := h.settle hfire f o
      rw [Bridge.converse, Bridge.converse]
      simp only [Residue.shift, hrefused]
      exact ih _ hnext
  | register f hc _ ih =>
      obtain ⟨hrefused, hnext⟩ := h.attach hfire f (.callback hc)
      rw [Bridge.converse, Bridge.converse]
      simp only [Residue.shift, hrefused]
      exact ih _ hnext
  | note n n' _ ih => exact ih (h.addNote n n')

theorem awaitAll (t : TaskId) (fs : List FutureId) (h : b.Onto r alike b') :
    Paired r alike (b.awaitAll fire t fs)
      (b'.awaitAll fire (t + r.tasks) (fs.map (· + r.cells.size))) := by
  induction fs generalizing b b' with
  | nil => exact ⟨rfl, h⟩
  | cons f fs ih =>
      have hmore := h.modifyTask t (fun x => { x with outstanding := x.outstanding + 1 })
        (fun x => { x with outstanding := x.outstanding + 1 })
        fun x x' hx => { hx with outstanding := congrArg (· + 1) hx.outstanding }
      obtain ⟨hrefused, hnext⟩ := hmore.attach hfire f (.resume t)
      rw [List.map_cons, Bridge.awaitAll, Bridge.awaitAll]
      simp only [Residue.shift] at hrefused hnext
      revert hrefused hnext
      generalize Bridge.attach fire _ f _ = x
      generalize Bridge.attach fire _ (f + r.cells.size) _ = x'
      obtain ⟨_ | e, b₁⟩ := x <;> obtain ⟨e', b₁'⟩ := x' <;> rintro ⟨⟩ hnext
      · exact ih hnext
      · exact ⟨rfl, hnext⟩

theorem followUp {x x' : Task σ} (hx : Task.Onto r alike x x') {a a' : Answer σ}
    (ha : a.Alike alike a') (h : b.Onto r alike b') :
    Paired r alike (b.followUp fire x a) (b'.followUp fire x' a') := by
  have hissued : ((b'.task? x'.id).map (·.issued)).getD [] =
      (((b.task? x.id).map (·.issued)).getD []).map (· + r.cells.size) := by
    have hfound := h.task? x.id
    rw [hx.id]
    generalize b.task? x.id = found, b'.task? (x.id + r.tasks) = found' at hfound
    cases hfound with
    | none => rfl
    | some hy => exact hy.issued
  have hcleared := h.modifyTask x.id (fun y => { y with issued := [] })
    (fun y => { y with issued := [] }) fun y y' hy => { hy with issued := rfl }
  unfold Bridge.followUp
  rw [hissued, hx.id]
  cases ha with
  | ready result =>
      rw [hx.routine]
      exact ⟨rfl, hcleared.conclude hx _⟩
  | @pending s s' hs =>
      have hidle := hcleared.modifyTask x.id (fun y => { y with activity := .idle s })
        (fun y => { y with activity := .idle s' }) fun y y' hy => { hy with activity := .idle hs }
      obtain ⟨hrefused, hnext⟩ := hidle.awaitAll hfire x.id
        (((b.task? x.id).map (·.issued)).getD [])
      dsimp only
      revert hrefused hnext
      generalize Bridge.awaitAll fire x.id _ _ = y
      generalize Bridge.awaitAll fire (x.id + r.tasks) _ _ = y'
      obtain ⟨_ | _, b₁⟩ := y <;> obtain ⟨e', b₁'⟩ := y' <;> rintro ⟨⟩ hnext
      · exact ⟨rfl, hnext⟩
      · exact ⟨rfl, hnext.checkStalled hx⟩

theorem drive (t : TaskId) (h : b.Onto r alike b') :
    Paired r alike (b.drive fire t) (b'.drive fire (t + r.tasks)) := by
  have hfound := h.task? t
  rw [Bridge.drive, Bridge.drive]
  generalize b.task? t = found, b'.task? (t + r.tasks) = found' at hfound
  cases hfound with
  | none => exact ⟨rfl, h⟩
  | @some x x' hx =>
      have hactivity := hx.activity
      dsimp only
      generalize x.activity = activity, x'.activity = activity' at hactivity
      cases hactivity with
      | @idle s s' hs =>
          have hpoll : (b.registry.poll s).Alike r.shift alike (b'.registry.poll s') := by
            rw [h.registry]
            exact h.blind.polls s s' hs
          have hrunning := h.modifyTask t
            (fun x => { x with activity := .running, drives := x.drives + 1 })
            (fun x => { x with activity := .running, drives := x.drives + 1 })
            fun y y' hy =>
              { hy with activity := .running, drives := congrArg (· + 1) hy.drives }
          obtain ⟨hanswer, hgranted⟩ := hrunning.converse hfire hpoll t x.caller
          obtain ⟨hresult, hfollowed⟩ := hgranted.followUp hfire hx hanswer
          rw [← hx.caller] at hresult hfollowed
          exact ⟨hresult, hfollowed.release t⟩
      | running => exact ⟨rfl, h.fail .reentered⟩
      | _ => exact ⟨rfl, h⟩

end Firing

/-- Whatever a continuation brings about is brought about alike. -/
theorem fire (depth : Nat) {k k' : Continuation} (hk : k.Alike r.shift k')
    (h : b.Onto r alike b') : (fire depth k b).Onto r alike (Bridge.fire depth k' b') := by
  induction depth generalizing k k' b b' with
  | zero => exact h.fail .nestedTooDeep
  | succ depth ih =>
      cases hk with
      | callback hc => exact h.callBack (fun _ _ hk _ _ h => ih hk h) hc
      | resume t =>
          have hfound := h.task? t
          rw [Residue.shift, Bridge.fire, Bridge.fire]
          generalize b.task? t = found, b'.task? (t + r.tasks) = found' at hfound
          cases hfound with
          | none => exact h
          | @some x x' hx =>
              have hless := h.modifyTask t (fun x => { x with outstanding := x.outstanding - 1 })
                (fun x => { x with outstanding := x.outstanding - 1 })
                fun y y' hy => { hy with outstanding := congrArg (· - 1) hy.outstanding }
              have hdriven := (hless.record (.resumed x.caller x.routine)).drive
                (fun _ _ hk _ _ h => ih hk h) t
              dsimp only
              rw [hx.caller, hx.routine]
              exact remembering hdriven

end Onto

/-! ### Steps -/

/-- What a part of a step comes to on a new machine and bridge, and what it comes to on top of an
earlier session. -/
structure Follows {ε α : Type} (r : Residue) (alike : σ → σ → Prop) (cause : ε → ε)
    (x x' : Except ε α × Machine × Bridge σ) : Prop where
  result : x'.1 = x.1.mapError cause
  machine : x'.2.1 = x.2.1.onto r
  bridge : x.2.2.Onto r alike x'.2.2

/-- The end of a frame, from what is settled by it. -/
theorem complete_eq (t : Teardown) (m : Machine) (b : Bridge σ) :
    complete t m b =
      match b.settled t with
      | (none, b) => flush m b
      | (some e, b) => flush m (b.fail (.future e)) := by
  unfold complete settled
  dsimp only
  obtain ⟨_ | f, table⟩ := (b.record (.frameTornDown t.frame t.faulted)).table.remove t.frame <;>
    rfl

/-- Bringing a result to its caller does not depend on numbers. -/
theorem deliver_onto (r : Residue) (c : Completion) (m : Machine) :
    deliver (c.shift r.frames) (m.onto r) = Machine.attemptOnto r (deliver c m) := by
  have hunblock := m.modifyFrame_onto r c.caller (fun f => { f with blocked := false })
    fun _ => rfl
  rw [deliver, deliver, Machine.unblock, Machine.unblock]
  simp only [Completion.shift, hunblock]
  cases m.modifyFrame c.caller _ with
  | error e => rfl
  | ok m =>
      simp only [Machine.attemptOnto]
      cases c.result with
      | void => rfl
      | value v => exact m.modifyFrame_onto r c.caller _ fun _ => rfl
      | fault f => exact m.modifyFrame_onto r c.caller _ fun _ => rfl

theorem deliverAll_onto (r : Residue) (cs : List Completion) (m : Machine) :
    deliverAll (cs.map (Completion.shift r.frames)) (m.onto r) =
      ((deliverAll cs m).1.mapError (HookError.shift r.frames), (deliverAll cs m).2.onto r) := by
  induction cs generalizing m with
  | nil => rfl
  | cons c cs ih =>
      rw [List.map_cons, deliverAll, deliverAll, deliver_onto]
      cases deliver c m with
      | error e => rfl
      | ok m => exact ih m

theorem popArguments_onto (r : Residue) (m : Machine) (n : Nat) :
    popArguments (m.onto r) n = ((popArguments m n).1, (popArguments m n).2.onto r) := by
  have hgo : ∀ n taken (m : Machine), popArguments.go n taken (m.onto r) =
      ((popArguments.go n taken m).1, (popArguments.go n taken m).2.onto r) := by
    intro n
    induction n with
    | zero => exact fun taken m => rfl
    | succ n ih =>
        intro taken m
        simp only [popArguments.go, Machine.pop_onto]
        rcases m.pop with ⟨_ | v, m'⟩
        · rfl
        · exact ih (v :: taken) m'
  exact hgo n [] m

namespace Onto

variable {r : Residue} {alike : σ → σ → Prop} {b b' : Bridge σ}

theorem loadAll (is : List Invocation) (m : Machine) (h : b.Onto r alike b') :
    Follows r alike (HookError.shift r.frames) (loadAll is m b)
      (Bridge.loadAll (is.map (Invocation.shift r.shift)) (m.onto r) b') := by
  induction is generalizing m b b' with
  | nil => exact ⟨rfl, rfl, h⟩
  | cons i is ih =>
      have hrecord := h.record (.frameLoaded (m.load i.program).1 i.program.name i.caller)
      have hinsert := PendingTable.insert_shift r.shift b.table (m.load i.program).1 i.future
      rw [← h.table] at hinsert
      rw [List.map_cons, Bridge.loadAll, Bridge.loadAll]
      simp only [Invocation.shift, Machine.load_onto]
      simp only [Event.shift] at hrecord
      simp only [Residue.shift, Bridge.record] at hinsert hrecord ⊢
      rw [hinsert]
      cases b.table.insert (m.load i.program).1 i.future with
      | error e => exact ⟨rfl, rfl, hrecord⟩
      | ok table => exact ih _ { hrecord with table := rfl }

theorem flush (m : Machine) (h : b.Onto r alike b') :
    Follows r alike (HookError.shift r.frames) (flush m b) (Bridge.flush (m.onto r) b') := by
  have hemptied : ({ b with outbox := [] } : Bridge σ).Onto r alike { b' with outbox := [] } :=
    { h with outbox := rfl }
  have hloaded := hemptied.loadAll b.outbox m
  have hfatal := h.fatal
  rw [Bridge.flush, Bridge.flush]
  cases hb : b.fatal with
  | some e =>
      rw [hb] at hfatal
      rw [hfatal]
      exact ⟨rfl, rfl, { h with fatal := rfl }⟩
  | none =>
      rw [hb] at hfatal
      simp only [hb, hfatal, h.outbox, Option.map_none] at hloaded ⊢
      generalize Bridge.loadAll b.outbox m _ = x at hloaded ⊢
      generalize Bridge.loadAll (b.outbox.map _) (m.onto r) _ = x' at hloaded ⊢
      obtain ⟨hresult, hmachine, hbridge⟩ := hloaded
      obtain ⟨_ | _, m₁, b₁⟩ := x <;> obtain ⟨result', m₁', b₁'⟩ := x'
      · cases hresult
        exact ⟨rfl, hmachine, hbridge⟩
      · cases hresult
        have hdelivered := deliverAll_onto r b₁.completions m₁
        simp only at hmachine hbridge ⊢
        simp only [Except.mapError, hmachine, hbridge.completions, hdelivered]
        exact ⟨rfl, rfl, { hbridge with completions := rfl }⟩

/-! #### Native calls -/

theorem start {s s' : σ} (hs : alike s s') (caller : FrameId) (routine : String)
    (h : b.Onto r alike b') :
    (b'.start (caller + r.frames) routine s').1 = (b.start caller routine s).1 ∧
      (b.start caller routine s).2.Onto r alike (b'.start (caller + r.frames) routine s').2 := by
  have hlisted : ({ b with
      nextTask := b.nextTask + 1
      tasks := { id := b.nextTask, caller, routine, activity := .idle s } :: b.tasks } :
        Bridge σ).Onto r alike { b' with
      nextTask := b'.nextTask + 1
      tasks := { id := b'.nextTask, caller := caller + r.frames, routine, activity := .idle s' } ::
        b'.tasks } :=
    { h with
      nextTask := by rw [h.nextTask, Nat.add_right_comm]
      tasks := .cons ⟨h.nextTask, rfl, rfl, .idle hs, rfl, rfl, rfl, rfl⟩ h.tasks }
  have hdriven : ∀ {b₁ b₁' : Bridge σ}, b₁.Onto r alike b₁' →
      Paired r alike (b₁.drive (Bridge.fire b.nesting) b.nextTask)
        (b₁'.drive (Bridge.fire b'.nesting) b'.nextTask) := by
    intro b₁ b₁' h₁
    rw [h.nesting, h.nextTask]
    exact h₁.drive (fun _ _ hk _ _ h => h.fire b.nesting hk) b.nextTask
  have hnext := remembering (hdriven hlisted)
  have hfound := hnext.task? b.nextTask
  rw [← h.nextTask] at hfound
  have hwaits : ∀ {x x' : Option (Task σ)}, Option.Rel (Task.Onto r alike) x x' →
      x'.any (!·.activity.isOver) = x.any (!·.activity.isOver) := by
    intro x x' hx
    cases hx with
    | none => rfl
    | @some x x' hx =>
        have hactivity := hx.activity
        simp only [Option.any_some]
        generalize x.activity = activity, x'.activity = activity' at hactivity ⊢
        cases hactivity <;> rfl
  exact ⟨hwaits hfound, hnext⟩

theorem apply (caller : FrameId) {q : Routine σ} (hq : q ∈ b.registry.routines)
    (args : List Value) (h : b.Onto r alike b') :
    (b'.apply (caller + r.frames) q args).1 = (b.apply caller q args).1 ∧
      (b.apply caller q args).2.Onto r alike (b'.apply (caller + r.frames) q args).2 := by
  have hnotes : ∀ (notes : List Note) {b b' : Bridge σ}, b.Onto r alike b' →
      (notes.foldl Bridge.addNote b).Onto r alike (notes.foldl Bridge.addNote b') := by
    intro notes
    induction notes with
    | nil => exact fun h => h
    | cons n notes ih => exact fun h => ih (h.addNote n n)
  have hstarts := h.blind.starts q hq
  unfold Bridge.apply
  cases hbody : q.body with
  | sync run =>
      cases Arguments.read q.params args with
      | error e => exact ⟨rfl, h⟩
      | ok xs =>
          dsimp only
          have hnoted := hnotes (run xs).1 h
          cases (run xs).2 with
          | ok d => exact ⟨rfl, hnoted.finish caller q.name d⟩
          | error e => exact ⟨rfl, hnoted⟩
  | suspending begin =>
      cases Arguments.read q.params args with
      | error e => exact ⟨rfl, { h with nextTask := by rw [h.nextTask, Nat.add_right_comm] }⟩
      | ok xs =>
          obtain ⟨hwaits, hnext⟩ := h.start (hstarts begin hbody xs) caller q.name
          exact ⟨congrArg Except.ok hwaits, hnext⟩

theorem call (id : RoutineId) (caller : FrameId) (m : Machine) (h : b.Onto r alike b') :
    Follows r alike (·) (call id caller m b)
      (Bridge.call id (caller + r.frames) (m.onto r) b') := by
  have hkept : ∀ {ε α : Type} (x : Except ε α), x = x.mapError (·) := by
    intro ε α x
    cases x <;> rfl
  rw [Bridge.call, Bridge.call, h.registry]
  cases hget : b.registry.get? id with
  | none => exact ⟨rfl, rfl, h⟩
  | some q =>
      have hrecord := h.record (.dispatchStarted caller q.name id)
      simp only [popArguments_onto]
      rcases popArguments m q.arity with ⟨found | args, m₁⟩
      · exact ⟨rfl, rfl, hrecord⟩
      · have hq : q ∈ (b.record (.dispatchStarted caller q.name id)).registry.routines :=
          List.mem_of_find?_eq_some hget
        obtain ⟨hresult, hnext⟩ := hrecord.apply caller hq args
        exact ⟨hresult.trans (hkept _), rfl, hnext⟩

theorem dispatch (id : RoutineId) (caller : FrameId) (m : Machine) (h : b.Onto r alike b') :
    Follows r alike (HookError.shift r.frames) (dispatch id caller m b)
      (Bridge.dispatch id (caller + r.frames) (m.onto r) b') := by
  have hcall := h.call id caller m
  rw [Bridge.dispatch, Bridge.dispatch]
  generalize Bridge.call id caller m b = x at hcall ⊢
  generalize Bridge.call id (caller + r.frames) (m.onto r) b' = x' at hcall ⊢
  obtain ⟨hresult, hmachine, hbridge⟩ := hcall
  obtain ⟨result', m₁', b₁'⟩ := x'
  obtain ⟨e | waits, m₁, b₁⟩ := x <;> cases hresult <;>
    obtain rfl : m₁' = m₁.onto r := hmachine
  · have hname : b₁'.routineName id = b₁.routineName id := by
      rw [routineName, routineName, hbridge.registry]
    dsimp only at hbridge ⊢
    rw [hname]
    exact (hbridge.finish caller _ _).flush m₁
  · cases waits with
    | false => exact hbridge.flush m₁
    | true =>
        have hblock := m₁.modifyFrame_onto r caller (fun f => { f with blocked := true })
          fun _ => rfl
        dsimp only at hbridge ⊢
        rw [Machine.block, Machine.block, hblock]
        cases m₁.modifyFrame caller _ with
        | error e => exact ⟨rfl, rfl, hbridge⟩
        | ok m₂ => exact hbridge.flush m₂

/-! #### Ends of frames -/

theorem settled (t : Teardown) (h : b.Onto r alike b') :
    (b'.settled (t.shift r.frames)).1 = (b.settled t).1 ∧
      (b.settled t).2.Onto r alike (b'.settled (t.shift r.frames)).2 := by
  have hrecord := h.record (.frameTornDown t.frame t.faulted)
  have hremove := PendingTable.remove_shift r.shift b.table t.frame
  rw [← h.table] at hremove
  simp only [Bridge.settled, Bridge.record, Event.shift, Residue.shift, Teardown.shift]
    at hrecord hremove ⊢
  rw [hremove]
  obtain ⟨_ | f, table⟩ := b.table.remove t.frame
  · exact ⟨rfl, hrecord⟩
  · have hsettles : ∀ {b₁ b₁' : Bridge σ}, b₁.Onto r alike b₁' →
        (b₁'.settle (Bridge.fire b'.nesting) (f + r.cells.size) t.outcome).1 =
            (b₁.settle (Bridge.fire b.nesting) f t.outcome).1 ∧
          (b₁.settle (Bridge.fire b.nesting) f t.outcome).2.Onto r alike
            (b₁'.settle (Bridge.fire b'.nesting) (f + r.cells.size) t.outcome).2 := by
      intro b₁ b₁' h₁
      rw [h.nesting]
      exact h₁.settle (fun _ _ hk _ _ h => h.fire b.nesting hk) f t.outcome
    have hremoved : ({ b.record (.frameTornDown t.frame t.faulted) with table } : Bridge σ).Onto r
        alike { b'.record (.frameTornDown (t.frame + r.frames) t.faulted) with
          table := table.shift r.shift } := { hrecord with table := rfl }
    exact hsettles hremoved

theorem complete (t : Teardown) (m : Machine) (h : b.Onto r alike b') :
    Follows r alike (HookError.shift r.frames) (complete t m b)
      (Bridge.complete (t.shift r.frames) (m.onto r) b') := by
  obtain ⟨hrefused, hnext⟩ := h.settled t
  rw [complete_eq, complete_eq]
  generalize b.settled t = x at hrefused hnext ⊢
  generalize b'.settled (t.shift r.frames) = x' at hrefused hnext ⊢
  obtain ⟨_ | e, b₁⟩ := x <;> obtain ⟨refused', b₁'⟩ := x' <;> cases hrefused
  · exact hnext.flush m
  · exact (hnext.fail (.future e)).flush m

end Onto

end Bridge

end Reentrant
