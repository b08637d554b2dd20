import Reentrant.Future.Agenda
import Reentrant.Proofs.FuturePlay

/-!
A script of work on futures is a play. Its operations are the acts of the top level, the operations of
a continuation the acts of that continuation; and as the agenda is worked off, every continuation
that was started returns.
-/

namespace Reentrant

namespace FutureScript

open FuturePlay

variable {τ : Type}

/-! ### Handles -/

/-- Every future has a handle, and a continuation that a future holds was registered through one. -/
structure State.Linked (s : State τ) : Prop where
  handles : s.futures.cells.size ≤ s.handles.size
  waiting : ∀ g b, (s.futures.get g).waiting = some b → s.handles[b.future]? = some g

namespace State

variable {s : State τ}

theorem linked_initial : ({} : State τ).Linked where
  handles := Nat.le_refl 0
  waiting g b h := by
    rw [FutureStore.get_of_ge _ (Nat.zero_le g)] at h
    cases h

/-- A handle that was never given out leads to no future. -/
theorem Linked.handle (h : s.Linked) {f : FutureId} (hf : s.future f < s.futures.cells.size) :
    s.handles[f]? = some (s.future f) := by
  rw [future] at hf ⊢
  cases hhandle : s.handles[f]? with
  | some g => rfl
  | none =>
      rw [hhandle, Option.getD_none] at hf
      have hge := Array.getElem?_eq_none_iff.1 hhandle
      exact absurd hf (Nat.not_lt.2 (Nat.le_trans h.handles hge))

theorem Linked.set (h : s.Linked) {g : FutureId} {c : Cell (Body τ)}
    (hc : ∀ b, c.waiting = some b → s.handles[b.future]? = some g) :
    ({ s with futures := s.futures.set g c } : State τ).Linked where
  handles := by
    rw [FutureStore.set, Array.size_setIfInBounds]
    exact h.handles
  waiting g' b hb := by
    by_cases hlt : g < s.futures.cells.size
    · by_cases heq : g = g'
      · subst heq
        rw [FutureStore.get_set_self _ hlt] at hb
        exact hc b hb
      · rw [FutureStore.get_set_of_ne _ heq] at hb
        exact h.waiting g' b hb
    · rw [FutureStore.set_of_ge _ (Nat.le_of_not_lt hlt)] at hb
      exact h.waiting g' b hb

/-- A new handle changes no old one. -/
theorem Linked.push (h : s.Linked) {futures : FutureStore (Body τ)} (g : FutureId)
    (hsize : futures.cells.size ≤ s.handles.size + 1)
    (hget : ∀ g, futures.get g = s.futures.get g) :
    ({ futures, handles := s.handles.push g } : State τ).Linked where
  handles := by
    rw [Array.size_push]
    exact hsize
  waiting g' b hb := by
    rw [hget] at hb
    have hold := h.waiting g' b hb
    have hlt := (Array.getElem?_eq_some_iff.1 hold).1
    rw [Array.getElem?_push_lt hlt]
    exact (Array.getElem?_eq_getElem hlt).symm.trans hold

end State

/-! ### Operations as acts -/

/-- The tag of a continuation that starts, and what it sees of its future. -/
def start? : Happening (Body τ) → Option (τ × Option Outcome)
  | .started _ b seen => some (b.tag, seen)
  | _ => none

def startLog (m : Moment (Body τ)) : List (τ × Option Outcome) := m.past.filterMap start?

/-- The moment `m'` comes of `m` by a call of the script that left `s` behind and fired `fired`. -/
structure Comes (m m' : Moment (Body τ)) (fired : Option (Body τ)) (s : State τ) : Prop where
  futures : m'.futures = s.futures
  linked : s.Linked
  running : m'.running = (fired.toList.map fun b => (s.future b.future, b)) ++ m.running
  starts : startLog m' =
    startLog m ++ fired.toList.map fun b => (b.tag, s.futures.outcome? (s.future b.future))

section Perform

variable {m : Moment (Body τ)} {s : State τ} (hm : m.futures = s.futures) (hs : s.Linked)

theorem Comes.follow {g : FutureId} {x : Happening (Body τ)} (hx : start? x = none)
    {futures : FutureStore (Body τ)} {fired : Option (Body τ)}
    (hlinked : ({ s with futures } : State τ).Linked)
    (hfired : ∀ b, fired = some b → s.future b.future = g) :
    Comes m (m.follow g x (.ok (futures, fired))) fired { s with futures } := by
  cases fired with
  | none => exact ⟨rfl, hlinked, rfl, by simp [startLog, Moment.follow, hx]⟩
  | some b =>
      have hg : ({ s with futures } : State τ).future b.future = g := hfired b rfl
      refine ⟨rfl, hlinked, ?_, ?_⟩
      · simp [Moment.follow, hg]
      · have hstart : start? (.started g b (futures.outcome? g)) =
            some (b.tag, futures.outcome? g) := rfl
        simp [startLog, Moment.follow, hx, hstart, hg]

include hm hs

/-- A call that is refused or was made on a future that was never created, and a look. -/
theorem Comes.still {m' : Moment (Body τ)} (hfutures : m'.futures = m.futures)
    (hrunning : m'.running = m.running) (hstarts : startLog m' = startLog m) :
    Comes m m' none s :=
  ⟨hfutures.trans hm, hs, hrunning, hstarts.trans (List.append_nil _).symm⟩

theorem register_comes (f : FutureId) (tag : τ) (body : List (Op τ)) :
    ∃ as, Comes m (m.acts as) (s.perform (.register f tag body)).2.1
      (s.perform (.register f tag body)).2.2 := by
  refine ⟨[.register (s.future f) ⟨f, tag, body⟩], ?_⟩
  simp only [Moment.acts, List.foldl_cons, List.foldl_nil, Moment.act, State.perform, hm]
  by_cases hsize : s.future f < s.futures.cells.size
  · rw [if_pos hsize]
    have hhandle := hs.handle hsize
    rcases s.futures.register_cases (s.future f) ⟨f, tag, body⟩ with
      ⟨-, hcall⟩ | ⟨-, ⟨houtcome, hcall⟩ | ⟨o, houtcome, hcall⟩⟩
    · rw [hcall]
      exact Comes.still hm hs rfl rfl (by simp [startLog, Moment.follow, start?])
    · rw [hcall]
      refine Comes.follow rfl (hs.set fun b hb => ?_) (fun b hb => ?_)
      · cases hb
        exact hhandle
      · cases hb
    · rw [hcall]
      refine Comes.follow rfl (hs.set fun b hb => hs.waiting _ b hb) (fun b hb => ?_)
      cases hb
      rfl
  · rw [if_neg hsize]
    have hge := Nat.le_of_not_lt hsize
    have hcall : s.futures.register (s.future f) ⟨f, tag, body⟩ = .ok (s.futures, none) := by
      rw [FutureStore.register, FutureStore.get_of_ge _ hge]
      simp [Cell.register, Except.map, FutureStore.set_of_ge _ hge]
    rw [hcall]
    exact Comes.still hm hs rfl rfl rfl

theorem resolve_comes (f : FutureId) (o : Outcome) :
    ∃ as, Comes m (m.acts as) (s.perform (.resolve f o)).2.1 (s.perform (.resolve f o)).2.2 := by
  refine ⟨[.resolve (s.future f) o], ?_⟩
  simp only [Moment.acts, List.foldl_cons, List.foldl_nil, Moment.act, State.perform, hm]
  by_cases hsize : s.future f < s.futures.cells.size
  · rw [if_pos hsize]
    rcases s.futures.resolve_cases (s.future f) o with ⟨houtcome, hcall⟩ | ⟨held, -, hcall⟩
    · rw [hcall]
      refine Comes.follow rfl (hs.set fun b hb => ?_) fun b hb => ?_
      · cases hb
      · rw [State.future, hs.waiting _ b hb, Option.getD_some]
    · rw [hcall]
      exact Comes.still hm hs rfl rfl (by simp [startLog, Moment.follow, start?])
  · rw [if_neg hsize]
    have hge := Nat.le_of_not_lt hsize
    have hcall : s.futures.resolve (s.future f) o = .ok (s.futures, none) := by
      rw [FutureStore.resolve, FutureStore.get_of_ge _ hge]
      simp [Cell.resolve, Except.map, FutureStore.set_of_ge _ hge]
    rw [hcall]
    exact Comes.still hm hs rfl rfl rfl

/-- Every operation of a script is an act, or none. -/
theorem perform_comes (op : Op τ) :
    ∃ as, Comes m (m.acts as) (s.perform op).2.1 (s.perform op).2.2 := by
  have hlook : ∀ f, Comes m (m.acts [.look f]) none s := fun f =>
    Comes.still hm hs rfl rfl (by simp [startLog, Moment.acts, Moment.act, start?])
  cases op with
  | register f tag body => exact register_comes hm hs f tag body
  | resolve f o => exact resolve_comes hm hs f o
  | create =>
      refine ⟨[.create], congrArg (fun futures => futures.create.2) hm, ?_, rfl,
        (List.append_nil _).symm⟩
      refine hs.push _ ?_ (FutureStore.get_create _)
      simp only [Array.size_push]
      exact Nat.succ_le_succ hs.handles
  | «alias» f =>
      refine ⟨[], hm, ?_, rfl, (List.append_nil _).symm⟩
      exact hs.push _ (Nat.le_succ_of_le hs.handles) fun g => rfl
  | result f =>
      refine ⟨[.look f], ?_⟩
      rw [State.perform]
      cases (s.futures.get (s.future f)).result <;> exact hlook f
  | poll f =>
      refine ⟨[.look f], ?_⟩
      rw [State.perform]
      cases s.futures.outcome? (s.future f) <;> exact hlook f
  | state f => exact ⟨[.look f], hlook f⟩
  | isResolved f => exact ⟨[.look f], hlook f⟩
  | hasContinuation f => exact ⟨[.look f], hlook f⟩
  | isPending f => exact ⟨[.look f], hlook f⟩
  | same f g => exact ⟨[.look f], hlook f⟩
  | describe f => exact ⟨[.look f], hlook f⟩

end Perform

/-! ### The agenda -/

/-- The tasks `ts` are what is left of the top level's operation and of the continuations `cs` that run
inside it. Where an operation has fired a continuation, its answer is the continuation's return. -/
inductive Inside : List (Task τ) → List (FutureId × Body τ) → Prop where
  | done : Inside [] []
  | top (c : FutureId × Body τ) : Inside [] [c]
  | op {ts : List (Task τ)} {cs : List (FutureId × Body τ)} (tag : τ) (op : Op τ) :
      Inside ts cs → Inside (.op tag op :: ts) cs
  | answer {ts : List (Task τ)} {cs : List (FutureId × Body τ)} (tag : τ) (reply : Reply) :
      Inside ts cs → Inside (.report (.did tag reply) :: ts) cs
  | back {ts : List (Task τ)} {cs : List (FutureId × Body τ)} (tag : τ) (reply : Reply)
      (c : FutureId × Body τ) : Inside ts cs → Inside (.report (.did tag reply) :: ts) (c :: cs)

theorem Inside.ops {ts : List (Task τ)} {cs : List (FutureId × Body τ)} (h : Inside ts cs) (tag : τ)
    (ops : List (Op τ)) : Inside (ops.map (.op tag) ++ ts) cs := by
  induction ops with
  | nil => exact h
  | cons op ops ih => exact .op tag op ih

/-- The start that a report tells of. -/
def Report.start? : Report τ → Option (τ × Option Outcome)
  | .started tag seen => some (tag, seen)
  | .did _ _ => none

/-- The agenda `ts` after the starts `log` have been reported. A continuation that has just been fired
has started already; its report comes next. -/
inductive Stage (s : State τ) (m : Moment (Body τ)) :
    List (Task τ) → List (τ × Option Outcome) → Prop where
  | going {ts : List (Task τ)} (hinside : Inside ts m.running) : Stage s m ts (startLog m)
  | starting {ts : List (Task τ)} {log : List (τ × Option Outcome)} (b : Body τ)
      (hinside : Inside ts m.running)
      (hlog : startLog m = log ++ [(b.tag, s.futures.outcome? (s.future b.future))]) :
      Stage s m (.start b :: ts) log

/-- What a call has fired comes first on the agenda. -/
theorem Comes.stage {m m' : Moment (Body τ)} {fired : Option (Body τ)} {s : State τ}
    (h : Comes m m' fired s) {ts : List (Task τ)} (hinside : Inside ts m'.running) :
    Stage s m' (fired.toList.map .start ++ ts) (startLog m) := by
  have hlog := h.starts
  cases fired with
  | none =>
      rw [Option.toList_none, List.map_nil, List.append_nil] at hlog
      rw [← hlog]
      exact .going hinside
  | some b => exact .starting b hinside hlog

/-! ### How much there is to do -/

/-- The tasks that a task comes to, itself included. -/
def Task.weight : Task τ → Nat
  | .start b => 1 + weights b.ops
  | .op _ does => does.weight
  | .report _ => 1

/-- What the members of a list weigh together. -/
def total {α : Type} (weight : α → Nat) : List α → Nat
  | [] => 0
  | x :: xs => weight x + total weight xs

section Total

variable {α : Type} (weight : α → Nat)

theorem total_append (xs ys : List α) :
    total weight (xs ++ ys) = total weight xs + total weight ys := by
  induction xs with
  | nil => exact (Nat.zero_add _).symm
  | cons x xs ih => rw [List.cons_append, total, total, ih, Nat.add_assoc]

theorem total_set {d : α} (hd : weight d = 0) (xs : List α) (i : Nat) (x : α) :
    total weight (xs.set i x) + weight (xs[i]?.getD d) ≤ total weight xs + weight x := by
  induction xs generalizing i with
  | nil =>
      show 0 + weight d ≤ 0 + weight x
      omega
  | cons y xs ih =>
      cases i with
      | zero =>
          simp only [List.set_cons_zero, total, List.getElem?_cons_zero, Option.getD_some]
          omega
      | succ i =>
          have hrest := ih i
          simp only [List.set_cons_succ, total, List.getElem?_cons_succ]
          omega

theorem foldl_total (xs : List α) (n : Nat) :
    xs.foldl (fun n x => n + weight x) n = n + total weight xs := by
  induction xs generalizing n with
  | nil => rfl
  | cons x xs ih => rw [List.foldl_cons, ih, total, Nat.add_assoc]

end Total

def agendaWeight (ts : List (Task τ)) : Nat := total Task.weight ts

theorem agendaWeight_append (ts us : List (Task τ)) :
    agendaWeight (ts ++ us) = agendaWeight ts + agendaWeight us := total_append _ ts us

def cellWeight (c : Cell (Body τ)) : Nat := c.waiting.elim 0 fun b => 1 + weights b.ops

theorem waiting_eq (s : State τ) : s.waiting = total cellWeight s.futures.cells.toList := by
  rw [State.waiting, ← Array.foldl_toList]
  exact (foldl_total cellWeight _ 0).trans (Nat.zero_add _)

/-- Replacing a cell replaces what waits in it. -/
theorem waiting_set (s : State τ) (g : FutureId) (c : Cell (Body τ)) :
    ({ s with futures := s.futures.set g c } : State τ).waiting + cellWeight (s.futures.get g) ≤
      s.waiting + cellWeight c := by
  have hset := total_set cellWeight (d := {}) rfl s.futures.cells.toList g c
  rw [waiting_eq, waiting_eq]
  simp only [FutureStore.set, FutureStore.get, Array.toList_setIfInBounds]
  rw [← Array.getElem?_toList]
  exact hset

theorem weights_map (tag : τ) (ops : List (Op τ)) :
    agendaWeight (ops.map (.op tag)) = weights ops := by
  induction ops with
  | nil => rfl
  | cons op ops ih =>
      rw [weights, ← ih]
      rfl

/-- What is on the agenda and in waiting continuations once `fired` is to be run. -/
def State.load (s : State τ) (fired : Option (Body τ)) : Nat :=
  agendaWeight (fired.toList.map .start) + s.waiting

theorem State.load_none (s : State τ) : s.load none = s.waiting := Nat.zero_add _

theorem State.load_some (s : State τ) (b : Body τ) : s.load (some b) = 1 + weights b.ops + s.waiting :=
  congrArg (· + s.waiting) (Nat.add_zero _)

theorem register_lighter (s : State τ) (f : FutureId) (tag : τ) (body : List (Op τ)) :
    (s.perform (.register f tag body)).2.2.load (s.perform (.register f tag body)).2.1 + 2 ≤
      (Op.register f tag body).weight + s.waiting := by
  have hset := waiting_set s (s.future f)
  rw [Op.weight, State.perform]
  rcases s.futures.register_cases (s.future f) ⟨f, tag, body⟩ with
    ⟨-, hcall⟩ | ⟨-, ⟨-, hcall⟩ | ⟨o, -, hcall⟩⟩
  · rw [hcall]
    simp only [State.load_none]
    omega
  · have hcell := hset { s.futures.get (s.future f) with
      registered := true, waiting := some ⟨f, tag, body⟩ }
    rw [hcall]
    simp only [cellWeight, Option.elim_some, State.load_none] at hcell ⊢
    omega
  · have hcell := hset { s.futures.get (s.future f) with registered := true }
    rw [hcall]
    simp only [cellWeight, State.load_some] at hcell ⊢
    omega

theorem resolve_lighter (s : State τ) (f : FutureId) (o : Outcome) :
    (s.perform (.resolve f o)).2.2.load (s.perform (.resolve f o)).2.1 ≤ s.waiting := by
  have hcell := waiting_set s (s.future f)
    { s.futures.get (s.future f) with outcome := some o, waiting := none }
  rw [State.perform]
  rcases s.futures.resolve_cases (s.future f) o with ⟨-, hcall⟩ | ⟨held, -, hcall⟩
  · rw [hcall]
    cases hwaiting : (s.futures.get (s.future f)).waiting with
    | none =>
        simp only [cellWeight, hwaiting, Option.elim_none, State.load_none] at hcell ⊢
        omega
    | some b =>
        simp only [cellWeight, hwaiting, Option.elim_some, Option.elim_none, State.load_some]
          at hcell ⊢
        omega
  · rw [hcall]
    exact Nat.le_of_eq s.load_none

/-- An operation and its answer cost two; what it stores or fires is paid for by what it was given. -/
theorem perform_lighter (s : State τ) (op : Op τ) :
    (s.perform op).2.2.load (s.perform op).2.1 + 2 ≤ op.weight + s.waiting := by
  have hstill : s.load none + 2 ≤ 2 + s.waiting := by
    rw [s.load_none]
    omega
  cases op with
  | register f tag body => exact register_lighter s f tag body
  | resolve f o =>
      have hresolve := resolve_lighter s f o
      simp only [Op.weight]
      omega
  | create =>
      have hcreate : (s.perform .create).2.2.waiting = s.waiting := by
        rw [waiting_eq, waiting_eq]
        simp [State.perform, FutureStore.create, total_append, total, cellWeight]
      show State.load _ none + 2 ≤ 2 + s.waiting
      rw [State.load_none, hcreate]
      omega
  | result f =>
      rw [State.perform]
      cases (s.futures.get (s.future f)).result <;> exact hstill
  | poll f =>
      rw [State.perform]
      cases s.futures.outcome? (s.future f) <;> exact hstill
  | «alias» f => exact hstill
  | state f => exact hstill
  | isResolved f => exact hstill
  | hasContinuation f => exact hstill
  | isPending f => exact hstill
  | same f g => exact hstill
  | describe f => exact hstill

/-! ### Working the agenda off -/

/-- What the moment `m` has become once the reports `rs` were made and the state `s` is left. -/
structure Plays (m : Moment (Body τ)) (log : List (τ × Option Outcome)) (rs : List (Report τ))
    (s : State τ) (as : List (Act (Body τ))) : Prop where
  futures : (m.acts as).futures = s.futures
  linked : s.Linked
  running : (m.acts as).running = []
  starts : startLog (m.acts as) = log ++ rs.filterMap Report.start?

theorem acts_append (m : Moment (Body τ)) (as more : List (Act (Body τ))) :
    m.acts (as ++ more) = (m.acts as).acts more :=
  List.foldl_append

/-- Acts that are reported on before the rest. -/
theorem Plays.before {m : Moment (Body τ)} {as more : List (Act (Body τ))}
    {log log' : List (τ × Option Outcome)} {r : Option (Report τ)} {rs : List (Report τ)}
    {s : State τ} (h : Plays (m.acts as) log' rs s more)
    (hlog : log' = log ++ r.toList.filterMap Report.start?) :
    Plays m log (r.toList ++ rs) s (as ++ more) where
  futures := by rw [acts_append]; exact h.futures
  linked := h.linked
  running := by rw [acts_append]; exact h.running
  starts := by
    rw [acts_append, h.starts, hlog, List.filterMap_append, List.append_assoc]

/-- With the agenda empty only the top level's call is left to return. -/
theorem plays_nil {s : State τ} {m : Moment (Body τ)} {log : List (τ × Option Outcome)}
    (hm : m.futures = s.futures) (hs : s.Linked) (hstage : Stage s m [] log) :
    ∃ as, Plays m log [] s as := by
  generalize hts : ([] : List (Task τ)) = ts at hstage
  cases hstage with
  | starting => cases hts
  | going hinside =>
      subst hts
      generalize hcs : m.running = cs at hinside
      cases hinside with
      | done => exact ⟨[], hm, hs, hcs, (List.append_nil _).symm⟩
      | top c =>
          refine ⟨[.finish], hm, hs, ?_, (List.append_nil _).symm⟩
          exact congrArg List.tail hcs

/-- Every task makes the agenda lighter. -/
theorem take_lighter (s : State τ) (t : Task τ) :
    agendaWeight (s.take t).2.1 + (s.take t).2.2.waiting + 1 ≤ t.weight + s.waiting := by
  cases t with
  | start b =>
      simp only [State.take, Task.weight, weights_map]
      omega
  | report r =>
      simp only [State.take, Task.weight, agendaWeight, total]
      omega
  | op tag does =>
      have hlighter := perform_lighter s does
      rw [State.take, Task.weight]
      generalize s.perform does = performed at hlighter ⊢
      obtain ⟨reply, fired, s'⟩ := performed
      have hanswer : agendaWeight [Task.report (.did tag reply)] = 1 := rfl
      simp only [agendaWeight_append, hanswer, State.load] at hlighter ⊢
      omega

/-- What is played while one task is taken up, and the stage that is then reached. -/
theorem take_plays {s : State τ} {m : Moment (Body τ)} {t : Task τ} {ts : List (Task τ)}
    {log : List (τ × Option Outcome)} (hm : m.futures = s.futures) (hs : s.Linked)
    (hstage : Stage s m (t :: ts) log) :
    ∃ as, (m.acts as).futures = (s.take t).2.2.futures ∧ (s.take t).2.2.Linked ∧
      Stage (s.take t).2.2 (m.acts as) ((s.take t).2.1 ++ ts)
        (log ++ (s.take t).1.toList.filterMap Report.start?) := by
  have hquiet : startLog m ++ [] = startLog m := List.append_nil _
  generalize hagenda : t :: ts = agenda at hstage
  cases hstage with
  | @starting _ log b hinside hlog =>
      -- the continuation has started already
      obtain ⟨rfl, rfl⟩ := List.cons.inj hagenda
      refine ⟨[], hm, hs, ?_⟩
      have hgoing : Stage s m (b.ops.map (.op b.tag) ++ ts) (startLog m) :=
        .going (hinside.ops b.tag b.ops)
      rw [hlog] at hgoing
      exact hgoing
  | going hinside =>
      generalize hcs : m.running = cs at hinside
      cases hinside with
      | done => cases hagenda
      | top c => cases hagenda
      | answer tag reply hrest =>
          obtain ⟨rfl, rfl⟩ := List.cons.inj hagenda
          subst hcs
          refine ⟨[], hm, hs, ?_⟩
          have hgoing : Stage s m ts (startLog m) := .going hrest
          rw [← hquiet] at hgoing
          exact hgoing
      | back tag reply c hrest =>
          obtain ⟨rfl, rfl⟩ := List.cons.inj hagenda
          have hreturned : (m.acts [.finish]).running = _ := congrArg List.tail hcs
          rw [List.tail_cons] at hreturned
          rw [← hreturned] at hrest
          refine ⟨[.finish], hm, hs, ?_⟩
          have hgoing : Stage s (m.acts [.finish]) ts (startLog m) := .going hrest
          rw [← hquiet] at hgoing
          exact hgoing
      | op tag does hrest =>
          obtain ⟨rfl, rfl⟩ := List.cons.inj hagenda
          subst hcs
          obtain ⟨acts, hcomes⟩ := perform_comes hm hs does
          refine ⟨acts, hcomes.futures, hcomes.linked, ?_⟩
          have hinside : Inside (.report (.did tag (s.perform does).1) :: ts)
              (m.acts acts).running := by
            rw [hcomes.running]
            cases (s.perform does).2.1 with
            | none => exact .answer tag _ hrest
            | some b => exact .back tag _ _ hrest
          have hstage := hcomes.stage hinside
          simpa [State.take] using hstage

/-- An agenda is worked off in as many tasks as it comes to, and then every call has returned. -/
theorem drain_plays (fuel : Nat) {ts : List (Task τ)} {s : State τ} {m : Moment (Body τ)}
    {log : List (τ × Option Outcome)} (hm : m.futures = s.futures) (hs : s.Linked)
    (hstage : Stage s m ts log) (hfuel : agendaWeight ts + s.waiting ≤ fuel) :
    ∃ as, Plays m log (State.drain fuel ts s).1 (State.drain fuel ts s).2 as := by
  induction fuel generalizing ts s m log with
  | zero =>
      cases ts with
      | nil => exact plays_nil hm hs hstage
      | cons t ts =>
          have hlighter := take_lighter s t
          rw [agendaWeight, total] at hfuel
          omega
  | succ fuel ih =>
      cases ts with
      | nil => exact plays_nil hm hs hstage
      | cons t ts =>
          have hlighter := take_lighter s t
          have hrest : agendaWeight ((s.take t).2.1 ++ ts) + (s.take t).2.2.waiting ≤ fuel := by
            have hsum : agendaWeight (t :: ts) = t.weight + agendaWeight ts := rfl
            rw [agendaWeight_append]
            omega
          obtain ⟨first, hfutures, hlinked, hstage⟩ := take_plays hm hs hstage
          obtain ⟨rest, hplays⟩ := ih hfutures hlinked hstage hrest
          exact ⟨first ++ rest, hplays.before rfl⟩

/-- An operation of the top level and everything that it fires. -/
theorem step_plays {s : State τ} {m : Moment (Body τ)} (hm : m.futures = s.futures) (hs : s.Linked)
    (hrunning : m.running = []) (op : Op τ) :
    ∃ as, Plays m (startLog m) (s.step op).2.1 (s.step op).2.2 as := by
  have hlighter := perform_lighter s op
  obtain ⟨acts, hcomes⟩ := perform_comes hm hs op
  rw [State.step]
  generalize s.perform op = performed at hlighter hcomes ⊢
  obtain ⟨reply, fired, s'⟩ := performed
  have hinside : Inside [] (m.acts acts).running := by
    rw [hcomes.running, hrunning]
    cases fired with
    | none => exact .done
    | some b => exact .top _
  have hstage := hcomes.stage hinside
  rw [List.append_nil] at hstage
  have hfuel : s'.load fired ≤ op.weight + s.waiting :=
    Nat.le_trans (Nat.le_add_right _ 2) hlighter
  obtain ⟨as, has⟩ := drain_plays _ hcomes.futures hcomes.linked hstage hfuel
  exact ⟨acts ++ as, Plays.before (r := none) has (List.append_nil _).symm⟩

/-- Every script is a play, in which every call has returned at the end. -/
theorem run_plays (ops : List (Op τ)) {s : State τ} {m : Moment (Body τ)}
    (hm : m.futures = s.futures) (hs : s.Linked) (hrunning : m.running = []) :
    ∃ as, Plays m (startLog m) ((run ops s).1.flatMap (·.2)) (run ops s).2 as := by
  induction ops generalizing s m with
  | nil => exact ⟨[], hm, hs, hrunning, (List.append_nil _).symm⟩
  | cons op ops ih =>
      obtain ⟨first, hfirst⟩ := step_plays hm hs hrunning op
      obtain ⟨rest, hrest⟩ := ih hfirst.futures hfirst.linked hfirst.running
      refine ⟨first ++ rest, ?_, hrest.linked, ?_, ?_⟩
      · rw [acts_append]
        exact hrest.futures
      · rw [acts_append]
        exact hrest.running
      · rw [acts_append, hrest.starts, hfirst.starts, List.append_assoc, ← List.filterMap_append]
        rfl

end FutureScript

/-- Futures fire once, whatever user code does, and scripts are user code. -/
theorem FuturePlay.continuations_fire_once {κ τ : Type} :
    (∀ (as : List (Act κ)) f, (play as).FiresOnce f) ∧
    (∀ (as more : List (Act κ)) f o, (play as).futures.outcome? f = some o →
      (play (as ++ more)).futures.outcome? f = some o) ∧
    ∀ ops : List (FutureScript.Op τ), ∃ as,
      (play as).futures = (FutureScript.run ops {}).2.futures ∧ (play as).running = [] ∧
      FutureScript.startLog (play as) =
        ((FutureScript.run ops {}).1.flatMap (·.2)).filterMap FutureScript.Report.start? := by
  refine ⟨fun as f => (play_agrees as f).firesOnce, fun as more f o ho => ?_, fun ops => ?_⟩
  · rw [play_append]
    exact (play_agrees as f).outcome_stays ho more
  · obtain ⟨as, has⟩ :=
      FutureScript.run_plays ops (m := {}) rfl FutureScript.State.linked_initial rfl
    exact ⟨as, has.futures, has.running, has.starts⟩

end Reentrant
