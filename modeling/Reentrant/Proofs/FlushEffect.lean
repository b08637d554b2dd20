import Reentrant.Proofs.TaskDrive

/-!
What a flush does to the machine and to the bridge's bookkeeping. Programs are loaded on top in the
order of their issue, each under the next frame number, and the one result that can be queued reaches
its calling frame.
-/

namespace Reentrant

variable {σ : Type}

/-! ### Loading -/

namespace Limits

/-- The frame of program `p` as it is loaded under the number `id` onto `depth` frames. -/
def fresh (l : Limits) (id : FrameId) (depth : Nat) (p : Program) : Frame :=
  { id, program := p
    pendingFault := if l.maxFrames ≤ depth then some (.overflow l.maxFrames) else none }

/-- The frames of programs, newest first, the oldest of them loaded under `id` onto `depth` frames. -/
def freshAll (l : Limits) : (id : FrameId) → (depth : Nat) → List Program → List Frame
  | _, _, [] => []
  | id, depth, p :: ps => l.freshAll (id + 1) (depth + 1) ps ++ [l.fresh id depth p]

theorem ids_freshAll (l : Limits) (id : FrameId) (depth : Nat) (ps : List Program) :
    (l.freshAll id depth ps).map (·.id) = (List.range' id ps.length).reverse := by
  induction ps generalizing id depth with
  | nil => rfl
  | cons p ps ih =>
      rw [freshAll, List.map_append, ih, List.length_cons, List.range'_succ, List.reverse_cons]
      rfl

theorem id_mem_freshAll {l : Limits} {id : FrameId} {depth : Nat} {ps : List Program} {f : Frame}
    (hf : f ∈ l.freshAll id depth ps) : id ≤ f.id ∧ f.id < id + ps.length := by
  have hmem : f.id ∈ (l.freshAll id depth ps).map (·.id) := List.mem_map_of_mem hf
  rw [ids_freshAll, List.mem_reverse, List.mem_range'_1] at hmem
  exact hmem

/-- Each frame is that of one of the programs. -/
theorem exists_of_mem_freshAll {l : Limits} {id : FrameId} {depth : Nat} {ps : List Program}
    {f : Frame} (hf : f ∈ l.freshAll id depth ps) :
    ∃ id' depth' p, p ∈ ps ∧ f = l.fresh id' depth' p := by
  induction ps generalizing id depth with
  | nil => cases hf
  | cons p ps ih =>
      rw [freshAll, List.mem_append, List.mem_singleton] at hf
      rcases hf with hf | rfl
      · obtain ⟨id', depth', q, hq, rfl⟩ := ih hf
        exact ⟨id', depth', q, List.mem_cons_of_mem _ hq, rfl⟩
      · exact ⟨id, depth, p, List.mem_cons_self, rfl⟩

theorem blocked_mem_freshAll {l : Limits} {id : FrameId} {depth : Nat} {ps : List Program}
    {f : Frame} (hf : f ∈ l.freshAll id depth ps) : f.blocked = false := by
  obtain ⟨id', depth', p, -, rfl⟩ := exists_of_mem_freshAll hf
  rfl

end Limits

namespace Machine

/-- Loads programs one after the other. -/
def loadAll (m : Machine) : List Program → Machine
  | [] => m
  | p :: ps => (m.load p).2.loadAll ps

theorem load_eq (m : Machine) (p : Program) :
    m.load p =
      (m.nextFrame, { m with
        frames := m.limits.fresh m.nextFrame m.frames.length p :: m.frames
        nextFrame := m.nextFrame + 1 }) :=
  rfl

theorem loadAll_eq (m : Machine) (ps : List Program) :
    m.loadAll ps =
      { m with
        frames := m.limits.freshAll m.nextFrame m.frames.length ps ++ m.frames
        nextFrame := m.nextFrame + ps.length } := by
  induction ps generalizing m with
  | nil => rfl
  | cons p ps ih =>
      rw [loadAll, ih, load_eq]
      simp only [Limits.freshAll, List.length_cons, List.append_assoc, List.singleton_append]
      rw [Nat.add_assoc, Nat.add_comm 1]

end Machine

/-! ### Answering a caller -/

/-- The frame as it goes on with the result of its native call. -/
def Frame.receive (f : Frame) : DispatchResult → Frame
  | .void => { f with blocked := false }
  | .value v => { f with blocked := false, stack := v :: f.stack }
  | .fault e => { f with blocked := false, pendingFault := f.pendingFault.or (some e) }

@[simp] theorem Frame.id_receive (f : Frame) (r : DispatchResult) : (f.receive r).id = f.id := by
  cases r <;> rfl

@[simp] theorem Frame.blocked_receive (f : Frame) (r : DispatchResult) :
    (f.receive r).blocked = false := by
  cases r <;> rfl

/-- The frame once the frame `caller` has been brought the result, if there is one. -/
def Frame.answered (caller : FrameId) (r : Option DispatchResult) (f : Frame) : Frame :=
  match r with
  | none => f
  | some r => if f.id = caller then f.receive r else f

@[simp] theorem Frame.id_answered (caller : FrameId) (r : Option DispatchResult) (f : Frame) :
    (f.answered caller r).id = f.id := by
  cases r with
  | none => rfl
  | some r =>
      rw [answered]
      split
      · rw [id_receive]
      · rfl

theorem ids_answered (caller : FrameId) (r : Option DispatchResult) (frames : List Frame) :
    (frames.map (Frame.answered caller r)).map (·.id) = frames.map (·.id) := by
  rw [List.map_map]
  exact List.map_congr_left fun f _ => Frame.id_answered caller r f

/-- A result reaches its caller only. -/
theorem map_answered_of_ne {caller : FrameId} {frames : List Frame}
    (h : ∀ f ∈ frames, f.id ≠ caller) (r : Option DispatchResult) :
    frames.map (Frame.answered caller r) = frames := by
  refine (List.map_congr_left fun f hf => ?_).trans (List.map_id' frames)
  cases r with
  | none => rfl
  | some r => exact if_neg (h f hf)

namespace Machine

/-- The machine with the frame `id` changed. -/
def mapFrame (m : Machine) (id : FrameId) (change : Frame → Frame) : Machine :=
  { m with frames := m.frames.map fun f => if f.id = id then change f else f }

/-- Brings a result, if there is one, to the frame `caller`. -/
def answer (m : Machine) (caller : FrameId) : Option DispatchResult → Machine
  | none => m
  | some r => m.mapFrame caller (·.receive r)

theorem hasFrame_iff {m : Machine} {id : FrameId} :
    m.hasFrame id = true ↔ ∃ f ∈ m.frames, f.id = id := by
  rw [hasFrame, frame?, List.find?_isSome]
  simp only [beq_iff_eq]

theorem hasFrame_loadAll {m : Machine} {id : FrameId} (h : m.hasFrame id = true)
    (ps : List Program) : (m.loadAll ps).hasFrame id = true := by
  obtain ⟨f, hf, hid⟩ := hasFrame_iff.1 h
  rw [loadAll_eq]
  exact hasFrame_iff.2 ⟨f, List.mem_append_right _ hf, hid⟩

theorem hasFrame_mapFrame {m : Machine} {id : FrameId} (h : m.hasFrame id = true)
    {change : Frame → Frame} (hchange : ∀ f, (change f).id = f.id) :
    (m.mapFrame id change).hasFrame id = true := by
  obtain ⟨f, hf, hid⟩ := hasFrame_iff.1 h
  exact hasFrame_iff.2 ⟨_, List.mem_map_of_mem hf, by rw [if_pos hid, hchange, hid]⟩

theorem modifyFrame_eq {m : Machine} {id : FrameId} (h : m.hasFrame id = true)
    (change : Frame → Frame) : m.modifyFrame id change = .ok (m.mapFrame id change) := by
  rw [modifyFrame, if_pos h, mapFrame]

theorem mapFrame_mapFrame (m : Machine) (id : FrameId) (first second : Frame → Frame)
    (hfirst : ∀ f, (first f).id = f.id) :
    (m.mapFrame id first).mapFrame id second = m.mapFrame id fun f => second (first f) := by
  rw [mapFrame, mapFrame, mapFrame, List.map_map]
  congr 1
  refine List.map_congr_left fun f _ => ?_
  by_cases hid : f.id = id <;> simp [hid, hfirst]

/-- Changing the current frame. -/
theorem mapFrame_top {m : Machine} {f : Frame} {below : List Frame} (hframes : m.frames = f :: below)
    (hbelow : ∀ g ∈ below, g.id ≠ f.id) (change : Frame → Frame) :
    m.mapFrame f.id change = { m with frames := change f :: below } := by
  rw [mapFrame, hframes, List.map_cons, if_pos rfl,
    List.map_congr_left fun g hg => if_neg (hbelow g hg), List.map_id']

/-- Loading programs for an old frame and bringing it its result do not get in each other's way. -/
theorem loadAll_answer (m : Machine) (ps : List Program) {caller : FrameId}
    (hcaller : caller < m.nextFrame) (r : Option DispatchResult) :
    (m.loadAll ps).answer caller r =
      { m with
        frames := m.limits.freshAll m.nextFrame m.frames.length ps ++
          m.frames.map (Frame.answered caller r)
        nextFrame := m.nextFrame + ps.length } := by
  rw [loadAll_eq]
  cases r with
  | none =>
      have hsame : m.frames.map (Frame.answered caller none) = m.frames := List.map_id' m.frames
      rw [answer, hsame]
  | some r =>
      have hfresh : ∀ f ∈ m.limits.freshAll m.nextFrame m.frames.length ps, f.id ≠ caller :=
        fun f hf => Nat.ne_of_gt (Nat.lt_of_lt_of_le hcaller (Limits.id_mem_freshAll hf).1)
      simp only [answer, mapFrame, List.map_append]
      rw [List.map_congr_left fun f hf => if_neg (hfresh f hf), List.map_id']
      rfl

/-- What neither loading nor answering touches. -/
theorem loadAll_answer_keeps (m : Machine) (ps : List Program) (caller : FrameId)
    (r : Option DispatchResult) :
    ((m.loadAll ps).answer caller r).limits = m.limits ∧
      ((m.loadAll ps).answer caller r).entry = m.entry ∧
      ((m.loadAll ps).answer caller r).exit = m.exit ∧
      ((m.loadAll ps).answer caller r).logged = m.logged := by
  rw [loadAll_eq]
  cases r <;> exact ⟨rfl, rfl, rfl, rfl⟩

end Machine

theorem Bridge.deliver_eq {m : Machine} {caller : FrameId} (h : m.hasFrame caller = true)
    (r : DispatchResult) : deliver ⟨caller, r⟩ m = .ok (m.answer caller (some r)) := by
  have hunblock : (m.mapFrame caller fun f => { f with blocked := false }).hasFrame caller = true :=
    Machine.hasFrame_mapFrame h fun _ => rfl
  rw [deliver, Machine.unblock, Machine.modifyFrame_eq h]
  cases r with
  | void => rfl
  | value v =>
      simp only [Machine.pushTo]
      rw [Machine.modifyFrame_eq hunblock, Machine.mapFrame_mapFrame _ _ _ _ (by intro f; rfl)]
      rfl
  | fault e =>
      simp only [Machine.raise]
      rw [Machine.modifyFrame_eq hunblock, Machine.mapFrame_mapFrame _ _ _ _ (by intro f; rfl)]
      rfl

/-! ### The table of pending invocations -/

namespace PendingTable

theorem place_last {e : FrameId × FutureId} {es : List (FrameId × FutureId)}
    (h : ∀ d ∈ es, d.1 < e.1) : place e es = es ++ [e] := by
  induction es with
  | nil => rfl
  | cons d es ih =>
      have hd : ¬e.1 < d.1 := Nat.not_lt.2 (Nat.le_of_lt (h d List.mem_cons_self))
      rw [place, if_neg hd, ih fun d' hd' => h d' (List.mem_cons_of_mem _ hd'), List.cons_append]

/-- A frame and a future that are newer than all others are entered last. -/
theorem insert_newest {t : PendingTable} {frame : FrameId} {f : FutureId}
    (h : ∀ e ∈ t.entries, e.1 < frame ∧ e.2 < f) :
    t.insert frame f = .ok ⟨t.entries ++ [(frame, f)]⟩ := by
  have hframe : ¬t.contains frame = true := by
    intro hany
    obtain ⟨e, he, heq⟩ := List.any_eq_true.1 hany
    rw [beq_iff_eq] at heq
    exact Nat.ne_of_lt (h e he).1 heq
  have hfuture : ¬(t.entries.any (·.2 == f)) = true := by
    intro hany
    obtain ⟨e, he, heq⟩ := List.any_eq_true.1 hany
    rw [beq_iff_eq] at heq
    exact Nat.ne_of_lt (h e he).2 heq
  rw [insert, if_neg hframe, if_neg hfuture, place_last fun d hd => (h d hd).1]

/-- Taking out the newest frame. -/
theorem remove_newest {es : List (FrameId × FutureId)} {frame : FrameId} {f : FutureId}
    (h : ∀ e ∈ es, e.1 < frame) :
    (⟨es ++ [(frame, f)]⟩ : PendingTable).remove frame = (some f, ⟨es⟩) := by
  have hne : ∀ e ∈ es, e.1 ≠ frame := fun e he => Nat.ne_of_lt (h e he)
  have hfind : es.find? (·.1 == frame) = none :=
    List.find?_eq_none.2 fun e he => by simpa using hne e he
  have hfilter : es.filter (·.1 != frame) = es :=
    List.filter_eq_self.2 fun e he => by simpa using hne e he
  simp [remove, List.find?_append, hfind, hfilter]

/-- A frame that is not there. -/
theorem remove_absent {t : PendingTable} {frame : FrameId} (h : ∀ e ∈ t.entries, e.1 ≠ frame) :
    t.remove frame = (none, t) := by
  have hfind : t.entries.find? (·.1 == frame) = none :=
    List.find?_eq_none.2 fun e he => by simpa using h e he
  have hfilter : t.entries.filter (·.1 != frame) = t.entries :=
    List.filter_eq_self.2 fun e he => by simpa using h e he
  simp [remove, hfind, hfilter]

end PendingTable

/-- The table's entries for programs loaded from the frame `id` and the future `next` on. -/
def entered : (id : FrameId) → (next : FutureId) → List Program → List (FrameId × FutureId)
  | _, _, [] => []
  | id, next, _ :: ps => (id, next) :: entered (id + 1) (next + 1) ps

/-! ### The journal -/

/-- Records events in order. -/
def Journal.recordAll (j : Journal) (es : List Event) : Journal := es.foldl Journal.record j

/-- The events of loading programs for `caller`, from the frame `id` on. -/
def loadEvents (caller : FrameId) : (id : FrameId) → List Program → List Event
  | _, [] => []
  | id, p :: ps => .frameLoaded id p.name caller :: loadEvents caller (id + 1) ps

/-! ### The flush -/

namespace Bridge

/-- The bookkeeping of programs loaded for `caller`, from the frame `id` and the future `next` on. -/
def loaded (b : Bridge σ) (caller : FrameId) (id : FrameId) (next : FutureId)
    (ps : List Program) : Bridge σ :=
  { b with
    table := ⟨b.table.entries ++ entered id next ps⟩
    journal := b.journal.recordAll (loadEvents caller id ps) }

theorem loadAll_invocations (caller : FrameId) (ps : List Program) {next : FutureId} {m : Machine}
    {b : Bridge σ} (h : ∀ e ∈ b.table.entries, e.1 < m.nextFrame ∧ e.2 < next) :
    loadAll (invocations caller next ps) m b =
      (.ok (), m.loadAll ps, b.loaded caller m.nextFrame next ps) := by
  induction ps generalizing next m b with
  | nil => simp [invocations, loadAll, Machine.loadAll, loaded, entered, loadEvents,
      Journal.recordAll]
  | cons p ps ih =>
      have hinsert : (b.record (.frameLoaded m.nextFrame p.name caller)).table.insert m.nextFrame
          next = .ok ⟨b.table.entries ++ [(m.nextFrame, next)]⟩ := PendingTable.insert_newest h
      simp only [invocations, loadAll, Machine.load] at hinsert ⊢
      rw [hinsert]
      simp only
      rw [ih]
      · simp [Machine.loadAll, Machine.load, loaded, entered, loadEvents, Journal.recordAll, record]
      · intro e he
        rw [List.mem_append, List.mem_singleton] at he
        rcases he with he | rfl
        · have hlt := h e he
          exact ⟨Nat.lt_succ_of_lt hlt.1, Nat.lt_succ_of_lt hlt.2⟩
        · exact ⟨Nat.lt_succ_self _, Nat.lt_succ_self _⟩

/-- A flush of the programs that one poll asked for and of at most one result, both of the same
caller. -/
theorem flush_eq {m : Machine} {b : Bridge σ} (caller : FrameId) (next : FutureId)
    (ps : List Program) (r : Option DispatchResult) (hfatal : b.fatal = none)
    (houtbox : b.outbox = invocations caller next ps)
    (hcompletions : b.completions = r.toList.map (Completion.mk caller))
    (hentries : ∀ e ∈ b.table.entries, e.1 < m.nextFrame ∧ e.2 < next)
    (hcaller : r.isSome → m.hasFrame caller = true) :
    flush m b =
      (.ok (), (m.loadAll ps).answer caller r,
        { b.loaded caller m.nextFrame next ps with outbox := [], completions := [] }) := by
  have hload : loadAll (invocations caller next ps) m { b with outbox := [] } =
      (.ok (), m.loadAll ps,
        ({ b with outbox := [] } : Bridge σ).loaded caller m.nextFrame next ps) :=
    loadAll_invocations caller ps hentries
  cases b
  subst hfatal houtbox hcompletions
  simp only at hload
  simp only [flush, hload, loaded]
  cases r with
  | none => rfl
  | some r => simp [deliverAll, deliver_eq (Machine.hasFrame_loadAll (hcaller rfl) ps)]

end Bridge

end Reentrant
