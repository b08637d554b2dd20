import Reentrant.Proofs.ForeseenFaults

/-!
What a host may do to a machine between and within steps, and what becomes of frames meanwhile. The
facts of a machine's life are the loads, the ends of frames and the reports of these ends, and the
frames that were dropped; the machine's frames, its numbering and its exit follow from them.
-/

namespace Reentrant

/-! ### Access -/

inductive Access where
  | load (p : Program)
  | loadEntry (p : Program)
  | push (v : Value)
  | pushTo (id : FrameId) (v : Value)
  | pop
  | raise (id : FrameId) (fault : Fault)
  | block (id : FrameId)
  | unblock (id : FrameId)
  | abort

namespace Machine

/-- A refused access changes nothing. -/
def granted (m : Machine) : Except AccessError Machine → Machine
  | .ok m' => m'
  | .error _ => m

def access (m : Machine) : Access → Machine
  | .load p => (m.load p).2
  | .loadEntry p => (m.loadEntry p).2
  | .push v => m.granted (m.push v)
  | .pushTo id v => m.granted (m.pushTo id v)
  | .pop => m.pop.2
  | .raise id fault => m.granted (m.raise id fault)
  | .block id => m.granted (m.block id)
  | .unblock id => m.granted (m.unblock id)
  | .abort => m.abort.2

def accessAll (m : Machine) (as : List Access) : Machine := as.foldl access m

end Machine

/-! ### Facts -/

/-- What happens to frames. -/
inductive Fact where
  | loaded (id : FrameId) (entry : Bool)
  | dropped (id : FrameId)
  /-- A step ends a frame. -/
  | ended (t : Teardown)
  /-- The teardown hook is called. -/
  | told (t : Teardown)
  deriving DecidableEq

namespace Fact

def load? : Fact → Option FrameId
  | .loaded id _ => some id
  | _ => none

def entry? : Fact → Option FrameId
  | .loaded id true => some id
  | _ => none

def drop? : Fact → Option FrameId
  | .dropped id => some id
  | _ => none

def end? : Fact → Option Teardown
  | .ended t => some t
  | _ => none

def report? : Fact → Option Teardown
  | .told t => some t
  | _ => none

end Fact

def loads (past : List Fact) : List FrameId := past.filterMap Fact.load?

def drops (past : List Fact) : List FrameId := past.filterMap Fact.drop?

def ends (past : List Fact) : List Teardown := past.filterMap Fact.end?

def reports (past : List Fact) : List Teardown := past.filterMap Fact.report?

/-- The frame that was loaded as the entry frame last. -/
def lastEntry (past : List Fact) : Option FrameId := (past.filterMap Fact.entry?).getLast?

section Past

variable (past new : List Fact)

theorem loads_append : loads (past ++ new) = loads past ++ loads new := List.filterMap_append

theorem drops_append : drops (past ++ new) = drops past ++ drops new := List.filterMap_append

theorem ends_append : ends (past ++ new) = ends past ++ ends new := List.filterMap_append

theorem reports_append : reports (past ++ new) = reports past ++ reports new := List.filterMap_append

theorem lastEntry_append :
    lastEntry (past ++ new) = (lastEntry new).or (lastEntry past) := by
  rw [lastEntry, List.filterMap_append, List.getLast?_append]
  rfl

theorem lastEntry_mem {id : FrameId} (h : lastEntry past = some id) : id ∈ loads past := by
  obtain ⟨x, hx, hid⟩ := List.mem_filterMap.1 (List.mem_of_getLast? h)
  refine List.mem_filterMap.2 ⟨x, hx, ?_⟩
  cases x with
  | loaded id' entry =>
      cases entry with
      | true => exact hid
      | false => cases hid
  | _ => cases hid

end Past

/-- What an access makes happen. -/
def Access.facts (m : Machine) : Access → List Fact
  | .load p => [.loaded (m.load p).1 false]
  | .loadEntry p => [.loaded (m.loadEntry p).1 true]
  | .abort => m.frames.map fun f => .dropped f.id
  | _ => []

def Access.factsAll (m : Machine) : List Access → List Fact
  | [] => []
  | a :: as => a.facts m ++ factsAll (m.access a) as

/-- Dropping frames makes nothing else happen. -/
theorem filterMap_dropped {α : Type} {pick : Fact → Option α} (hpick : ∀ id, pick (.dropped id) = none)
    (frames : List Frame) : (frames.map fun f => Fact.dropped f.id).filterMap pick = [] := by
  refine List.filterMap_eq_nil_iff.2 fun x hx => ?_
  obtain ⟨f, -, rfl⟩ := List.mem_map.1 hx
  exact hpick f.id

/-! ### Life -/

/-- The instruction pointer and the handler lie within the code or at its end. -/
def Frame.Placed (f : Frame) : Prop :=
  f.ip ≤ f.program.code.length ∧ ∀ target, f.handler = some target → target ≤ f.program.code.length

/-- The numbers of the frames on the stack, the current one first. -/
def Machine.ids (m : Machine) : List FrameId := m.frames.map (·.id)

/-- The frames of the machine are as the facts of its life have it. -/
structure Stands (m : Machine) (past : List Fact) : Prop where
  descending : m.ids.Pairwise (· > ·)
  below : ∀ id ∈ m.ids, id < m.nextFrame
  positive : 1 ≤ m.nextFrame
  placed : ∀ f ∈ m.frames, f.Placed
  issued : loads past = List.range' 1 (m.nextFrame - 1)
  /-- Every loaded frame is on the stack, or was dropped, or has ended. -/
  accounted : (m.ids ++ (drops past ++ (ends past).map (·.frame))).Perm (loads past)

/-- And so is its exit. -/
structure Lives (m : Machine) (past : List Fact) : Prop extends Stands m past where
  entry : m.entry = lastEntry past ∨ m.entry = none ∧ ∀ id ∈ m.ids, lastEntry past ≠ some id
  exit : ∀ o, m.exit = some o ↔
    ∃ t ∈ ends past, lastEntry past = some t.frame ∧ t.outcome = o

section Stands

variable {m m' : Machine} {past : List Fact} (h : Stands m past)

include h

theorem Stands.nodup : (loads past).Nodup := by
  rw [h.issued]
  exact List.nodup_range'

theorem Stands.lt_next {id : FrameId} (hid : id ∈ loads past) : id < m.nextFrame := by
  rw [h.issued, List.mem_range'_1] at hid
  exact Nat.lt_of_lt_of_eq hid.2 (Nat.add_sub_cancel' h.positive)

/-- No frame that is still on the stack has ended. -/
theorem Stands.not_ended {id : FrameId} (hid : id ∈ m.ids) : ∀ t ∈ ends past, t.frame ≠ id := by
  intro t ht heq
  have hnodup := h.accounted.nodup_iff.2 h.nodup
  refine (List.nodup_append.1 hnodup).2.2 id hid t.frame ?_ heq.symm
  exact List.mem_append_right _ (List.mem_map_of_mem ht)

/-- No frame that was dropped has ended. -/
theorem Stands.dropped_not_ended {id : FrameId} (hid : id ∈ drops past) :
    ∀ t ∈ ends past, t.frame ≠ id := by
  intro t ht heq
  have hnodup := h.accounted.nodup_iff.2 h.nodup
  have hgone := (List.nodup_append.1 hnodup).2.1
  exact (List.nodup_append.1 hgone).2.2 id hid t.frame (List.mem_map_of_mem ht) heq.symm

theorem Stands.ended_mem {t : Teardown} (ht : t ∈ ends past) : t.frame ∈ loads past :=
  h.accounted.mem_iff.1 <|
    List.mem_append_right _ <| List.mem_append_right _ <| List.mem_map_of_mem ht

/-- Changes of frames that leave the stack and the numbering as they are. -/
theorem Stands.of_same (hids : m'.ids = m.ids) (hplaced : ∀ f ∈ m'.frames, f.Placed)
    (hnext : m'.nextFrame = m.nextFrame) : Stands m' past where
  descending := by rw [hids]; exact h.descending
  below := by rw [hids, hnext]; exact h.below
  positive := by rw [hnext]; exact h.positive
  placed := hplaced
  issued := by rw [hnext]; exact h.issued
  accounted := by rw [hids]; exact h.accounted

/-- A program is loaded under a new number. -/
theorem Stands.load (p : Program) (entry : Bool) :
    Stands (m.load p).2 (past ++ [.loaded m.nextFrame entry]) := by
  have hids : (m.load p).2.ids = m.nextFrame :: m.ids := rfl
  have hnext : (m.load p).2.nextFrame = m.nextFrame + 1 := rfl
  constructor
  case descending =>
    rw [hids]
    exact List.pairwise_cons.2 ⟨h.below, h.descending⟩
  case below =>
    rw [hids, hnext, List.forall_mem_cons]
    exact ⟨Nat.lt_succ_self _, fun id hid => Nat.lt_succ_of_lt (h.below id hid)⟩
  case positive => exact Nat.le_add_left 1 _
  case placed =>
    refine List.forall_mem_cons.2 ⟨⟨Nat.zero_le _, fun target htarget => ?_⟩, h.placed⟩
    cases htarget
  case issued =>
    have hlast :=
      calc
        List.range' 1 m.nextFrame = List.range' 1 (m.nextFrame - 1 + 1) := by
          rw [Nat.sub_add_cancel h.positive]
        _ = List.range' 1 (m.nextFrame - 1) ++ [1 + 1 * (m.nextFrame - 1)] := List.range'_concat
        _ = List.range' 1 (m.nextFrame - 1) ++ [m.nextFrame] := by
          rw [Nat.one_mul, Nat.add_sub_cancel' h.positive]
    rw [loads_append, h.issued, hnext, Nat.add_sub_cancel, hlast]
    rfl
  case accounted =>
    have hloads : loads [.loaded m.nextFrame entry] = [m.nextFrame] := rfl
    have hdrops : drops [.loaded m.nextFrame entry] = [] := rfl
    have hends : ends [.loaded m.nextFrame entry] = [] := rfl
    rw [hids, loads_append, drops_append, ends_append, hloads, hdrops, hends, List.append_nil,
      List.append_nil, List.cons_append]
    exact (h.accounted.cons m.nextFrame).trans (List.perm_append_singleton _ _).symm

/-- Frames are dropped all at once. -/
theorem Stands.abort :
    Stands m.abort.2 (past ++ m.frames.map fun f => .dropped f.id) := by
  have hloads : loads (m.frames.map fun f => .dropped f.id) = [] :=
    filterMap_dropped (fun _ => rfl) m.frames
  have hends : ends (m.frames.map fun f => .dropped f.id) = [] :=
    filterMap_dropped (fun _ => rfl) m.frames
  have hdrops : drops (m.frames.map fun f => .dropped f.id) = m.ids := by
    rw [drops, List.filterMap_map]
    exact congrFun List.filterMap_eq_map m.frames
  constructor
  case descending => exact List.Pairwise.nil
  case below => exact fun id hid => absurd hid List.not_mem_nil
  case positive => exact h.positive
  case placed => exact fun f hf => absurd hf List.not_mem_nil
  case issued => rw [loads_append, hloads, List.append_nil]; exact h.issued
  case accounted =>
    rw [loads_append, drops_append, ends_append, hloads, hdrops, hends, List.append_nil,
      List.append_nil]
    refine List.Perm.trans ?_ h.accounted
    rw [← List.append_assoc m.ids]
    exact List.perm_append_comm.append_right _

end Stands

namespace Lives

variable {m m' : Machine} {past : List Fact}

theorem initial (l : Limits) : Lives { limits := l } [] where
  descending := List.Pairwise.nil
  below := fun id hid => absurd hid List.not_mem_nil
  positive := Nat.le_refl 1
  placed := fun f hf => absurd hf List.not_mem_nil
  issued := rfl
  accounted := List.Perm.refl _
  entry := Or.inl rfl
  exit := by simp [ends]

variable (h : Lives m past)

include h

theorem of_same (hids : m'.ids = m.ids) (hplaced : ∀ f ∈ m'.frames, f.Placed)
    (hnext : m'.nextFrame = m.nextFrame) (hentry : m'.entry = m.entry) (hexit : m'.exit = m.exit) :
    Lives m' past where
  toStands := h.toStands.of_same hids hplaced hnext
  entry := by rw [hids, hentry]; exact h.entry
  exit := by rw [hexit]; exact h.exit

theorem load (p : Program) : Lives (m.load p).2 (past ++ [.loaded m.nextFrame false]) where
  toStands := h.toStands.load p false
  entry := by
    have hlast : lastEntry (past ++ [.loaded m.nextFrame false]) = lastEntry past := by
      rw [lastEntry_append]
      rfl
    rw [hlast]
    refine h.entry.imp_right (And.imp_right fun hids => List.forall_mem_cons.2 ⟨?_, hids⟩)
    intro heq
    exact Nat.lt_irrefl _ (h.lt_next (lastEntry_mem past heq))
  exit := by
    rw [lastEntry_append, ends_append]
    exact fun o => (h.exit o).trans (by simp [lastEntry, ends, Fact.entry?, Fact.end?])

theorem loadEntry (p : Program) :
    Lives (m.loadEntry p).2 (past ++ [.loaded m.nextFrame true]) where
  toStands := (h.toStands.load p true).of_same rfl (h.toStands.load p true).placed rfl
  entry := Or.inl (by rw [lastEntry_append]; rfl)
  exit := by
    have hlast : lastEntry (past ++ [.loaded m.nextFrame true]) = some m.nextFrame := by
      rw [lastEntry_append]
      rfl
    have hends : ends (past ++ [.loaded m.nextFrame true]) = ends past :=
      (ends_append _ _).trans (List.append_nil _)
    intro o
    rw [hlast, hends]
    refine iff_of_false (Option.some_ne_none o).symm ?_
    rintro ⟨t, ht, heq, -⟩
    exact Nat.ne_of_lt (h.lt_next (h.ended_mem ht)) (Option.some.inj heq).symm

theorem abort : Lives m.abort.2 (past ++ m.frames.map fun f => .dropped f.id) where
  toStands := h.toStands.abort
  entry := Or.inr ⟨rfl, fun id hid => absurd hid List.not_mem_nil⟩
  exit := by
    have hentries : lastEntry (m.frames.map fun f => .dropped f.id) = none := by
      rw [lastEntry, filterMap_dropped (fun _ => rfl) m.frames]
      rfl
    have hends : ends (m.frames.map fun f => .dropped f.id) = [] :=
      filterMap_dropped (fun _ => rfl) m.frames
    rw [lastEntry_append, ends_append, hentries, hends, List.append_nil]
    exact h.exit

/-- What changes only operands, a fault that waits or whether a frame is blocked. -/
theorem granted {change : Frame → Frame} (hid : ∀ f, (change f).id = f.id)
    (hchange : ∀ f, f.Placed → (change f).Placed) (id : FrameId) :
    Lives (m.granted (m.modifyFrame id change)) past := by
  rw [Machine.modifyFrame]
  by_cases hhas : m.hasFrame id = true
  · rw [if_pos hhas, Machine.granted]
    refine h.of_same ?_ ?_ rfl rfl rfl
    · simp only [Machine.ids, List.map_map]
      apply List.map_congr_left
      intro f _
      by_cases heq : f.id = id <;> simp [heq, hid]
    · intro f hf
      obtain ⟨g, hg, rfl⟩ := List.mem_map.1 hf
      by_cases heq : g.id = id
      · rw [if_pos heq]
        exact hchange g (h.placed g hg)
      · rw [if_neg heq]
        exact h.placed g hg
  · rw [if_neg hhas]
    exact h

/-- Another frame in the place of the current one. -/
theorem replace {f g : Frame} {below : List Frame} (hframes : m.frames = f :: below)
    (hid : g.id = f.id) (hplaced : g.Placed) {m' : Machine} (hframes' : m'.frames = g :: below)
    (hnext : m'.nextFrame = m.nextFrame) (hentry : m'.entry = m.entry) (hexit : m'.exit = m.exit) :
    Lives m' past := by
  apply h.of_same _ _ hnext hentry hexit
  · rw [Machine.ids, Machine.ids, hframes, hframes', List.map_cons, List.map_cons, hid]
  · rw [hframes', List.forall_mem_cons]
    refine ⟨hplaced, fun f hf => h.placed f ?_⟩
    rw [hframes]
    exact List.mem_cons_of_mem _ hf

/-- Every access keeps to the facts. -/
theorem access (a : Access) : Lives (m.access a) (past ++ a.facts m) := by
  have hplaced : ∀ f below, m.frames = f :: below → f.Placed := fun f below hframes =>
    h.placed f (hframes ▸ List.mem_cons_self)
  have hquiet : a.facts m = [] → Lives (m.access a) past → Lives (m.access a) (past ++ a.facts m) := by
    intro hfacts hlives
    rw [hfacts, List.append_nil]
    exact hlives
  cases a with
  | load p => exact h.load p
  | loadEntry p => exact h.loadEntry p
  | abort => exact h.abort
  | pushTo id v =>
      apply hquiet rfl
      rw [Machine.access, Machine.pushTo]
      apply h.granted
      · exact fun f => rfl
      · exact fun f hf => hf
  | raise id fault =>
      apply hquiet rfl
      rw [Machine.access, Machine.raise]
      apply h.granted
      · exact fun f => rfl
      · exact fun f hf => hf
  | block id =>
      apply hquiet rfl
      rw [Machine.access, Machine.block]
      apply h.granted
      · exact fun f => rfl
      · exact fun f hf => hf
  | unblock id =>
      apply hquiet rfl
      rw [Machine.access, Machine.unblock]
      apply h.granted
      · exact fun f => rfl
      · exact fun f hf => hf
  | push v =>
      apply hquiet rfl
      rw [Machine.access, Machine.push]
      cases hframes : m.frames with
      | nil => exact h
      | cons f below =>
          exact h.replace (g := { f with stack := v :: f.stack }) hframes rfl
            (hplaced f below hframes) rfl rfl rfl rfl
  | pop =>
      apply hquiet rfl
      rw [Machine.access, Machine.pop]
      cases hframes : m.frames with
      | nil => exact h
      | cons f below =>
          cases hstack : f.stack with
          | nil =>
              simp only [hstack]
              exact h
          | cons v rest =>
              simp only [hstack]
              exact h.replace (g := { f with stack := rest }) hframes rfl
                (hplaced f below hframes) rfl rfl rfl rfl

theorem accessAll (as : List Access) : Lives (m.accessAll as) (past ++ Access.factsAll m as) := by
  induction as generalizing m past with
  | nil =>
      rw [Access.factsAll, List.append_nil]
      exact h
  | cons a as ih =>
      rw [Access.factsAll, ← List.append_assoc]
      exact ih (h.access a)

end Lives

end Reentrant
