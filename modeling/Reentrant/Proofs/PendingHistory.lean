import Mathlib.Data.List.Nodup
import Reentrant.Proofs.OrderedInsertion

/-!
The table through any row of commands. Which future stands for a frame is said here by the history of
the commands and their answers alone: the one of the last granted insertion of that frame, unless it was
removed or cleared since. The table holds exactly these, in the order of the frames, and never one
future under two of them.
-/

namespace Reentrant.PendingTable

/-! ### Commands and answers -/

/-- What a table can be told to do. -/
inductive Command where
  | insert (frame : FrameId) (f : FutureId)
  | remove (frame : FrameId)
  | clear
  deriving DecidableEq

inductive Answer where
  | entered
  | refused (e : BridgeError)
  | removed (f : Option FutureId)
  | cleared (dropped : Nat)
  deriving DecidableEq

/-- A refused insertion leaves the table. -/
def perform (t : PendingTable) : Command → Answer × PendingTable
  | .insert frame f =>
      match t.insert frame f with
      | .ok t' => (.entered, t')
      | .error e => (.refused e, t)
  | .remove frame => (.removed (t.remove frame).1, (t.remove frame).2)
  | .clear => (.cleared t.clear.1, t.clear.2)

/-- The table after commands. -/
def after (t : PendingTable) (cs : List Command) : PendingTable :=
  cs.foldl (fun t c => (t.perform c).2) t

/-- The commands with their answers. -/
def exchanges : PendingTable → List Command → List (Command × Answer)
  | _, [] => []
  | t, c :: cs => (c, (t.perform c).1) :: exchanges (t.perform c).2 cs

/-- How one exchange changes which future stands for a frame. -/
def restand (frame : FrameId) (held : Option FutureId) : Command × Answer → Option FutureId
  | (.insert g f, .entered) => if g = frame then some f else held
  | (.remove g, _) => if g = frame then none else held
  | (.clear, _) => none
  | _ => held

/-- The future of the last granted insertion of a frame that was neither removed nor cleared since. -/
def standing (frame : FrameId) (past : List (Command × Answer)) : Option FutureId :=
  past.foldl (restand frame) none

theorem standing_concat (frame : FrameId) (past : List (Command × Answer)) (x : Command × Answer) :
    standing frame (past ++ [x]) = restand frame (standing frame past) x := by
  rw [standing, List.foldl_append]
  rfl

/-! ### Entries -/

theorem mem_frames_iff {t : PendingTable} {frame : FrameId} :
    frame ∈ t.frames ↔ ∃ f, (frame, f) ∈ t.entries := by
  simp [frames]

theorem contains_iff {t : PendingTable} {frame : FrameId} :
    t.contains frame = true ↔ frame ∈ t.frames := by
  simp [contains, frames]

/-- Why an insertion is granted or refused. -/
theorem insert_cases (t : PendingTable) (frame : FrameId) (f : FutureId) :
    (frame ∈ t.frames ∧ t.insert frame f = .error (.duplicateFrame frame)) ∨
    (frame ∉ t.frames ∧ (∃ other, (other, f) ∈ t.entries) ∧
      t.insert frame f = .error (.sharedFuture frame)) ∨
    (frame ∉ t.frames ∧ (∀ other, (other, f) ∉ t.entries) ∧
      t.insert frame f = .ok ⟨place (frame, f) t.entries⟩) := by
  have hshared : (t.entries.any (·.2 == f)) = true ↔ ∃ other, (other, f) ∈ t.entries := by
    simp
  by_cases hframe : frame ∈ t.frames
  · exact .inl ⟨hframe, if_pos (contains_iff.2 hframe)⟩
  · rw [insert, if_neg (mt contains_iff.1 hframe)]
    by_cases hfuture : ∃ other, (other, f) ∈ t.entries
    · exact .inr (.inl ⟨hframe, hfuture, if_pos (hshared.2 hfuture)⟩)
    · exact .inr (.inr ⟨hframe, not_exists.1 hfuture, if_neg (mt hshared.1 hfuture)⟩)

theorem mem_remove {t : PendingTable} {frame : FrameId} {e : FrameId × FutureId} :
    e ∈ (t.remove frame).2.entries ↔ e ∈ t.entries ∧ e.1 ≠ frame := by
  simp [remove]

/-- The future that a removal gives is the one under the frame. -/
theorem removed_eq_some_iff {t : PendingTable} (h : Ordered t.entries) {frame : FrameId}
    {f : FutureId} : (t.remove frame).1 = some f ↔ (frame, f) ∈ t.entries := by
  obtain ⟨es⟩ := t
  show (es.find? (·.1 == frame)).map (·.2) = some f ↔ (frame, f) ∈ es
  induction es with
  | nil => simp
  | cons d es ih =>
      obtain ⟨hd, hes⟩ := List.pairwise_cons.1 h
      obtain ⟨g, k⟩ := d
      by_cases hg : g = frame
      · subst hg
        have hnone : (g, f) ∉ es := fun hmem => Nat.lt_irrefl g (hd _ hmem)
        simp [hnone, eq_comm]
      · simpa [hg, Ne.symm hg] using ih hes

/-! ### The table and its history -/

/-- The table holds what stands by its history, in order, and no future twice. -/
structure Records (t : PendingTable) (past : List (Command × Answer)) : Prop where
  ordered : Ordered t.entries
  futures : (t.entries.map (·.2)).Nodup
  mem : ∀ frame f, (frame, f) ∈ t.entries ↔ standing frame past = some f

theorem records_empty : Records {} [] where
  ordered := .nil
  futures := .nil
  mem frame f := by simp [standing]

namespace Records

variable {t : PendingTable} {past : List (Command × Answer)}

theorem removed (h : t.Records past) (frame : FrameId) :
    (t.remove frame).1 = standing frame past :=
  Option.ext fun f => (removed_eq_some_iff h.ordered).trans (h.mem frame f)

/-- Every command keeps it so. -/
theorem perform (h : t.Records past) (c : Command) :
    Records (t.perform c).2 (past ++ [(c, (t.perform c).1)]) := by
  cases c with
  | insert frame f =>
      rcases t.insert_cases frame f with ⟨-, heq⟩ | ⟨-, -, heq⟩ | ⟨hframe, hfuture, heq⟩
      · simp only [PendingTable.perform, heq]
        exact ⟨h.ordered, h.futures, fun g k => by rw [standing_concat]; exact h.mem g k⟩
      · simp only [PendingTable.perform, heq]
        exact ⟨h.ordered, h.futures, fun g k => by rw [standing_concat]; exact h.mem g k⟩
      · simp only [PendingTable.perform, heq]
        have hperm := place_perm (frame, f) t.entries
        refine ⟨ordered_place h.ordered ?_, ?_, fun g k => ?_⟩
        · rintro ⟨g, k⟩ hmem rfl
          exact hframe (mem_frames_iff.2 ⟨k, hmem⟩)
        · refine ((hperm.map (·.2)).nodup_iff).2 (List.nodup_cons.2 ⟨fun hmem => ?_, h.futures⟩)
          obtain ⟨⟨g, k⟩, hentry, rfl⟩ := List.mem_map.1 hmem
          exact hfuture g hentry
        · rw [standing_concat, restand, hperm.mem_iff, List.mem_cons, Prod.mk.injEq]
          by_cases hg : frame = g
          · subst hg
            have hnone : (frame, k) ∉ t.entries := fun hmem => hframe (mem_frames_iff.2 ⟨k, hmem⟩)
            simp [hnone, eq_comm]
          · rw [if_neg hg, ← h.mem]
            simp [Ne.symm hg]
  | remove frame =>
      refine ⟨h.ordered.filter _, h.futures.sublist (List.filter_sublist.map _), fun g k => ?_⟩
      rw [standing_concat]
      show (g, k) ∈ (t.remove frame).2.entries ↔
        (if frame = g then none else standing g past) = some k
      rw [mem_remove, h.mem]
      by_cases hg : frame = g
      · simp [hg]
      · simp [hg, Ne.symm hg]
  | clear =>
      refine ⟨.nil, .nil, fun g k => ?_⟩
      simp [standing_concat, restand, PendingTable.perform, clear]

/-- So does a row of commands. -/
theorem performed (h : t.Records past) (cs : List Command) :
    Records (t.after cs) (past ++ t.exchanges cs) := by
  induction cs generalizing t past with
  | nil => simpa [after, exchanges] using h
  | cons c cs ih =>
      have hrest := ih (h.perform c)
      rw [List.append_assoc] at hrest
      exact hrest

end Records

/-- A second removal gives nothing. -/
theorem removed_twice (t : PendingTable) (frame : FrameId) :
    ((t.remove frame).2.remove frame).1 = none := by
  have hnone : (t.remove frame).2.entries.find? (·.1 == frame) = none :=
    List.find?_eq_none.2 fun e he => by simpa using (mem_remove.1 he).2
  show ((t.remove frame).2.entries.find? (·.1 == frame)).map (·.2) = none
  rw [hnone]
  rfl

namespace Records

variable {t : PendingTable} {past : List (Command × Answer)} (h : t.Records past)

include h

theorem mem_frames (frame : FrameId) : frame ∈ t.frames ↔ (standing frame past).isSome = true := by
  rw [mem_frames_iff, Option.isSome_iff_exists]
  exact exists_congr fun f => h.mem frame f

/-- Granted and refused insertions, by what stands. -/
theorem inserted (frame : FrameId) (f : FutureId) :
    (t.insert frame f = .error (.duplicateFrame frame) ↔ frame ∈ t.frames) ∧
    (t.insert frame f = .error (.sharedFuture frame) ↔
      frame ∉ t.frames ∧ ∃ other, other ≠ frame ∧ standing other past = some f) ∧
    (∀ e, t.insert frame f = .error e → e = .duplicateFrame frame ∨ e = .sharedFuture frame) ∧
    (∀ e, t.perform (.insert frame f) = (.refused e, t) ↔ t.insert frame f = .error e) ∧
    ∀ t', t.insert frame f = .ok t' → ∀ e, e ∈ t'.entries ↔ e = (frame, f) ∨ e ∈ t.entries := by
  have hheld : frame ∉ t.frames →
      ((∃ other, other ≠ frame ∧ standing other past = some f) ↔ ∃ other, (other, f) ∈ t.entries) := by
    intro hframe
    refine exists_congr fun other => ?_
    rw [← h.mem]
    refine and_iff_right_of_imp ?_
    rintro hmem rfl
    exact hframe (mem_frames_iff.2 ⟨f, hmem⟩)
  rcases t.insert_cases frame f with ⟨hframe, heq⟩ | ⟨hframe, hfuture, heq⟩ | ⟨hframe, hfuture, heq⟩
  · simp [heq, hframe, PendingTable.perform]
  · simp [heq, hframe, hheld hframe, hfuture, PendingTable.perform]
  · have hperm : ∀ e, e ∈ place (frame, f) t.entries ↔ e ∈ (frame, f) :: t.entries := fun e =>
      (place_perm (frame, f) t.entries).mem_iff
    simp [heq, hframe, hheld hframe, hfuture, PendingTable.perform, hperm]

end Records

/-- After any commands on an empty table, and by their history:

* no frame is in the table twice and no future under two frames; the frames are listed in increasing
  order, each with the future that stands for it, and the size is their number;
* an insertion is refused as a duplicate exactly if the frame is there, as shared exactly if it is not
  but the future stands for another frame, and for no other reason; a refusal leaves the table, and a
  grant adds the entry and nothing else;
* a removal gives the future that stands for the frame, a second one nothing, and every other entry
  stays. -/
theorem one_to_one (cs : List Command) :
    let t := after {} cs
    let past := exchanges {} cs
    (t.frames.Nodup ∧ (t.entries.map (·.2)).Nodup ∧ t.frames.Pairwise (· < ·) ∧
      (∀ frame, frame ∈ t.frames ↔ (standing frame past).isSome = true) ∧
      (∀ frame f, (frame, f) ∈ t.entries ↔ standing frame past = some f) ∧
      t.size = t.frames.length) ∧
    (∀ frame f,
      (t.insert frame f = .error (.duplicateFrame frame) ↔ frame ∈ t.frames) ∧
      (t.insert frame f = .error (.sharedFuture frame) ↔
        frame ∉ t.frames ∧ ∃ other, other ≠ frame ∧ standing other past = some f) ∧
      (∀ e, t.insert frame f = .error e → e = .duplicateFrame frame ∨ e = .sharedFuture frame) ∧
      (∀ e, t.perform (.insert frame f) = (.refused e, t) ↔ t.insert frame f = .error e) ∧
      ∀ t', t.insert frame f = .ok t' → ∀ e, e ∈ t'.entries ↔ e = (frame, f) ∨ e ∈ t.entries) ∧
    ∀ frame, (t.remove frame).1 = standing frame past ∧
      ((t.remove frame).2.remove frame).1 = none ∧
      ∀ e, e ∈ (t.remove frame).2.entries ↔ e ∈ t.entries ∧ e.1 ≠ frame := by
  intro t past
  have h : t.Records past := records_empty.performed cs
  have hframes : t.frames.Pairwise (· < ·) := List.pairwise_map.2 h.ordered
  refine ⟨⟨hframes.imp Nat.ne_of_lt, h.futures, hframes, h.mem_frames, h.mem, ?_⟩, h.inserted,
    fun frame => ⟨h.removed frame, t.removed_twice frame, fun e => mem_remove⟩⟩
  exact (List.length_map _).symm

/-- A future that was refused under a second frame, and was then removed and entered there. -/
theorem one_to_one_reentered :
    let t := after {} [.insert 1 0, .insert 2 0, .remove 1, .insert 2 0]
    t.frames = [2] ∧ t.insert 3 0 = .error (.sharedFuture 3) ∧
      t.perform (.insert 3 0) = (.refused (.sharedFuture 3), t) ∧ (t.remove 2).1 = some 0 := by
  intro t
  obtain ⟨-, hinsert, hremove⟩ := one_to_one [.insert 1 0, .insert 2 0, .remove 1, .insert 2 0]
  obtain ⟨-, hshared, -, hrefused, -⟩ := hinsert 3 0
  have herror : t.insert 3 0 = .error (.sharedFuture 3) :=
    hshared.2 ⟨by decide, 2, by decide, by decide⟩
  exact ⟨by decide, herror, (hrefused _).2 herror, (hremove 2).1.trans (by decide)⟩

end Reentrant.PendingTable
