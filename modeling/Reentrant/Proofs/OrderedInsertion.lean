import Mathlib.Data.List.Sort
import Reentrant.PendingTable
import Reentrant.Registry

/-!
Rows that are kept in strictly increasing order. Table entries are put in place by their frames and
routines by their numbers; both are insertion by a strict order, which keeps what was there and, for a
new key, the order.
-/

namespace Reentrant

/-- Insertion keeps a strict order, if whatever is not behind the new item is in front of it. -/
theorem pairwise_orderedInsert {α : Type} {r : α → α → Prop} [DecidableRel r]
    {a : α} {l : List α} (h : l.Pairwise r) (htrans : ∀ {a b c}, r a b → r b c → r a c)
    (hnew : ∀ b ∈ l, ¬r a b → r b a) : (l.orderedInsert r a).Pairwise r := by
  induction l with
  | nil => exact List.pairwise_singleton r a
  | cons b l ih =>
      obtain ⟨hb, hl⟩ := List.pairwise_cons.1 h
      obtain ⟨hba, hnew⟩ := List.forall_mem_cons.1 hnew
      rw [List.orderedInsert_cons]
      split
      · next hab =>
          exact List.pairwise_cons.2
            ⟨List.forall_mem_cons.2 ⟨hab, fun x hx => htrans hab (hb x hx)⟩, h⟩
      · next hab =>
          refine List.pairwise_cons.2 ⟨fun x hx => ?_, ih hl hnew⟩
          rcases (List.mem_orderedInsert r).1 hx with rfl | hx
          · exact hba hab
          · exact hb x hx

namespace PendingTable

/-- In increasing order of the frames, so none of them twice. -/
def Ordered (es : List (FrameId × FutureId)) : Prop := es.Pairwise fun d e => d.1 < e.1

theorem place_eq (e : FrameId × FutureId) (es : List (FrameId × FutureId)) :
    place e es = es.orderedInsert (fun d e => d.1 < e.1) e := by
  induction es with
  | nil => rfl
  | cons d es ih => rw [place, List.orderedInsert_cons, ih]

theorem place_perm (e : FrameId × FutureId) (es : List (FrameId × FutureId)) :
    (place e es).Perm (e :: es) :=
  place_eq e es ▸ List.perm_orderedInsert _ e es

theorem ordered_place {e : FrameId × FutureId} {es : List (FrameId × FutureId)} (h : Ordered es)
    (hnew : ∀ d ∈ es, d.1 ≠ e.1) : Ordered (place e es) := by
  rw [Ordered, place_eq]
  refine pairwise_orderedInsert h (fun hab hbc => Nat.lt_trans hab hbc) fun d hd hle => ?_
  exact Nat.lt_of_le_of_ne (Nat.not_lt.1 hle) (hnew d hd)

end PendingTable

namespace Registry

variable {σ : Type}

theorem place_eq (r : Routine σ) (rs : List (Routine σ)) :
    place r rs = rs.orderedInsert (fun p q => p.id < q.id) r := by
  induction rs with
  | nil => rfl
  | cons q rs ih => rw [place, List.orderedInsert_cons, ih]

theorem place_perm (r : Routine σ) (rs : List (Routine σ)) : (place r rs).Perm (r :: rs) :=
  place_eq r rs ▸ List.perm_orderedInsert _ r rs

/-- A routine of a new number is put where the numbers stay in increasing order. -/
theorem increasing_place {r : Routine σ} {rs : List (Routine σ)}
    (h : rs.Pairwise fun p q => p.id < q.id) (hnew : ∀ q ∈ rs, q.id ≠ r.id) :
    (place r rs).Pairwise fun p q => p.id < q.id := by
  rw [place_eq]
  refine pairwise_orderedInsert h (fun hab hbc => UInt32.lt_trans hab hbc) fun q hq hle => ?_
  exact UInt32.lt_of_le_of_ne (UInt32.not_lt.1 hle) (hnew q hq)

end Registry

end Reentrant
