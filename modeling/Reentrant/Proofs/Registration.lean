import Mathlib.Data.List.Nodup
import Reentrant.Proofs.OrderedInsertion

/-!
Registries that come of any row of registrations, refused ones among them. Such a registry holds
exactly the routines whose number and name were both free when they came, lists them in increasing
order of their numbers, and names and numbers are one-to-one.
-/

namespace Reentrant.Registry

variable {σ : Type}

/-! ### Offers -/

/-- The registry after a routine was offered to it; a refused one leaves it. -/
def offer (g : Registry σ) (r : Routine σ) : Registry σ :=
  match g.register r with
  | .ok g' => g'
  | .error _ => g

/-- The registry after a row of offers, empty at first. -/
def ofOffers (poll : σ → Poll σ) (rs : List (Routine σ)) : Registry σ := rs.foldl offer { poll }

/-- Keeps a routine unless one that is kept already has its number or its name. -/
def keep (kept : List (Routine σ)) (r : Routine σ) : List (Routine σ) :=
  if ∃ q ∈ kept, q.id = r.id ∨ q.name = r.name then kept else kept ++ [r]

/-- The routines of a row of offers that are to be registered, in the order in which they came. -/
def granted (rs : List (Routine σ)) : List (Routine σ) := rs.foldl keep []

/-! ### One registration -/

theorem contains_iff {g : Registry σ} {id : RoutineId} :
    g.contains id = true ↔ ∃ q ∈ g.routines, q.id = id := by
  simp [contains, get?]

/-- Why a routine is registered or refused. -/
theorem register_cases (g : Registry σ) (r : Routine σ) :
    ((∃ q ∈ g.routines, q.id = r.id) ∧ g.register r = .error (.duplicateId r.id)) ∨
    ((∀ q ∈ g.routines, q.id ≠ r.id) ∧ (∃ q ∈ g.routines, q.name = r.name) ∧
      g.register r = .error (.duplicateName r.name)) ∨
    ((∀ q ∈ g.routines, q.id ≠ r.id) ∧ (∀ q ∈ g.routines, q.name ≠ r.name) ∧
      g.register r = .ok { g with routines := place r g.routines }) := by
  have hname : (g.routines.any (·.name == r.name)) = true ↔ ∃ q ∈ g.routines, q.name = r.name := by
    simp
  by_cases hid : ∃ q ∈ g.routines, q.id = r.id
  · exact .inl ⟨hid, if_pos (contains_iff.2 hid)⟩
  · have hfree : ∀ q ∈ g.routines, q.id ≠ r.id := fun q hq heq => hid ⟨q, hq, heq⟩
    rw [register, if_neg (mt contains_iff.1 hid)]
    by_cases htaken : ∃ q ∈ g.routines, q.name = r.name
    · exact .inr (.inl ⟨hfree, htaken, if_pos (hname.2 htaken)⟩)
    · exact .inr (.inr ⟨hfree, fun q hq heq => htaken ⟨q, hq, heq⟩, if_neg (mt hname.1 htaken)⟩)

/-! ### Rows of registrations -/

/-- The registry holds these routines, in increasing order of their numbers and no two under one
name. -/
structure Holds (g : Registry σ) (kept : List (Routine σ)) : Prop where
  perm : g.routines.Perm kept
  increasing : g.routines.Pairwise fun p q => p.id < q.id
  named : (g.routines.map (·.name)).Nodup

theorem holds_offer {g : Registry σ} {kept : List (Routine σ)} (h : Holds g kept) (r : Routine σ) :
    Holds (g.offer r) (keep kept r) := by
  rw [offer, keep]
  rcases register_cases g r with ⟨⟨q, hq, hid⟩, hr⟩ | ⟨-, ⟨q, hq, hname⟩, hr⟩ | ⟨hid, hname, hr⟩
  · rw [hr, if_pos ⟨q, h.perm.subset hq, .inl hid⟩]
    exact h
  · rw [hr, if_pos ⟨q, h.perm.subset hq, .inr hname⟩]
    exact h
  · rw [hr, if_neg]
    · refine ⟨?_, increasing_place h.increasing hid, ?_⟩
      · exact (place_perm r g.routines).trans
          ((h.perm.cons r).trans (List.perm_append_singleton r kept).symm)
      · refine (((place_perm r g.routines).map (·.name)).nodup_iff).2 (List.nodup_cons.2 ⟨?_, h.named⟩)
        intro hmem
        obtain ⟨q, hq, heq⟩ := List.mem_map.1 hmem
        exact hname q hq heq
    · rintro ⟨q, hq, heq | heq⟩
      · exact hid q (h.perm.symm.subset hq) heq
      · exact hname q (h.perm.symm.subset hq) heq

theorem holds_offers {g : Registry σ} {kept : List (Routine σ)} (h : Holds g kept)
    (rs : List (Routine σ)) : Holds (rs.foldl offer g) (rs.foldl keep kept) := by
  induction rs generalizing g kept with
  | nil => exact h
  | cons r rs ih => exact ih (holds_offer h r)

/-- Any row of offers leaves what is to be registered of it. -/
theorem holds_ofOffers (poll : σ → Poll σ) (rs : List (Routine σ)) :
    Holds (ofOffers poll rs) (granted rs) :=
  holds_offers (g := { poll }) ⟨.refl [], .nil, List.nodup_nil⟩ rs

/-! ### Looking routines up -/

/-- Where no two routines have one name, a name stands for the number of the one that has it. -/
theorem lookup_names {rs : List (Routine σ)} (hnamed : (rs.map (·.name)).Nodup) {name : String}
    {id : RoutineId} : (rs.map fun r => (r.name, r.id)).lookup name = some id ↔
      ∃ r ∈ rs, r.name = name ∧ r.id = id := by
  induction rs with
  | nil => simp
  | cons q rs ih =>
      obtain ⟨hq, hrs⟩ := List.nodup_cons.1 hnamed
      rw [List.map_cons, List.lookup_cons]
      by_cases hname : name = q.name
      · subst hname
        have hother : ∀ r ∈ rs, r.name ≠ q.name := fun r hr heq =>
          hq (List.mem_map.2 ⟨r, hr, heq⟩)
        simp +contextual [hother]
      · have hbeq : (name == q.name) = false := beq_false_of_ne hname
        rw [hbeq, ih hrs]
        simp [Ne.symm hname]

namespace Holds

variable {g : Registry σ} {kept : List (Routine σ)} (h : Holds g kept)

include h

theorem ids_nodup : (g.routines.map (·.id)).Nodup :=
  List.pairwise_map.2 (h.increasing.imp fun hlt => UInt32.ne_of_lt hlt)

theorem get?_eq_some_iff {id : RoutineId} {r : Routine σ} :
    g.get? id = some r ↔ r ∈ g.routines ∧ r.id = id := by
  constructor
  · intro hget
    exact ⟨List.mem_of_find?_eq_some hget, by simpa using List.find?_some hget⟩
  · rintro ⟨hr, rfl⟩
    obtain ⟨q, hq⟩ := Option.isSome_iff_exists.1 (contains_iff.2 ⟨r, hr, rfl⟩)
    have hid : q.id = r.id := by simpa using List.find?_some hq
    rw [hq, List.inj_on_of_nodup_map h.ids_nodup (List.mem_of_find?_eq_some hq) hr hid]

end Holds

/-- What a registry is to the routines that it was given: why it refuses another one, and how it names
and lists them. -/
structure OneToOne (g : Registry σ) (kept : List (Routine σ)) : Prop where
  duplicateId : ∀ r, g.register r = .error (.duplicateId r.id) ↔ ∃ q ∈ kept, q.id = r.id
  duplicateName : ∀ r, g.register r = .error (.duplicateName r.name) ↔
    (∀ q ∈ kept, q.id ≠ r.id) ∧ ∃ q ∈ kept, q.name = r.name
  refused : ∀ r e, g.register r = .error e →
    (e = .duplicateId r.id ∨ e = .duplicateName r.name) ∧ g.offer r = g
  names : (g.symbols.map Prod.fst).Nodup
  ids : (g.symbols.map Prod.snd).Nodup
  symbol : ∀ name id, g.symbols.lookup name = some id ↔ ∃ r ∈ kept, r.name = name ∧ r.id = id
  found : ∀ name id, g.symbols.lookup name = some id → ∃ r, g.get? id = some r ∧ r.name = name
  increasing : g.descriptors.Pairwise fun d e => d.id < e.id
  listed : g.descriptors.Perm (kept.map (·.descriptor))

theorem Holds.oneToOne {g : Registry σ} {kept : List (Routine σ)} (h : Holds g kept) :
    OneToOne g kept where
  duplicateId r := by
    simp only [← h.perm.mem_iff]
    rcases register_cases g r with ⟨hid, hr⟩ | ⟨hid, -, hr⟩ | ⟨hid, -, hr⟩
    · exact iff_of_true hr hid
    · exact iff_of_false (by rw [hr]; simp) fun ⟨q, hq, heq⟩ => hid q hq heq
    · exact iff_of_false (by rw [hr]; simp) fun ⟨q, hq, heq⟩ => hid q hq heq
  duplicateName r := by
    simp only [← h.perm.mem_iff]
    rcases register_cases g r with ⟨⟨q, hq, heq⟩, hr⟩ | ⟨hid, hname, hr⟩ | ⟨-, hname, hr⟩
    · exact iff_of_false (by rw [hr]; simp) fun ⟨hid, _⟩ => hid q hq heq
    · exact iff_of_true hr ⟨hid, hname⟩
    · exact iff_of_false (by rw [hr]; simp) fun ⟨_, q, hq, heq⟩ => hname q hq heq
  refused r e he := by
    refine ⟨?_, by rw [offer, he]⟩
    rcases register_cases g r with ⟨-, hr⟩ | ⟨-, -, hr⟩ | ⟨-, -, hr⟩
    · exact .inl (Except.error.inj (he.symm.trans hr))
    · exact .inr (Except.error.inj (he.symm.trans hr))
    · rw [he] at hr
      cases hr
  names := by
    rw [symbols, List.map_map]
    exact h.named
  ids := by
    rw [symbols, List.map_map]
    exact h.ids_nodup
  symbol name id := by
    simp only [symbols, lookup_names h.named, h.perm.mem_iff]
  found name id hlookup := by
    obtain ⟨r, hr, hname, hid⟩ := (lookup_names h.named).1 hlookup
    exact ⟨r, h.get?_eq_some_iff.2 ⟨hr, hid⟩, hname⟩
  increasing := List.pairwise_map.2 h.increasing
  listed := h.perm.map _

end Reentrant.Registry
