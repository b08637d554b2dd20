import Mathlib.Data.String.Basic
import Reentrant.Execution
import Reentrant.Proofs.ForeseenFaults

/-!
The order of a check. A library holds the procedures of its source in the order of their names, so a
check lists their findings by name and, for each procedure, by instruction.
-/

namespace Reentrant

/-! ### Libraries -/

namespace Library

/-- In increasing order of their names. -/
def Ordered (ps : List Program) : Prop := ps.Pairwise fun p q => p.name < q.name

theorem forall_mem_place {P : Program → Prop} {p : Program} {ps : List Program} (hp : P p)
    (hps : ∀ q ∈ ps, P q) : ∀ q ∈ place p ps, P q := by
  induction ps with
  | nil => simpa [place] using hp
  | cons q rest ih =>
      obtain ⟨hq, hrest⟩ := List.forall_mem_cons.1 hps
      unfold place
      split
      · exact List.forall_mem_cons.2 ⟨hp, hps⟩
      · split
        · exact List.forall_mem_cons.2 ⟨hp, hrest⟩
        · exact List.forall_mem_cons.2 ⟨hq, ih hrest⟩

theorem ordered_place {p : Program} {ps : List Program} (h : Ordered ps) :
    Ordered (place p ps) := by
  induction ps with
  | nil => exact List.pairwise_singleton _ p
  | cons q rest ih =>
      obtain ⟨hq, hrest⟩ := List.pairwise_cons.1 h
      unfold place
      by_cases hlt : p.name < q.name
      · rw [if_pos hlt]
        refine List.pairwise_cons.2 ⟨List.forall_mem_cons.2 ⟨hlt, fun x hx => ?_⟩, h⟩
        exact hlt.trans (hq x hx)
      · rw [if_neg hlt]
        by_cases heq : p.name = q.name
        · rw [if_pos heq]
          refine List.pairwise_cons.2 ⟨fun x hx => ?_, hrest⟩
          rw [heq]
          exact hq x hx
        · rw [if_neg heq]
          have hgt : q.name < p.name := lt_of_le_of_ne (not_lt.1 hlt) (Ne.symm heq)
          exact List.pairwise_cons.2 ⟨forall_mem_place hgt hq, ih hrest⟩

/-- A program of a new name is put beside the others. -/
theorem place_perm {p : Program} {ps : List Program} (hnew : ∀ q ∈ ps, p.name ≠ q.name) :
    (place p ps).Perm (p :: ps) := by
  induction ps with
  | nil => exact .refl _
  | cons q rest ih =>
      obtain ⟨hq, hrest⟩ := List.forall_mem_cons.1 hnew
      unfold place
      rw [if_neg hq]
      split
      · exact .refl _
      · exact ((ih hrest).cons q).trans (.swap p q rest)

/-- A library of programs of distinct names holds just these, in order. -/
theorem ofList_perm {ps : List Program} (hnames : (ps.map (·.name)).Nodup) :
    (ofList ps).programs.Perm ps ∧ Ordered (ofList ps).programs := by
  suffices h : ∀ (qs : List Program) (l : Library),
      (∀ q ∈ qs, ∀ p ∈ l.programs, q.name ≠ p.name) → (qs.map (·.name)).Nodup →
      Ordered l.programs →
      (qs.foldl insert l).programs.Perm (qs ++ l.programs) ∧
        Ordered (qs.foldl insert l).programs by
    have := h ps {} (fun q _ p hp => by cases hp) hnames List.Pairwise.nil
    rwa [List.append_nil] at this
  intro qs
  induction qs with
  | nil => exact fun l _ _ hordered => ⟨.refl _, hordered⟩
  | cons q qs ih =>
      intro l hnew hnodup hordered
      obtain ⟨hq, hqs⟩ := List.forall_mem_cons.1 hnew
      rw [List.map_cons, List.nodup_cons] at hnodup
      have hplace : (l.insert q).programs.Perm (q :: l.programs) := place_perm hq
      have hnext : ∀ x ∈ qs, ∀ p ∈ (l.insert q).programs, x.name ≠ p.name := by
        intro x hx p hp heq
        rcases List.mem_cons.1 (hplace.subset hp) with rfl | hp
        · exact hnodup.1 (List.mem_map.2 ⟨x, hx, heq⟩)
        · exact hqs x hx p hp heq
      obtain ⟨hperm, hsorted⟩ := ih (l.insert q) hnext hnodup.2 (ordered_place hordered)
      refine ⟨hperm.trans ?_, hsorted⟩
      exact (hplace.append_left qs).trans List.perm_middle

end Library

/-! ### Sources -/

namespace Assembly

/-- Procedures that assemble have distinct names. -/
theorem names_of_programsFrom {natives : List (String × RoutineId)} {before : List String}
    {ls : List Listing} {ps : List Program} (h : programsFrom natives before ls = .ok ps) :
    (ps.map (·.name)).Nodup ∧ ∀ p ∈ ps, p.name ∉ before := by
  induction ls generalizing before ps with
  | nil =>
      cases h
      exact ⟨.nil, fun p hp => by cases hp⟩
  | cons l rest ih =>
      unfold programsFrom at h
      cases hp : l.program natives with
      | error e =>
          rw [hp] at h
          cases h
      | ok p =>
          rw [hp] at h
          dsimp only at h
          split at h
          · cases h
          · next hnew =>
              cases hrest : programsFrom natives (p.name :: before) rest with
              | error e =>
                  rw [hrest] at h
                  cases h
              | ok qs =>
                  rw [hrest] at h
                  cases h
                  obtain ⟨hnodup, hqs⟩ := ih hrest
                  refine ⟨List.nodup_cons.2 ⟨fun hmem => ?_, hnodup⟩,
                    List.forall_mem_cons.2 ⟨fun hmem => hnew (List.contains_iff_mem.2 hmem),
                      fun q hq hmem => hqs q hq (List.mem_cons_of_mem _ hmem)⟩⟩
                  obtain ⟨q, hq, heq⟩ := List.mem_map.1 hmem
                  exact hqs q hq (heq ▸ List.mem_cons_self)

/-- The programs of a source have distinct names. -/
theorem names_of_assemble {natives : List (String × RoutineId)} {source : String}
    {ps : List Program} (h : assemble natives source = .ok ps) : (ps.map (·.name)).Nodup := by
  unfold assemble at h
  split at h
  · cases h
  · next ls _ =>
      split at h
      · cases h
      · next qs hqs =>
          cases h
          exact (names_of_programsFrom hqs).1

/-- By procedure and then by instruction. -/
def Finding.Before (x y : Finding) : Prop :=
  x.program < y.program ∨ x.program = y.program ∧ x.index < y.index

/-- Findings name the program that they are about. -/
theorem program_of_mem_validate {known : RoutineId → Bool} {p : Program} {x : Finding}
    (hx : x ∈ validate known p) : x.program = p.name := by
  obtain ⟨_, _, -, -, heq⟩ := mem_validate_iff.1 hx
  rw [heq]

/-- The findings of ordered programs are in order. -/
theorem findings_ordered (known : RoutineId → Bool) {ps : List Program}
    (h : Library.Ordered ps) : (ps.flatMap (validate known)).Pairwise Finding.Before := by
  refine List.pairwise_flatMap.2 ⟨fun p _ => ?_, h.imp fun {p q} hlt x hx y hy => .inl ?_⟩
  · refine (validate_increasing known p).imp_of_mem fun {x y} hx hy hlt => .inr ⟨?_, hlt⟩
    rw [program_of_mem_validate hx, program_of_mem_validate hy]
  · rw [program_of_mem_validate hx, program_of_mem_validate hy]
    exact hlt

end Assembly

namespace Execution

/-- A check goes through the procedures of the source, ordered by name. -/
theorem check_of_assemble {source : String} {ps : List Program}
    (h : Assembly.assemble Builtin.registry.symbols source = .ok ps) :
    ∃ fs, check source = .ok fs ∧ fs.Pairwise Assembly.Finding.Before ∧
      ∀ x, x ∈ fs ↔ ∃ p ∈ ps, x ∈ Assembly.validate Builtin.registry.contains p := by
  obtain ⟨hperm, hordered⟩ := Library.ofList_perm (Assembly.names_of_assemble h)
  refine ⟨(Library.ofList ps).programs.flatMap (Assembly.validate Builtin.registry.contains), ?_,
    Assembly.findings_ordered _ hordered, fun x => ?_⟩
  · rw [check, library, h]
    rfl
  · rw [List.mem_flatMap]
    exact exists_congr fun p => and_congr_left fun _ => hperm.mem_iff

end Execution

end Reentrant
