import Mathlib.Data.List.Induction
import Mathlib.Data.Prod.Lex
import Mathlib.Data.Set.Function
import Reentrant.Assembly.Report
import Reentrant.Proofs.Matching

/-!
Lines and columns of places between characters. The line is the number of line feeds in front of the
place and the column the number of characters since the last of them; so the two grow from each place
to the next, line before column, and no two places share them.
-/

namespace Reentrant.Assembly

/-! ### Places between characters -/

/-- The byte offsets of the places between characters, both ends included. -/
def boundaries (source : String) : Set Nat :=
  {offset | String.Pos.Raw.IsValid source ⟨offset⟩}

theorem utf8ByteSize_ofList (cs : List Char) : (String.ofList cs).utf8ByteSize = bytesOf cs := by
  induction cs with
  | nil => exact String.utf8ByteSize_empty
  | cons c cs ih =>
      rw [← List.singleton_append, String.ofList_append, String.utf8ByteSize_append, ih,
        ← String.singleton_eq_ofList, String.utf8ByteSize_singleton]
      rfl

theorem utf8ByteSize_eq (source : String) : source.utf8ByteSize = bytesOf source.toList := by
  rw [← utf8ByteSize_ofList, String.ofList_toList]

theorem mem_boundaries_iff {source : String} {offset : Nat} :
    offset ∈ boundaries source ↔
      ∃ front back, source.toList = front ++ back ∧ offset = bytesOf front := by
  rw [boundaries, Set.mem_ofPred_eq, String.Pos.Raw.isValid_iff_exists_append]
  constructor
  · rintro ⟨front, back, rfl, hoffset⟩
    exact ⟨front.toList, back.toList, String.toList_append,
      (congrArg String.Pos.Raw.byteIdx hoffset).trans (utf8ByteSize_eq front)⟩
  · rintro ⟨front, back, hsource, rfl⟩
    refine ⟨.ofList front, .ofList back, ?_, String.Pos.Raw.ext (utf8ByteSize_ofList front).symm⟩
    rw [← String.ofList_append, ← hsource, String.ofList_toList]

/-! ### Counting -/

/-- Where one more character leads: a line feed to the next line, any other to the next column. -/
def advance (place : Nat × Nat) (c : Char) : Nat × Nat :=
  if c = '\n' then (place.1 + 1, 0) else (place.1, place.2 + 1)

theorem lineCol_go (front rest : List Char) (seen : Nat) (place : Nat × Nat) :
    lineCol.go (seen + bytesOf front) (front ++ rest) seen place.1 place.2 =
      front.foldl advance place := by
  induction front generalizing seen place with
  | nil =>
      cases rest with
      | nil => rfl
      | cons c rest => simp [lineCol.go, bytesOf]
  | cons c front ih =>
      have hpos := Char.utf8Size_pos c
      have hnext : seen + bytesOf (c :: front) = seen + c.utf8Size + bytesOf front := by
        rw [bytesOf]
        omega
      have hbehind : ¬seen + c.utf8Size + bytesOf front ≤ seen := by omega
      rw [List.cons_append, List.foldl_cons, hnext, lineCol.go, if_neg hbehind, advance]
      split
      · exact ih (seen + c.utf8Size) (place.1 + 1, 0)
      · exact ih (seen + c.utf8Size) (place.1, place.2 + 1)

theorem lineCol_behind (front rest : List Char) :
    lineCol (front ++ rest) (bytesOf front) = front.foldl advance (0, 0) := by
  have h := lineCol_go front rest 0 (0, 0)
  rwa [Nat.zero_add] at h

theorem lastLine_concat (front : List Char) (c : Char) :
    SyntaxError.lastLine (front ++ [c]) =
      if c = '\n' then [] else SyntaxError.lastLine front ++ [c] := by
  by_cases hc : c = '\n' <;> simp [SyntaxError.lastLine, hc]

/-- The line counts line feeds, and the column what is behind the last of them. -/
theorem foldl_advance (front : List Char) :
    front.foldl advance (0, 0) = (front.count '\n', (SyntaxError.lastLine front).length) := by
  induction front using List.reverseRecOn with
  | nil => rfl
  | append_singleton front c ih =>
      rw [List.foldl_append, ih, lastLine_concat]
      by_cases hc : c = '\n' <;> simp [advance, hc]

theorem lineCol_eq (front rest : List Char) :
    lineCol (front ++ rest) (bytesOf front) =
      (front.count '\n', (SyntaxError.lastLine front).length) :=
  (lineCol_behind front rest).trans (foldl_advance front)

/-! ### The order of places -/

theorem lt_advance (place : Nat × Nat) (c : Char) : toLex place < toLex (advance place c) := by
  rw [Prod.Lex.toLex_lt_toLex, advance]
  split
  · exact .inl (Nat.lt_succ_self _)
  · exact .inr ⟨rfl, Nat.lt_succ_self _⟩

theorem le_foldl_advance (place : Nat × Nat) (middle : List Char) :
    toLex place ≤ toLex (middle.foldl advance place) := by
  induction middle generalizing place with
  | nil => exact le_refl _
  | cons c middle ih => exact (lt_advance place c).le.trans (ih (advance place c))

/-- Lines and columns do not decrease along a source. -/
theorem lineCol_mono (front middle back : List Char) :
    toLex (lineCol (front ++ middle ++ back) (bytesOf front)) ≤
      toLex (lineCol (front ++ middle ++ back) (bytesOf (front ++ middle))) := by
  rw [lineCol_behind (front ++ middle) back, List.append_assoc, lineCol_behind, List.foldl_append]
  exact le_foldl_advance _ middle

/-- They strictly increase from one place between characters to a later one. -/
theorem lineCol_strictMonoOn (source : String) :
    StrictMonoOn (fun offset => toLex (lineCol source.toList offset)) (boundaries source) := by
  intro offset hoffset offset' hoffset' hlt
  obtain ⟨front, back, hfront, rfl⟩ := mem_boundaries_iff.1 hoffset
  obtain ⟨front', back', hfront', rfl⟩ := mem_boundaries_iff.1 hoffset'
  have hprefix : front <+: front' := by
    rcases List.prefix_or_prefix_of_prefix ⟨back, hfront.symm⟩ ⟨back', hfront'.symm⟩ with h | ⟨w, rfl⟩
    · exact h
    · rw [bytesOf_append] at hlt
      omega
  obtain ⟨_ | ⟨c, middle⟩, rfl⟩ := hprefix
  · rw [List.append_nil] at hlt
    exact absurd hlt (Nat.lt_irrefl _)
  · have hlater : lineCol source.toList (bytesOf (front ++ c :: middle)) =
        (c :: middle).foldl advance (front.foldl advance (0, 0)) := by
      rw [hfront', lineCol_behind, List.foldl_append]
    show toLex (lineCol source.toList (bytesOf front)) < toLex (lineCol source.toList _)
    rw [hlater, hfront, lineCol_behind, List.foldl_cons]
    exact (lt_advance _ c).trans_le (le_foldl_advance _ middle)

/-- No two places between characters have the same line and column. -/
theorem lineCol_injOn (source : String) : Set.InjOn (lineCol source.toList) (boundaries source) :=
  fun _ ha _ hb heq => (lineCol_strictMonoOn source).injOn ha hb (congrArg toLex heq)

end Reentrant.Assembly
