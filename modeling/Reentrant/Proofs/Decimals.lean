import Reentrant.Text.Decimal

/-! Decimal digits: what is written is read back, and no number is written with a leading zero. -/

namespace Reentrant.Decimal

theorem digit_lt_ten : ∀ k < 10, (digit k).isDigit = true ∧ digitValue (digit k) = k := by decide

theorem digits_ofNat (n : Nat) :
    ofNat n ≠ [] ∧ (ofNat n).all Char.isDigit = true ∧ toNat (ofNat n) = n := by
  induction n using Nat.strongRecOn with
  | ind n ih =>
      rw [ofNat]
      split
      · next hlt =>
          obtain ⟨hisDigit, hvalue⟩ := digit_lt_ten n hlt
          exact ⟨by simp, by simp [hisDigit], by simp [toNat, hvalue]⟩
      · next hlt =>
          obtain ⟨hisDigit, hvalue⟩ := digit_lt_ten (n % 10) (Nat.mod_lt n (by decide))
          obtain ⟨-, hall, hread⟩ := ih (n / 10) (by omega)
          refine ⟨by simp, ?_, ?_⟩
          · rw [List.all_append, hall, List.all_cons, hisDigit]
            rfl
          · rw [toNat, List.foldl_append, ← toNat, hread]
            simp only [List.foldl_cons, List.foldl_nil, hvalue]
            omega

theorem readNat?_ofNat (n : Nat) : readNat? (ofNat n) = some n := by
  obtain ⟨hne, hall, hread⟩ := digits_ofNat n
  rw [readNat?, if_pos ⟨hne, hall⟩, hread]

/-- Only zero begins with a zero. -/
theorem ofNat_head_zero {n : Nat} {ds : List Char} (h : ofNat n = '0' :: ds) : ds = [] := by
  have hzero : ∀ k < 10, digit k = '0' → k = 0 := by decide
  induction n using Nat.strongRecOn generalizing ds with
  | ind n ih =>
      rw [ofNat] at h
      split at h
      · exact (List.cons.inj h).2.symm
      · next hge =>
          cases htop : ofNat (n / 10) with
          | nil => exact absurd htop (digits_ofNat _).1
          | cons d top =>
              rw [htop, List.cons_append] at h
              obtain ⟨rfl, -⟩ := List.cons.inj h
              have hnil := ih (n / 10) (by omega) htop
              have hread := (digits_ofNat (n / 10)).2.2
              rw [htop, hnil] at hread
              have hpos : 0 < n / 10 := by omega
              rw [← hread] at hpos
              exact absurd hpos (by decide)

end Reentrant.Decimal
