import Reentrant.Proofs.Matching

/-!
What a match consists of. `Expr.Takes` says of an expression, by its parts, that it takes a text up to
what is left of it and keeps these matches inside. A match has come about in this way whatever was
attempted besides; so from a match of a whole file there is a way to each of its parts.
-/

namespace Reentrant.Assembly

namespace Cursor

theorem of_expect {total : Nat} {s text : List Char} {c : Cursor} (htotal : bytesOf text ≤ total)
    (h : (left total text).expect s = some c) : ∃ rest, text = s ++ rest ∧ c = left total rest := by
  by_cases hprefix : s <+: text
  · obtain ⟨rest, rfl⟩ := hprefix
    rw [expect_left s htotal] at h
    exact ⟨rest, rfl, (Option.some.inj h).symm⟩
  · rw [expect_none hprefix] at h
    cases h

/-- The offset of a place is the number of bytes in front of it. -/
theorem offset_left (front rest : List Char) :
    (left (bytesOf (front ++ rest)) rest).offset = bytesOf front := by
  rw [left, bytesOf_append, Nat.add_sub_cancel]

end Cursor

namespace Expr

/-- A step is taken again and again, each time behind what is skipped. -/
inductive Again (m : Mood) (step : List Char → List Char → List Node → Prop) :
    List Char → List Char → List Node → Prop where
  | stop (text : List Char) : Again m step text text []
  | step {text mid rest : List Char} {ns ms : List Node} (h : step (m.next text) mid ns)
      (hrest : Again m step mid rest ms) : Again m step text rest (ns ++ ms)

/-- The expression takes `text` up to `rest` in a source of `total` bytes and keeps these matches. What
must be absent takes nothing. -/
def Takes (total : Nat) : Expr → Mood → (text rest : List Char) → List Node → Prop
  | .char p, _, cs, rest, ns => ∃ x, cs = x :: rest ∧ p x = true ∧ ns = []
  | .text s, _, cs, rest, ns => cs = s ++ rest ∧ ns = []
  | .endOfInput, _, cs, rest, ns => rest = cs ∧ ns = []
  | .seq a b, m, cs, rest, ns => ∃ mid ns₁ ns₂, Takes total a m cs mid ns₁ ∧
      Takes total b m (m.next mid) rest ns₂ ∧ ns = ns₁ ++ ns₂
  | .alt a b, m, cs, rest, ns => Takes total a m cs rest ns ∨ Takes total b m cs rest ns
  | .opt a, m, cs, rest, ns => (rest = cs ∧ ns = []) ∨ Takes total a m cs rest ns
  | .many a, m, cs, rest, ns => (rest = cs ∧ ns = []) ∨
      ∃ mid ns₁ ns₂, Takes total a m cs mid ns₁ ∧ Again m (Takes total a m) mid rest ns₂ ∧
        ns = ns₁ ++ ns₂
  | .absent _, _, cs, rest, ns => rest = cs ∧ ns = []
  | .rule r grain body, m, cs, rest, ns =>
      ∃ inside, Takes total body (m.enter grain) cs rest inside ∧
        ns = if m.quiet || m.negated then []
          else [.node r (.left total cs) (Cursor.left total rest).offset inside]

variable {total : Nat} {m : Mood} {a b : Expr} {text mid rest : List Char} {ns ms : List Node}

/-! ### What is left -/

theorem Again.suffix {step : List Char → List Char → List Node → Prop}
    (hstep : ∀ text mid ns, step text mid ns → mid <:+ text) (h : Again m step text rest ns) :
    rest <:+ text := by
  induction h with
  | stop text => exact List.suffix_rfl
  | step h hrest ih => exact (ih.trans (hstep _ _ _ h)).trans (next_suffix m _)

theorem Takes.suffix {e : Expr} (h : e.Takes total m text rest ns) : rest <:+ text := by
  induction e generalizing m text rest ns with
  | char p =>
      obtain ⟨x, rfl, -⟩ := h
      exact List.suffix_cons x rest
  | text s =>
      obtain ⟨rfl, -⟩ := h
      exact List.suffix_append s rest
  | endOfInput =>
      obtain ⟨rfl, -⟩ := h
      exact List.suffix_rfl
  | seq a b iha ihb =>
      obtain ⟨mid, ns₁, ns₂, ha, hb, -⟩ := h
      exact ((ihb hb).trans (next_suffix m mid)).trans (iha ha)
  | alt a b iha ihb =>
      rcases h with h | h
      · exact iha h
      · exact ihb h
  | opt a iha =>
      rcases h with ⟨rfl, -⟩ | h
      · exact List.suffix_rfl
      · exact iha h
  | many a iha =>
      rcases h with ⟨rfl, -⟩ | ⟨mid, ns₁, ns₂, ha, hagain, -⟩
      · exact List.suffix_rfl
      · exact (hagain.suffix fun _ _ _ hstep => iha hstep).trans (iha ha)
  | absent a =>
      obtain ⟨rfl, -⟩ := h
      exact List.suffix_rfl
  | rule r grain body ih =>
      obtain ⟨inside, h, -⟩ := h
      exact ih h

/-! ### Every match has come about so -/

theorem again_of_repeatedly {step : Cursor → Attempts → Matched}
    (takes : List Char → List Char → List Node → Prop)
    (hsuffix : ∀ text mid ns, takes text mid ns → mid <:+ text)
    (hstep : ∀ text c ns t t', bytesOf text ≤ total → step (.left total text) t = (some (c, ns), t') →
      ∃ mid, c = .left total mid ∧ takes (m.next text) mid ns)
    {fuel : Nat} {t t' : Attempts} {c : Cursor} (htotal : bytesOf text ≤ total)
    (h : repeatedly step fuel (.left total text) t = ((c, ns), t')) :
    ∃ rest, c = .left total rest ∧ Again m takes text rest ns := by
  induction fuel generalizing text t ns with
  | zero =>
      cases h
      exact ⟨text, rfl, .stop text⟩
  | succ fuel ih =>
      rw [repeatedly] at h
      split at h
      · cases h
        exact ⟨text, rfl, .stop text⟩
      · next c₁ ns₁ t₁ hrun =>
          obtain ⟨mid, rfl, htakes⟩ := hstep _ _ _ _ _ htotal hrun
          have hmid : bytesOf mid ≤ total :=
            bytesOf_le ((hsuffix _ _ _ htakes).trans (next_suffix m text)) htotal
          generalize hagain : repeatedly step fuel (Cursor.left total mid) t₁ = r at h
          obtain ⟨⟨c₂, ns₂⟩, t₂⟩ := r
          cases h
          obtain ⟨rest, rfl, hrest⟩ := ih hmid hagain
          exact ⟨rest, rfl, .step htakes hrest⟩

theorem takes_of_run {e : Expr} {t t' : Attempts} {c : Cursor} (htotal : bytesOf text ≤ total)
    (h : e.run m (.left total text) t = (some (c, ns), t')) :
    ∃ rest, c = .left total rest ∧ e.Takes total m text rest ns := by
  induction e generalizing m text t t' c ns with
  | char p =>
      cases text with
      | nil => cases h
      | cons x xs =>
          have hnext := Cursor.next_left htotal
          by_cases hx : p x = true
          · have hrun : (char p).run m (.left total (x :: xs)) t = (some (.left total xs, []), t) := by
              show ((if p x then some (_, []) else none : Option (Cursor × List Node)), t) = _
              rw [if_pos hx, hnext]
            rw [hrun] at h
            cases h
            exact ⟨xs, rfl, x, rfl, hx, rfl⟩
          · have hrun : (char p).run m (.left total (x :: xs)) t = (none, t) := by
              show ((if p x then some (_, []) else none : Option (Cursor × List Node)), t) = _
              rw [if_neg hx]
            rw [hrun] at h
            cases h
  | text s =>
      rw [run, Prod.mk.injEq, Option.map_eq_some_iff] at h
      obtain ⟨⟨c', hc, heq⟩, -⟩ := h
      cases heq
      obtain ⟨rest, rfl, rfl⟩ := Cursor.of_expect htotal hc
      exact ⟨rest, rfl, rfl, rfl⟩
  | endOfInput =>
      rw [run] at h
      split at h
      · cases h
        exact ⟨text, rfl, rfl, rfl⟩
      · cases h
  | seq a b iha ihb =>
      rw [run] at h
      split at h
      · cases h
      · next c₁ ns₁ t₁ ha =>
          obtain ⟨mid, rfl, htakes⟩ := iha htotal ha
          have hmid : bytesOf mid ≤ total := bytesOf_le htakes.suffix htotal
          rw [next_left hmid] at h
          split at h
          · cases h
          · next c₂ ns₂ t₂ hb =>
              cases h
              obtain ⟨rest, rfl, htakes'⟩ := ihb (bytesOf_le (next_suffix m mid) hmid) hb
              exact ⟨rest, rfl, mid, ns₁, ns₂, htakes, htakes', rfl⟩
  | alt a b iha ihb =>
      rw [run] at h
      split at h
      · obtain ⟨rest, rfl, htakes⟩ := ihb htotal h
        exact ⟨rest, rfl, Or.inr htakes⟩
      · obtain ⟨rest, rfl, htakes⟩ := iha htotal h
        exact ⟨rest, rfl, Or.inl htakes⟩
  | opt a iha =>
      rw [run] at h
      split at h
      · cases h
        exact ⟨text, rfl, Or.inl ⟨rfl, rfl⟩⟩
      · obtain ⟨rest, rfl, htakes⟩ := iha htotal h
        exact ⟨rest, rfl, Or.inr htakes⟩
  | many a iha =>
      rw [run] at h
      split at h
      · cases h
        exact ⟨text, rfl, Or.inl ⟨rfl, rfl⟩⟩
      · next c₁ ns₁ t₁ ha =>
          obtain ⟨mid, rfl, htakes⟩ := iha htotal ha
          have hmid : bytesOf mid ≤ total := bytesOf_le htakes.suffix htotal
          dsimp only at h
          generalize hagain : repeatedly _ _ (Cursor.left total mid) t₁ = r at h
          obtain ⟨⟨c₂, ns₂⟩, t₂⟩ := r
          cases h
          obtain ⟨rest, rfl, hrest⟩ := again_of_repeatedly (a.Takes total m)
            (fun _ _ _ hstep => hstep.suffix) (fun text c ns t t' htext hrun => by
              rw [next_left htext] at hrun
              exact iha (bytesOf_le (next_suffix m text) htext) hrun) hmid hagain
          exact ⟨rest, rfl, Or.inr ⟨mid, ns₁, ns₂, htakes, hrest, rfl⟩⟩
  | absent a iha =>
      rw [run] at h
      split at h
      · cases h
        exact ⟨text, rfl, rfl, rfl⟩
      · cases h
  | rule r grain body ih =>
      rw [run] at h
      split at h
      · cases h
      · next c₁ inside t₁ hbody =>
          obtain ⟨rest, rfl, htakes⟩ := ih htotal hbody
          cases h
          exact ⟨rest, rfl, inside, htakes, rfl⟩

/-! ### Matches that are kept -/

/-- What holds of every match of a step holds of every match of a repetition, if the repetition begins
behind what is skipped. -/
theorem Again.forall_kept {step : List Char → List Char → List Node → Prop} {source : List Char}
    {p : Node → Prop} (hsuffix : ∀ text mid ns, step text mid ns → mid <:+ text)
    (hkept : ∀ text mid ns, m.next text <:+ source → step (m.next text) mid ns → ∀ n ∈ ns, p n)
    (h : Again m step text rest ns) (htext : text <:+ source) : ∀ n ∈ ns, p n := by
  induction h with
  | stop text => exact fun n hn => absurd hn List.not_mem_nil
  | @step text mid rest ns ms h hrest ih =>
      have hnext : m.next text <:+ source := (next_suffix m text).trans htext
      rw [List.forall_mem_append]
      exact ⟨hkept text mid ns hnext h, ih ((hsuffix _ _ _ h).trans hnext)⟩

theorem Takes.forall_many {source : List Char} {p : Node → Prop}
    (hkept : ∀ text mid ns, m.next text <:+ source → a.Takes total m (m.next text) mid ns →
      ∀ n ∈ ns, p n)
    (h : (many a).Takes total m (m.next text) rest ns) (htext : m.next text <:+ source) :
    ∀ n ∈ ns, p n := by
  rcases h with ⟨rfl, rfl⟩ | ⟨mid, ns₁, ns₂, ha, hagain, rfl⟩
  · exact fun n hn => absurd hn List.not_mem_nil
  · rw [List.forall_mem_append]
    exact ⟨hkept _ _ _ htext ha, hagain.forall_kept (fun _ _ _ hstep => hstep.suffix) hkept
      (ha.suffix.trans htext)⟩

end Expr

end Reentrant.Assembly
