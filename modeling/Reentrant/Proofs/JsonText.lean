import Reentrant.Json.Basic
import Reentrant.Json.Draft
import Reentrant.Proofs.Decimals

/-!
Reading a compact JSON text back. The text of a value is read as that value and nothing behind it is
touched, as long as what stands behind it cannot be taken for more of a number.
-/

namespace Reentrant

namespace Json

mutual

/-- The draft of a value, which has no defect. -/
def draft : Json → Draft
  | .null => .null
  | .bool b => .bool b
  | .int z => .int z
  | .string s => .string (.ok s)
  | .array items => .array items.draft
  | .object members => .object members.draft

def Items.draft : Items → Draft.Items
  | .nil => .nil .closed
  | .cons item rest => .cons item.draft rest.draft

def Members.draft : Members → Draft.Members
  | .nil => .nil .closed
  | .cons key value rest => .cons (.ok key) value.draft rest.draft

end

mutual

/-- Every integer has 64 bits, with a sign or without. -/
def Narrow : Json → Prop
  | .int z => -Int.pow 2 63 ≤ z ∧ z < Int.pow 2 64
  | .array items => items.Narrow
  | .object members => members.Narrow
  | _ => True

def Items.Narrow : Items → Prop
  | .nil => True
  | .cons item rest => item.Narrow ∧ rest.Narrow

def Members.Narrow : Members → Prop
  | .nil => True
  | .cons _ value rest => value.Narrow ∧ rest.Narrow

end

end Json

namespace Draft

/-! ### Numbers -/

/-- A number that ends here has ended. -/
def Ended (rest : List Char) : Prop :=
  ∀ c ∈ rest.head?, isDigit c = false ∧ c ≠ '.' ∧ c ≠ 'e' ∧ c ≠ 'E'

theorem isDigit_eq (c : Char) : isDigit c = c.isDigit := by
  rw [isDigit, Char.isDigit]
  rfl

theorem digits_taken {ds rest : List Char} (hds : ds.all Char.isDigit = true) (hrest : Ended rest) :
    (ds ++ rest).takeWhile isDigit = ds := by
  rw [List.takeWhile_append_of_pos]
  · cases rest with
    | nil => simp
    | cons c rest => simp [(hrest c rfl).1]
  · intro c hc
    rw [isDigit_eq]
    exact List.all_eq_true.1 hds c hc

theorem number_ofNat (negative : Bool) (n : Nat) {rest : List Char} (hrest : Ended rest) :
    number negative (Decimal.ofNat n ++ rest) = (wholeNumber negative (Decimal.ofNat n), rest) := by
  obtain ⟨hne, hall, -⟩ := Decimal.digits_ofNat n
  rw [number, digits_taken hall hrest, List.drop_left]
  split
  · next heq => exact absurd heq hne
  · next heq => cases Decimal.ofNat_head_zero heq
  · split
    · exact absurd rfl (hrest '.' rfl).2.1
    · exact absurd rfl (hrest 'e' rfl).2.2.1
    · exact absurd rfl (hrest 'E' rfl).2.2.2
    · rfl

/-- An integer of at most 64 bits, behind its sign. -/
theorem wholeNumber_ofInt {z : Int} (hz : -Int.pow 2 63 ≤ z ∧ z < Int.pow 2 64) :
    wholeNumber (decide (z < 0)) (Decimal.ofNat z.natAbs) = .int z := by
  have hread := (Decimal.digits_ofNat z.natAbs).2.2
  have hlow : Int.pow 2 63 = 9223372036854775808 := rfl
  have hhigh : Int.pow 2 64 = 18446744073709551616 := rfl
  have hlow' : Nat.pow 2 63 = 9223372036854775808 := rfl
  have hhigh' : Nat.pow 2 64 = 18446744073709551616 := rfl
  rw [wholeNumber, hread]
  rw [hlow, hhigh] at hz
  by_cases hneg : z < 0
  · rw [decide_eq_true hneg, if_pos rfl, if_pos (by omega)]
    congr 1
    omega
  · rw [decide_eq_false hneg, if_neg Bool.false_ne_true, if_pos (by omega)]
    congr 1
    omega

/-! ### Strings -/

theorem hex4_control :
    ∀ n < 32, ∀ rest, hex4 ('0' :: '0' :: Json.controlDigits n ++ rest) = .ok (n, rest) := by
  have hread : ∀ n < 32,
      Hex.toNat? ['0', '0', Hex.digit (n / 16), Hex.digit (n % 16)] = some n := by
    decide
  intro n hn rest
  simp only [Json.controlDigits, List.cons_append, List.nil_append, hex4, hread n hn]

theorem pushUnit_control {n : Nat} (hn : n < 32) (acc : List Char) :
    pushUnit (.ok acc) none n = (.ok (Char.ofNat n :: acc), none) := by
  rw [pushUnit, if_neg (by omega), if_neg (by omega)]
  rfl

/-- One character of a string is read from its escape. -/
theorem stringBody_escapeChar (c : Char) (fuel : Nat) (acc rest : List Char) :
    stringBody (fuel + 1) (.ok acc) none (Json.escapeChar c ++ rest) =
      stringBody fuel (.ok (c :: acc)) none rest := by
  have hescaped : ∀ {x : Char}, x ≠ 'u' → escaped? x = some c →
      stringBody (fuel + 1) (.ok acc) none (['\\', x] ++ rest) =
        stringBody fuel (.ok (c :: acc)) none rest := by
    intro x hu hx
    simp only [List.cons_append, List.nil_append, stringBody, if_true, Option.isSome_none,
      Bool.false_eq_true, if_false]
    rw [hx]
    rfl
  rw [Json.escapeChar]
  split
  · next h => exact hescaped (by decide) (by rw [h]; rfl)
  split
  · next h => exact hescaped (by decide) (by rw [h]; rfl)
  split
  · next h => exact hescaped (by decide) (by rw [h]; rfl)
  split
  · next h => exact hescaped (by decide) (by rw [h]; rfl)
  split
  · next h => exact hescaped (by decide) (by rw [h]; rfl)
  split
  · next h =>
      refine hescaped (by decide) ?_
      rw [← Char.ofNat_toNat c, h]
      rfl
  split
  · next h =>
      refine hescaped (by decide) ?_
      rw [← Char.ofNat_toNat c, h]
      rfl
  split
  · next hcontrol =>
      have hhex := hex4_control c.toNat hcontrol rest
      have hpush := pushUnit_control hcontrol acc
      rw [Char.ofNat_toNat] at hpush
      simp only [List.cons_append, stringBody, if_true] at hhex ⊢
      simp only [hhex, hpush]
  · next hquote hbackslash _ _ _ _ _ hcontrol =>
      simp only [List.cons_append, List.nil_append, stringBody, if_neg hbackslash, if_neg hquote,
        if_neg hcontrol, Option.isSome_none, Bool.false_eq_true, if_false]
      rfl

theorem stringBody_escaped (cs : List Char) {fuel : Nat} (hfuel : cs.length < fuel)
    (acc rest : List Char) :
    stringBody fuel (.ok acc) none (cs.flatMap Json.escapeChar ++ '"' :: rest) =
      .inr (.ok (cs.reverse ++ acc), rest) := by
  induction cs generalizing fuel acc with
  | nil =>
      obtain ⟨fuel, rfl⟩ := Nat.exists_eq_add_of_lt hfuel
      rfl
  | cons c cs ih =>
      obtain ⟨fuel, rfl⟩ := Nat.exists_eq_add_of_lt hfuel
      rw [List.flatMap_cons, List.append_assoc, stringBody_escapeChar, ih (by simp; omega)]
      simp

theorem length_flatMap_escapeChar (cs : List Char) :
    cs.length ≤ (cs.flatMap Json.escapeChar).length := by
  have hone : ∀ c, 1 ≤ (Json.escapeChar c).length := by
    intro c
    unfold Json.escapeChar
    repeat' split
    all_goals simp
  induction cs with
  | nil => exact Nat.le_refl _
  | cons c cs ih =>
      have hc := hone c
      rw [List.flatMap_cons, List.length_append, List.length_cons]
      omega

/-- A quoted string is read back, behind its opening quote. -/
theorem stringFrom_escaped (cs rest : List Char) :
    stringFrom (cs.flatMap Json.escapeChar ++ '"' :: rest) =
      .inr (.ok (String.ofList cs), rest) := by
  have hlength := length_flatMap_escapeChar cs
  rw [stringFrom, stringBody_escaped cs (by rw [List.length_append]; omega)]
  simp [Partial.text, Except.map]

/-! ### Values -/

theorem skipSpace_cons {c : Char} (hc : isSpace c = false) (cs : List Char) :
    skipSpace (c :: cs) = c :: cs := by
  rw [skipSpace, List.dropWhile_cons, hc]
  rfl

theorem not_space_of_isDigit {c : Char} (hc : isDigit c = true) : isSpace c = false := by
  rw [Bool.eq_false_iff]
  intro hspace
  simp only [isSpace, Bool.or_eq_true, beq_iff_eq] at hspace
  rcases hspace with ((rfl | rfl) | rfl) | rfl <;> cases hc

theorem value_digit {c : Char} (hc : isDigit c = true) (fuel : Nat) (cs : List Char) :
    value (fuel + 1) (c :: cs) = number false (c :: cs) := by
  rw [value, skipSpace_cons (not_space_of_isDigit hc)]
  split
  · next heq => cases heq
  all_goals next heq =>
    obtain ⟨rfl, rfl⟩ := List.cons.inj heq
    first
    | cases hc
    | rw [if_pos hc]

/-- An integer is read as itself. -/
theorem value_int {z : Int} (hz : -Int.pow 2 63 ≤ z ∧ z < Int.pow 2 64) (fuel : Nat)
    {rest : List Char} (hrest : Ended rest) :
    value (fuel + 1) (Decimal.ofInt z ++ rest) = (.int z, rest) := by
  have hwhole := wholeNumber_ofInt hz
  cases z with
  | ofNat n =>
      have hnumber := number_ofNat false n hrest
      obtain ⟨hne, hall, -⟩ := Decimal.digits_ofNat n
      simp only [Decimal.ofInt] at hnumber ⊢
      cases hds : Decimal.ofNat n with
      | nil => exact absurd hds hne
      | cons d ds =>
          rw [hds, List.all_cons, Bool.and_eq_true] at hall
          rw [hds] at hnumber
          rw [List.cons_append, value_digit (by rw [isDigit_eq]; exact hall.1)]
          rw [← List.cons_append, hnumber, ← hds]
          exact congrArg (·, rest) hwhole
  | negSucc n =>
      rw [decide_eq_true (Int.negSucc_lt_zero n), Int.natAbs_negSucc] at hwhole
      simp only [Decimal.ofInt, List.cons_append, value, skipSpace_cons (c := '-') rfl]
      rw [number_ofNat true (n + 1) hrest]
      exact congrArg (·, rest) hwhole

/-- The text of a value begins with something that neither is a blank nor closes a bracket. -/
theorem render_head (j : Json) :
    ∃ c cs, j.render = c :: cs ∧ isSpace c = false ∧ c ≠ ']' ∧ c ≠ '\x7d' := by
  have hdigits : ∀ n, ∃ c cs, Decimal.ofNat n = c :: cs ∧ isSpace c = false ∧ c ≠ ']' ∧
      c ≠ '\x7d' := by
    intro n
    obtain ⟨hne, hall, -⟩ := Decimal.digits_ofNat n
    cases hds : Decimal.ofNat n with
    | nil => exact absurd hds hne
    | cons d ds =>
        rw [hds, List.all_cons, Bool.and_eq_true, ← isDigit_eq] at hall
        refine ⟨d, ds, rfl, not_space_of_isDigit hall.1, ?_, ?_⟩ <;> rintro rfl <;> cases hall.1
  cases j with
  | null => exact ⟨_, _, rfl, rfl, by decide, by decide⟩
  | bool b => cases b <;> exact ⟨_, _, rfl, rfl, by decide, by decide⟩
  | int z =>
      cases z with
      | ofNat n => exact hdigits n
      | negSucc n => exact ⟨_, _, rfl, rfl, by decide, by decide⟩
  | string s => exact ⟨_, _, rfl, rfl, by decide, by decide⟩
  | array items => cases items <;> exact ⟨_, _, rfl, rfl, by decide, by decide⟩
  | object members => cases members <;> exact ⟨_, _, rfl, rfl, by decide, by decide⟩

theorem items_first (j : Json) (fuel : Nat) (rest : List Char) :
    items (fuel + 1) true (j.render ++ rest) = item fuel (j.render ++ rest) := by
  obtain ⟨c, cs, hrender, hspace, hclose, -⟩ := render_head j
  rw [hrender, List.cons_append, items, skipSpace_cons hspace]
  simp only [if_neg hclose, if_true]

theorem items_next (j : Json) (fuel : Nat) (rest : List Char) :
    items (fuel + 1) false (',' :: (j.render ++ rest)) = item fuel (j.render ++ rest) := by
  obtain ⟨c, cs, hrender, hspace, hclose, -⟩ := render_head j
  have hcomma : ',' ≠ ']' := by decide
  rw [hrender, List.cons_append, items, skipSpace_cons rfl]
  simp only [if_neg hcomma, ne_eq, not_true_eq_false, if_false, Bool.false_eq_true,
    skipSpace_cons hspace, if_neg hclose]

theorem members_first (fuel : Nat) (rest : List Char) :
    members (fuel + 1) true ('"' :: rest) = member fuel ('"' :: rest) := by
  rw [members, skipSpace_cons rfl]
  rfl

theorem members_next (fuel : Nat) (rest : List Char) :
    members (fuel + 1) false (',' :: '"' :: rest) = member fuel ('"' :: rest) := by
  have hcomma : ',' ≠ '\x7d' := by decide
  have hquote : '"' ≠ '\x7d' := by decide
  rw [members, skipSpace_cons rfl]
  simp only [if_neg hcomma, ne_eq, not_true_eq_false, if_false, Bool.false_eq_true,
    skipSpace_cons (c := '"') rfl, if_neg hquote]

/-- A member whose value and whose followers are read back. -/
theorem member_quote (key : String) {fuel : Nat} {text rest : List Char} {d : Draft} {ms : Members}
    {between : List Char} (hvalue : value fuel text = (d, between))
    (hmembers : members fuel false between = (ms, rest)) :
    member (fuel + 1) (Json.quote key.toList ++ ':' :: text) = (.cons (.ok key) d ms, rest) := by
  have hkey := stringFrom_escaped key.toList (':' :: text)
  rw [String.ofList_toList] at hkey
  simp only [Json.quote, List.cons_append, List.append_assoc, List.nil_append, member, hkey,
    skipSpace_cons (c := ':') rfl, if_true, hvalue, hmembers]

theorem ended_renderItems (is : Json.Items) (rest : List Char) :
    Ended (Json.renderItems is ++ rest) := by
  intro c hc
  cases is <;> cases hc <;> decide

theorem ended_renderMembers (ms : Json.Members) (rest : List Char) :
    Ended (Json.renderMembers ms ++ rest) := by
  intro c hc
  cases ms <;> cases hc <;> decide

theorem length_render_pos (j : Json) : 0 < j.render.length := by
  obtain ⟨c, cs, hrender, -⟩ := render_head j
  rw [hrender]
  exact Nat.succ_pos _

theorem length_renderItems_pos (is : Json.Items) : 0 < (Json.renderItems is).length := by
  cases is <;> exact Nat.succ_pos _

theorem length_renderMembers_pos (ms : Json.Members) : 0 < (Json.renderMembers ms).length := by
  cases ms <;> exact Nat.succ_pos _

mutual

/-- The text of a value is read as that value. -/
theorem value_render (j : Json) (hj : j.Narrow) (fuel : Nat) (hfuel : 2 * j.render.length ≤ fuel)
    {rest : List Char} (hrest : Ended rest) : value fuel (j.render ++ rest) = (j.draft, rest) := by
  have hpos := length_render_pos j
  obtain ⟨fuel, rfl⟩ := Nat.exists_eq_add_of_lt (show 0 < fuel by omega)
  rw [Nat.zero_add]
  cases j with
  | null => rfl
  | bool b => cases b <;> rfl
  | int z => exact value_int hj fuel hrest
  | string s =>
      have hstring := stringFrom_escaped s.toList rest
      rw [String.ofList_toList] at hstring
      simp only [Json.render, Json.quote, List.cons_append, List.append_assoc, List.nil_append, value,
        skipSpace_cons (c := '"') rfl, hstring, Json.draft]
  | array is =>
      cases is with
      | nil =>
          obtain ⟨fuel, rfl⟩ := Nat.exists_eq_add_of_lt
            (show 0 < fuel by simp [Json.render] at hfuel; omega)
          rfl
      | cons item is =>
          have hitem := length_render_pos item
          have hitems := length_renderItems_pos is
          simp only [Json.render, List.length_cons, List.length_append] at hfuel
          obtain ⟨fuel, rfl⟩ := Nat.exists_eq_add_of_lt (show 1 < fuel by omega)
          have hvalue := value_render item hj.1 fuel (by omega) (ended_renderItems is rest)
          have hrest := items_renderItems is hj.2 fuel (by omega) rest
          simp only [Json.render, List.cons_append, List.append_assoc, value,
            skipSpace_cons (c := '[') rfl]
          rw [Nat.add_comm 1, items_first, Draft.item, hvalue]
          simp only [hrest, Json.draft, Json.Items.draft]
  | object ms =>
      cases ms with
      | nil =>
          obtain ⟨fuel, rfl⟩ := Nat.exists_eq_add_of_lt
            (show 0 < fuel by simp [Json.render] at hfuel; omega)
          rfl
      | cons key item ms =>
          have hitem := length_render_pos item
          have hitems := length_renderMembers_pos ms
          simp only [Json.render, List.length_cons, List.length_append] at hfuel
          obtain ⟨fuel, rfl⟩ := Nat.exists_eq_add_of_lt (show 1 < fuel by omega)
          have hvalue := value_render item hj.1 fuel (by omega) (ended_renderMembers ms rest)
          have hrest := members_renderMembers ms hj.2 fuel (by omega) rest
          have hmember := member_quote key hvalue hrest
          simp only [Json.quote, List.cons_append, List.append_assoc] at hmember
          simp only [Json.render, Json.quote, List.cons_append, List.append_assoc, value,
            skipSpace_cons (c := '\x7b') rfl]
          rw [Nat.add_comm 1, members_first, hmember]
          rfl

theorem items_renderItems (is : Json.Items) (his : is.Narrow) (fuel : Nat)
    (hfuel : 2 * (Json.renderItems is).length ≤ fuel) (rest : List Char) :
    items fuel false (Json.renderItems is ++ rest) = (is.draft, rest) := by
  cases is with
  | nil =>
      obtain ⟨fuel, rfl⟩ := Nat.exists_eq_add_of_lt
        (show 0 < fuel by simp [Json.renderItems] at hfuel; omega)
      rfl
  | cons item is =>
      have hitem := length_render_pos item
      have hitems := length_renderItems_pos is
      simp only [Json.renderItems, List.length_cons, List.length_append] at hfuel
      obtain ⟨fuel, rfl⟩ := Nat.exists_eq_add_of_lt (show 1 < fuel by omega)
      have hvalue := value_render item his.1 fuel (by omega) (ended_renderItems is rest)
      have hrest := items_renderItems is his.2 fuel (by omega) rest
      simp only [Json.renderItems, List.cons_append, List.append_assoc]
      rw [Nat.add_comm 1, items_next, Draft.item, hvalue]
      simp only [hrest, Json.Items.draft]

theorem members_renderMembers (ms : Json.Members) (hms : ms.Narrow) (fuel : Nat)
    (hfuel : 2 * (Json.renderMembers ms).length ≤ fuel) (rest : List Char) :
    members fuel false (Json.renderMembers ms ++ rest) = (ms.draft, rest) := by
  cases ms with
  | nil =>
      obtain ⟨fuel, rfl⟩ := Nat.exists_eq_add_of_lt
        (show 0 < fuel by simp [Json.renderMembers] at hfuel; omega)
      rfl
  | cons key item ms =>
      have hitem := length_render_pos item
      have hitems := length_renderMembers_pos ms
      simp only [Json.renderMembers, List.length_cons, List.length_append] at hfuel
      obtain ⟨fuel, rfl⟩ := Nat.exists_eq_add_of_lt (show 1 < fuel by omega)
      have hvalue := value_render item hms.1 fuel (by omega) (ended_renderMembers ms rest)
      have hrest := members_renderMembers ms hms.2 fuel (by omega) rest
      have hmember := member_quote key hvalue hrest
      simp only [Json.quote, List.cons_append, List.append_assoc] at hmember
      simp only [Json.renderMembers, Json.quote, List.cons_append, List.append_assoc]
      rw [Nat.add_comm 1, members_next, hmember]
      rfl

end

/-- A compact text holds its value and nothing else. -/
theorem ofText_render (j : Json) (hj : j.Narrow) : ofText j.render = (j.draft, []) := by
  have hended : Ended [] := by
    intro c hc
    cases hc
  have hvalue := value_render j hj (3 * j.render.length + 3) (by omega) hended
  rw [List.append_nil] at hvalue
  exact hvalue

end Draft

end Reentrant
