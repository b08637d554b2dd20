import Reentrant.Proofs.SourceMeaning

/-!
Shown values are literals. A value of any kind but `str` is shown as the operand of a `push` that pushes
it, so that the shown text tells the value.
-/

namespace Reentrant

/-! ### Digits of bytes -/

namespace Hex

theorem value?_digit {n : Nat} (hn : n < 16) : value? (digit n) = some n := by
  have hall : ∀ k < 16, value? (digit k) = some k := by decide
  exact hall n hn

theorem isDigit_ofByte (b : UInt8) : ∀ d ∈ ofByte b, isDigit d = true := by
  have hb := b.toNat_lt
  rw [ofByte, List.forall_mem_cons, List.forall_mem_singleton, isDigit, isDigit, value?_digit (by omega),
    value?_digit (by omega)]
  exact ⟨rfl, rfl⟩

theorem isDigit_ofBytes (bs : List UInt8) : (ofBytes bs).all isDigit = true := by
  rw [List.all_eq_true]
  intro d hd
  obtain ⟨b, -, hb⟩ := List.mem_flatMap.1 hd
  exact isDigit_ofByte b d hb

/-- Bytes are read back from their digits. -/
theorem toBytes?_ofBytes (bs : List UInt8) : toBytes? (ofBytes bs) = some bs := by
  induction bs with
  | nil => rfl
  | cons b bs ih =>
    have hb := b.toNat_lt
    have hbyte : UInt8.ofNat (16 * (b.toNat / 16) + b.toNat % 16) = b := by
      rw [Nat.div_add_mod, UInt8.ofNat_toNat]
    change toBytes? (digit (b.toNat / 16) :: digit (b.toNat % 16) :: ofBytes bs) = _
    rw [toBytes?, value?_digit (by omega), value?_digit (by omega), ih]
    exact congrArg (fun b => some (b :: bs)) hbyte

end Hex

namespace Assembly

/-! ### A source that pushes one value -/

/-- A value that is not a string is shown as an operand that stands for it. -/
theorem exists_argument {v : Value} (hv : v.kind ≠ .str) :
    ∃ a, PrintsArgument a v.displayChars ∧ a.value? = some v := by
  cases v with
  | null => exact ⟨_, .name ⟨'n', ['u', 'l', 'l'], rfl, rfl⟩, rfl⟩
  | bool b =>
    cases b with
    | false => exact ⟨_, .name ⟨'f', ['a', 'l', 's', 'e'], rfl, rfl⟩, rfl⟩
    | true => exact ⟨_, .name ⟨'t', ['r', 'u', 'e'], rfl, rfl⟩, rfl⟩
  | int n => exact ⟨_, .int n.toInt, by rw [Argument.value?, int64?_toInt]; rfl⟩
  | str s => exact absurd rfl hv
  | bytes bs =>
    exact ⟨_, .bytes ⟨Hex.ofBytes bs, Hex.isDigit_ofBytes bs⟩,
      by rw [Argument.value?, Hex.toBytes?_ofBytes]; rfl⟩

/-- A procedure of one line, which pushes the shown value. -/
def pushSource (p : Name) (v : Value) (ending : String) : String :=
  "proc " ++ p.text ++ "\npush " ++ v.display ++ "\nend" ++ ending

theorem pushSource_printed (p : Name) {v : Value} {ending : String} {a : Argument}
    (ha : PrintsArgument a v.displayChars) (hending : ending = "" ∨ ending = "\n") :
    ∃ text, String.ofList text = pushSource p v ending ∧
      PrintsSource [⟨p, [.instr .push (some a)]⟩] text := by
  have hblank : Blanks [' '] := by decide
  have hnone : Blanks [] := by decide
  have hempty : Trailing [] := .blanks hnone
  have hgap : ∃ g, String.ofList g = ending ∧ Gap g ∧ Parted (g ++ []) := by
    rcases hending with rfl | rfl
    · exact ⟨[], rfl, .nil, by decide⟩
    · exact ⟨['\n'], rfl, .line hempty .lf .nil, by decide⟩
  obtain ⟨g, rfl, hg, hparted⟩ := hgap
  have hproc : PrintsProcedure ⟨p, [.instr .push (some a)]⟩ _ :=
    .mk hblank (by decide) hempty .lf .nil
      (.line hnone (.operand .push hblank (by decide) ha) hempty .lf .nil (.last hnone))
  refine ⟨_, ?_, .mk .nil (.next hnone hproc hparted hg (.done hempty))⟩
  rw [← String.toList_inj]
  simp [pushSource, Value.display, Name.text, Mnemonic.chars, Mnemonic.text]

theorem assemble_pushSource (natives : List (String × RoutineId)) (p : Name) {v : Value} {ending : String}
    (hv : v.kind ≠ .str) (hending : ending = "" ∨ ending = "\n") :
    assemble natives (pushSource p v ending) = .ok [⟨p.text, [.push v]⟩] := by
  obtain ⟨a, ha, hvalue⟩ := exists_argument hv
  obtain ⟨text, htext, hprinted⟩ := pushSource_printed p ha hending
  have hmeaning : meaning? natives (place? [.instr .push (some a)]) .push (some a) = some (.push v) := by
    rw [meaning?, hvalue]
    rfl
  rw [← htext, assemble_ok_iff natives hprinted]
  refine ⟨by simp, ?_, .cons ⟨rfl, .cons hmeaning .nil⟩ .nil⟩
  rw [List.forall_mem_singleton]
  exact List.nodup_nil

/-- Every value but a string is pushed by the source that shows it, and no two are shown alike. -/
theorem shown_value_pushed :
    (∀ (natives : List (String × RoutineId)) (p : Name) (v : Value) (ending : String), v.kind ≠ .str →
      (ending = "" ∨ ending = "\n") →
      assemble natives (pushSource p v ending) = .ok [⟨p.text, [.push v]⟩]) ∧
    ∀ v w : Value, v.kind ≠ .str → w.kind ≠ .str → v.display = w.display → v = w := by
  refine ⟨fun natives p v ending hv hending => assemble_pushSource natives p hv hending,
    fun v w hv hw heq => ?_⟩
  let p : Name := ⟨'p', [], rfl, rfl⟩
  have hsource : pushSource p v "" = pushSource p w "" := by rw [pushSource, heq, pushSource]
  have hpv := assemble_pushSource [] p hv (.inl rfl)
  rw [hsource, assemble_pushSource [] p hw (.inl rfl)] at hpv
  injection hpv with hprograms
  injection hprograms with hprogram
  injection hprogram with _ hcode
  injection hcode with hop
  injection hop with hvalue
  exact hvalue.symm

theorem shown_least_pushed :
    assemble [("sum", 3)] "proc p\npush -9223372036854775808\nend\n" =
      .ok [⟨"p", [.push (.int Int64.minValue)]⟩] ∧
    assemble [] "proc p\npush 0x\nend" = .ok [⟨"p", [.push (.bytes [])]⟩] ∧
    Value.int (Int64.ofInt 9223372036854775808) = .int Int64.minValue := by
  let p : Name := ⟨'p', [], rfl, rfl⟩
  have hleast : pushSource p (.int Int64.minValue) "\n" = "proc p\npush -9223372036854775808\nend\n" := by
    decide +kernel
  have hempty : pushSource p (.bytes []) "" = "proc p\npush 0x\nend" := by decide +kernel
  refine ⟨?_, ?_, ?_⟩
  · rw [← hleast]
    exact shown_value_pushed.1 [("sum", 3)] p (.int Int64.minValue) "\n" nofun (.inr rfl)
  · rw [← hempty]
    exact shown_value_pushed.1 [] p (.bytes []) "" nofun (.inl rfl)
  · exact shown_value_pushed.2 _ _ nofun nofun (by decide +kernel)

end Assembly

end Reentrant
