import Reentrant.Builtin
import Reentrant.Proofs.ForeseenFaults
import Reentrant.Proofs.Registration
import Reentrant.Proofs.SourceMeaning

/-!
Symbols across registering, assembling and validating. What assembles against the symbols of a
registry has, for each symbolic routine, the number of the routine of that very name, and for each
label an index within the code; so validating it against the same registry finds nothing wrong with an
instruction that was written with a symbol.
-/

namespace Reentrant.Assembly

variable {σ : Type}

/-! ### Procedures as they are written -/

/-- The instructions of a procedure as they are written: mnemonics with their operands. -/
def written : List Line → List (String × Option Operand)
  | [] => []
  | .label _ _ :: rest => written rest
  | .instr mnemonic operand _ :: rest => (String.ofList mnemonic, operand) :: written rest

/-- A label may stand behind the last instruction, but no further. -/
theorem indexOf?_le {lines : List Line} {name : List Char} {i : Nat}
    (h : indexOf? lines name = some i) : i ≤ (written lines).length := by
  induction lines generalizing i with
  | nil => cases h
  | cons line rest ih =>
      cases line with
      | label l span =>
          rw [indexOf?] at h
          split at h
          · cases h
            exact Nat.zero_le _
          · exact ih h
      | instr mnemonic operand span =>
          obtain ⟨j, hj, rfl⟩ := Option.map_eq_some_iff.1 h
          exact Nat.succ_le_succ (ih hj)

/-! ### Symbols -/

/-- What an instruction with the symbol `name` for its operand is to become: a native call of the
routine of that name, a jump to the label of that name, or the push of a word. -/
inductive Symbolic (g : Registry σ) (lines : List Line) (name : List Char) : String → Op → Prop where
  | native {r : Routine σ} (hget : g.get? r.id = some r) (hname : r.name = String.ofList name) :
      Symbolic g lines name "native" (.native r.id)
  | jump {i : Nat} (hindex : indexOf? lines name = some i) : Symbolic g lines name "jump" (.jump i)
  | jumpIf {i : Nat} (hindex : indexOf? lines name = some i) :
      Symbolic g lines name "jump_if" (.jumpIf i)
  | catchAt {i : Nat} (hindex : indexOf? lines name = some i) :
      Symbolic g lines name "catch" (.catchAt i)
  | word {v : Value} (hword : (String.ofList name, v) ∈
      [("true", .bool true), ("false", .bool false), ("null", Value.null)]) :
      Symbolic g lines name "push" (.push v)

variable {g : Registry σ} {lines : List Line} {name : List Char}

/-- No instruction without an operand is taken for one with a symbol. -/
theorem plain_lookup_of_symbol {natives : List (String × RoutineId)}
    {labels : List (List Char × Nat)} {mnemonic : String} {o : Operand} {op : Op}
    (h : instruction natives labels mnemonic (some o) = .ok op) : plain.lookup mnemonic = none := by
  unfold instruction at h
  split at h
  · cases h
  · next hlookup => exact hlookup

theorem word_of_literal {v : Value} (h : literal (some (.ident name)) = .ok v) :
    (String.ofList name, v) ∈
      [("true", .bool true), ("false", .bool false), ("null", Value.null)] := by
  rw [literal] at h
  split at h
  · next hname =>
      cases h
      simp [hname]
  · split at h
    · next hname =>
        cases h
        simp [hname]
    · split at h
      · next hname =>
          cases h
          simp [hname]
      · cases h

theorem lookup_of_target {labels : List (List Char × Nat)} {mnemonic : String} {i : Nat}
    (h : target labels mnemonic (some (.ident name)) = .ok i) : labels.lookup name = some i := by
  rw [target] at h
  split at h
  · next hlookup =>
      cases h
      exact hlookup
  · cases h

theorem lookup_of_routine {natives : List (String × RoutineId)} {id : RoutineId}
    (h : routine natives (some (.ident name)) = .ok id) :
    natives.lookup (String.ofList name) = some id := by
  rw [routine] at h
  split at h
  · next hlookup =>
      cases h
      exact hlookup
  · cases h

/-- Nothing that a symbol became is flawed. -/
theorem Symbolic.unflawed {mnemonic : String} {op : Op} (h : Symbolic g lines name mnemonic op)
    {length : Nat} (hlength : (written lines).length = length) :
    flaw? g.contains length op = none := by
  cases h with
  | native hget hname =>
      have hknown : g.contains _ = true := Option.isSome_iff_exists.2 ⟨_, hget⟩
      simp [flaw?, hknown]
  | jump hindex | jumpIf hindex | catchAt hindex =>
      exact if_neg (Nat.not_lt.2 (hlength ▸ indexOf?_le hindex))
  | word => rfl

/-! ### Programs -/

theorem codeOf_ok {natives : List (String × RoutineId)} {labels : List (List Char × Nat)}
    {lines : List Line} {ops : List Op} (h : codeOf natives labels lines = .ok ops) :
    List.Forall₂ (fun i op => instruction natives labels i.1 i.2 = .ok op) (written lines) ops := by
  induction lines generalizing ops with
  | nil =>
      cases h
      exact .nil
  | cons line rest ih =>
      cases line with
      | label l span => exact ih h
      | instr mnemonic operand span =>
          rw [codeOf] at h
          split at h
          · cases h
          · next op hop =>
              obtain ⟨ops', hops', rfl⟩ := map_ok_iff.1 h
              exact .cons hop (ih hops')

/-- A program and what it was assembled from agree on every symbol: it has one instruction for each
that is written, no label lies behind the end of its code, and validating finds nothing wrong with an
instruction whose operand is a symbol. -/
structure Listing.Agrees (g : Registry σ) (l : Listing) (p : Program) : Prop where
  name : p.name = String.ofList l.name
  code : List.Forall₂ (fun i op => ∀ name, i.2 = some (.ident name) →
    Symbolic g l.lines name i.1 op) (written l.lines) p.code
  inside : ∀ name i, indexOf? l.lines name = some i → i ≤ p.code.length
  unreported : ∀ i mnemonic name, (written l.lines)[i]? = some (mnemonic, some (.ident name)) →
    i ∉ (validate g.contains p).map (·.index)

section Agreement

variable {natives : List (String × RoutineId)}
  (hnatives : ∀ name id, natives.lookup name = some id → ∃ r, g.get? id = some r ∧ r.name = name)

include hnatives

/-- Whatever has a symbol for its operand becomes what it is to become. -/
theorem symbolic_of_instruction {labels : List (List Char × Nat)} {mnemonic : String} {op : Op}
    (hlabels : labels.lookup name = indexOf? lines name)
    (h : instruction natives labels mnemonic (some (.ident name)) = .ok op) :
    Symbolic g lines name mnemonic op := by
  have hplain := plain_lookup_of_symbol h
  rw [instruction, hplain] at h
  dsimp only at h
  split at h
  · next hpush =>
      obtain ⟨v, hv, rfl⟩ := map_ok_iff.1 h
      exact hpush ▸ .word (word_of_literal hv)
  split at h
  · next hjump =>
      obtain ⟨i, hi, rfl⟩ := map_ok_iff.1 h
      exact hjump ▸ .jump (hlabels ▸ lookup_of_target hi)
  split at h
  · next hjump =>
      obtain ⟨i, hi, rfl⟩ := map_ok_iff.1 h
      exact hjump ▸ .jumpIf (hlabels ▸ lookup_of_target hi)
  split at h
  · next hcatch =>
      obtain ⟨i, hi, rfl⟩ := map_ok_iff.1 h
      exact hcatch ▸ .catchAt (hlabels ▸ lookup_of_target hi)
  split at h
  · next hnative =>
      obtain ⟨id, hid, rfl⟩ := map_ok_iff.1 h
      obtain ⟨r, hget, hname⟩ := hnatives _ _ (lookup_of_routine hid)
      obtain rfl : r.id = id := by simpa using List.find?_some hget
      exact hnative ▸ .native hget hname
  · cases h

theorem agrees_of_program {l : Listing} {p : Program} (h : l.program natives = .ok p) :
    l.Agrees g p := by
  unfold Listing.program at h
  dsimp only at h
  split at h
  · cases h
  · next labels hlabels =>
      obtain ⟨ops, hops, rfl⟩ := map_ok_iff.1 h
      have hlookup : ∀ name, labels.lookup name = indexOf? l.lines name := by
        intro name
        rw [lookup_of_labelsFrom hlabels]
        simp
      have hcode : List.Forall₂ (fun i op => ∀ name, i.2 = some (.ident name) →
          Symbolic g l.lines name i.1 op) (written l.lines) ops := by
        refine (codeOf_ok hops).imp fun i op hop name hname => ?_
        rw [hname] at hop
        exact symbolic_of_instruction hnatives (hlookup name) hop
      have hlength : (written l.lines).length = ops.length := hcode.length_eq
      refine ⟨rfl, hcode, fun name i hi => hlength ▸ indexOf?_le hi, ?_⟩
      intro i mnemonic name hi hreported
      obtain ⟨op, hop, hflaw⟩ := reported_iff.1 hreported
      obtain ⟨hwritten, hi⟩ := List.getElem?_eq_some_iff.1 hi
      obtain ⟨hcoded, rfl⟩ := List.getElem?_eq_some_iff.1 hop
      have hsymbolic := hcode.get hwritten hcoded name (congrArg Prod.snd hi)
      rw [List.get_eq_getElem, List.get_eq_getElem] at hsymbolic
      rw [hsymbolic.unflawed hlength] at hflaw
      cases hflaw

theorem agrees_of_programsFrom {before : List String} {ls : List Listing} {ps : List Program}
    (h : programsFrom natives before ls = .ok ps) : List.Forall₂ (Listing.Agrees g) ls ps := by
  induction ls generalizing before ps with
  | nil =>
      cases h
      exact .nil
  | cons l rest ih =>
      rw [programsFrom] at h
      split at h
      · cases h
      · next p hp =>
          split at h
          · cases h
          · obtain ⟨ps', hps', rfl⟩ := map_ok_iff.1 h
            exact .cons (agrees_of_program hnatives hp) (ih hps')

end Agreement

/-- Registry, assembler and validator agree on symbols. After any row of offers, granted or refused, the
registry refuses exactly what has a number or else a name that is taken, and is left as it was by that;
names and numbers are one-to-one in its symbols, and its routines are all listed in increasing order of
their numbers. A source that assembles against these symbols has for every symbolic operand what is
registered or labelled under that very name, and validating its programs against the same registry
reports none of the instructions that have one. -/
theorem symbols_agree (poll : σ → Poll σ) (offers : List (Routine σ)) :
    Registry.OneToOne (Registry.ofOffers poll offers) (Registry.granted offers) ∧
    ∀ source ps, assemble (Registry.ofOffers poll offers).symbols source = .ok ps →
      ∃ ls, Listing.read source.toList = .ok ls ∧
        List.Forall₂ (Listing.Agrees (Registry.ofOffers poll offers)) ls ps := by
  have honeToOne := (Registry.holds_ofOffers poll offers).oneToOne
  refine ⟨honeToOne, fun source ps h => ?_⟩
  unfold assemble at h
  split at h
  · cases h
  · next ls hls =>
      refine ⟨ls, hls, ?_⟩
      split at h
      · cases h
      · next ps' hps =>
          cases h
          exact agrees_of_programsFrom honeToOne.found hps

/-- The built-in routines, all of them offered again, and a source whose label stands at the end. -/
theorem symbols_agree_twice :
    ∃ ls, Listing.read "proc main\nnative add\njump last\nlast:\nend\n".toList = .ok ls ∧
      List.Forall₂
        (Listing.Agrees
          (Registry.ofOffers Builtin.poll (Builtin.routines id ++ Builtin.routines id))) ls
        [⟨"main", [.native 2, .jump 2]⟩] := by
  refine (symbols_agree Builtin.poll (Builtin.routines id ++ Builtin.routines id)).2 _ _ ?_
  rfl

end Reentrant.Assembly
