import Reentrant.Assembly.Assemble
import Reentrant.Proofs.Decimals
import Reentrant.Proofs.SourceMatching

/-!
What procedures mean. A procedure is a program if its labels differ and each of its instructions has
an operand of the kind that the mnemonic asks for; the program then has one instruction for each. The
printed source of several procedures assembles exactly if this holds of every one and their names
differ, whatever the layout.
-/

namespace Reentrant.Assembly

/-! ### The meaning of an instruction -/

def Plain.op : Plain → Op
  | .pop => .pop
  | .dup => .dup
  | .swap => .swap
  | .add => .add
  | .sub => .sub
  | .mul => .mul
  | .div => .div
  | .eq => .eq
  | .not => .not
  | .throw => .throw
  | .log => .log
  | .ret => .ret

def Jumping.op : Jumping → Nat → Op
  | .jump => .jump
  | .jumpIf => .jumpIf
  | .catchAt => .catchAt

/-- The value that an operand of `push` stands for. -/
def Argument.value? : Argument → Option Value
  | .int z => (int64? z).map .int
  | .bytes d => (Hex.toBytes? d.digits).map .bytes
  | .str s => some (.str s)
  | .name n =>
      if n.text = "true" then some (.bool true)
      else if n.text = "false" then some (.bool false)
      else if n.text = "null" then some .null
      else none

/-- The natural number that an integer is, if it is one below the bound. -/
def below? (bound : Nat) (z : Int) : Option Nat :=
  if 0 ≤ z ∧ z < bound then some z.toNat else none

/-- The index that an operand of a jump stands for, given the indices of the labels. -/
def Argument.target? (place : Name → Option Nat) : Argument → Option Nat
  | .int z => below? (Nat.pow 2 64) z
  | .name n => place n
  | _ => none

/-- The routine that an operand of `native` stands for, given the numbers of symbolic routines. -/
def Argument.routine? (natives : List (String × RoutineId)) : Argument → Option RoutineId
  | .int z => (below? (Nat.pow 2 32) z).map UInt32.ofNat
  | .name n => natives.lookup n.text
  | _ => none

/-- The instruction that a mnemonic and an operand stand for. -/
def meaning? (natives : List (String × RoutineId)) (place : Name → Option Nat) :
    Mnemonic → Option Argument → Option Op
  | .plain i, none => some i.op
  | .push, some a => a.value?.map .push
  | .jumping j, some a => (a.target? place).map j.op
  | .native, some a => (a.routine? natives).map .native
  | _, _ => none

/-! ### The meaning of a procedure -/

/-- The number of instructions in front of a label. -/
def place? : List Item → Name → Option Nat
  | [], _ => none
  | .label l :: rest, n => if l = n then some 0 else place? rest n
  | .instr _ _ :: rest, n => (place? rest n).map (· + 1)

def labels : List Item → List Name
  | [] => []
  | .label l :: rest => l :: labels rest
  | .instr _ _ :: rest => labels rest

def instructions : List Item → List (Mnemonic × Option Argument)
  | [] => []
  | .label _ :: rest => instructions rest
  | .instr m a :: rest => (m, a) :: instructions rest

/-- The program has the procedure's name and one instruction for each of the procedure's, in order. -/
structure Procedure.Means (natives : List (String × RoutineId)) (p : Procedure) (q : Program) :
    Prop where
  name : q.name = p.name.text
  code : List.Forall₂ (fun i op => meaning? natives (place? p.lines) i.1 i.2 = some op)
    (instructions p.lines) q.code

/-! ### Legal operands -/

/-- A 64-bit integer, an even number of digits, any string, or one of three words. -/
def Argument.Pushable : Argument → Prop
  | .int z => -Int.pow 2 63 ≤ z ∧ z < Int.pow 2 63
  | .bytes d => d.digits.length % 2 = 0
  | .str _ => True
  | .name n => n.text = "true" ∨ n.text = "false" ∨ n.text = "null"

/-- One of the labels, or a 64-bit natural number. -/
def Argument.Reachable (ls : List Name) : Argument → Prop
  | .int z => 0 ≤ z ∧ z < Nat.pow 2 64
  | .name n => n ∈ ls
  | _ => False

/-- A symbolic routine, or a 32-bit natural number. -/
def Argument.Callable (natives : List (String × RoutineId)) : Argument → Prop
  | .int z => 0 ≤ z ∧ z < Nat.pow 2 32
  | .name n => n.text ∈ natives.map Prod.fst
  | _ => False

/-- The operand is one that the mnemonic asks for. -/
def Legal (natives : List (String × RoutineId)) (ls : List Name) : Mnemonic → Option Argument → Prop
  | .plain _, none => True
  | .push, some a => a.Pushable
  | .jumping _, some a => a.Reachable ls
  | .native, some a => a.Callable natives
  | _, _ => False

theorem place?_isSome {is : List Item} {n : Name} : (place? is n).isSome = true ↔ n ∈ labels is := by
  induction is with
  | nil => simp [place?, labels]
  | cons i is ih =>
      cases i with
      | label l =>
          by_cases h : l = n
          · simp [place?, labels, h]
          · simp [place?, labels, h, ih, Ne.symm h]
      | instr m a => simpa [place?, labels] using ih

theorem toBytes?_isSome {ds : List Char} (h : ∀ d ∈ ds, Hex.isDigit d = true) :
    (Hex.toBytes? ds).isSome = true ↔ ds.length % 2 = 0 := by
  induction ds using Hex.toBytes?.induct with
  | case1 => simp [Hex.toBytes?]
  | case2 a b rest ih =>
      obtain ⟨ha, hb, hrest⟩ : Hex.isDigit a = true ∧ Hex.isDigit b = true ∧
          ∀ d ∈ rest, Hex.isDigit d = true := by
        simpa only [List.forall_mem_cons] using h
      obtain ⟨high, hhigh⟩ := Option.isSome_iff_exists.1 ha
      obtain ⟨low, hlow⟩ := Option.isSome_iff_exists.1 hb
      have hread : (Hex.toBytes? (a :: b :: rest)).isSome = (Hex.toBytes? rest).isSome := by
        rw [Hex.toBytes?, hhigh, hlow]
        cases Hex.toBytes? rest <;> rfl
      rw [hread, ih hrest]
      simp only [List.length_cons]
      omega
  | case3 a => simp [Hex.toBytes?]

theorem below?_isSome {bound : Nat} {z : Int} : (below? bound z).isSome = true ↔ 0 ≤ z ∧ z < bound := by
  unfold below?
  split
  · next h => simp [h]
  · next h => simp [h]

theorem Argument.value?_isSome (a : Argument) : a.value?.isSome = true ↔ a.Pushable := by
  cases a with
  | int z =>
      rw [value?, Option.isSome_map, int64?, Pushable]
      split
      · next h => exact iff_of_true rfl h
      · next h => exact iff_of_false Bool.false_ne_true h
  | bytes d =>
      rw [value?, Option.isSome_map]
      exact toBytes?_isSome (List.all_eq_true.1 d.isHex)
  | str s => simp [value?, Pushable]
  | name n =>
      rw [value?, Pushable]
      by_cases htrue : n.text = "true"
      · simp [htrue]
      · by_cases hfalse : n.text = "false"
        · simp [hfalse]
        · simp [htrue, hfalse]

theorem Argument.target?_isSome (is : List Item) (a : Argument) :
    (a.target? (place? is)).isSome = true ↔ a.Reachable (labels is) := by
  cases a with
  | int z => exact below?_isSome
  | name n => exact place?_isSome
  | bytes d => simp [target?, Reachable]
  | str s => simp [target?, Reachable]

theorem Argument.routine?_isSome (natives : List (String × RoutineId)) (a : Argument) :
    (a.routine? natives).isSome = true ↔ a.Callable natives := by
  cases a with
  | int z =>
      rw [routine?, Option.isSome_map]
      exact below?_isSome
  | name n =>
      rw [routine?, List.lookup_isSome_iff, Callable, List.mem_map]
      exact exists_congr fun e => and_congr_right fun _ => by rw [beq_iff_eq, eq_comm]
  | bytes d => simp [routine?, Callable]
  | str s => simp [routine?, Callable]

/-- The instructions that have a meaning. -/
theorem meaning?_isSome (natives : List (String × RoutineId)) (is : List Item) (m : Mnemonic)
    (a : Option Argument) :
    (meaning? natives (place? is) m a).isSome = true ↔ Legal natives (labels is) m a := by
  cases m with
  | plain i => cases a <;> simp [meaning?, Legal]
  | push =>
      cases a with
      | none => simp [meaning?, Legal]
      | some a =>
          rw [meaning?, Option.isSome_map]
          exact a.value?_isSome
  | jumping j =>
      cases a with
      | none => simp [meaning?, Legal]
      | some a =>
          rw [meaning?, Option.isSome_map]
          exact a.target?_isSome is
  | native =>
      cases a with
      | none => simp [meaning?, Legal]
      | some a =>
          rw [meaning?, Option.isSome_map]
          exact a.routine?_isSome natives

/-! ### Reading literals -/

/-- An integer is read back from its canonical digits. -/
theorem readInt?_ofInt (z : Int) : Decimal.readInt? (Decimal.ofInt z) = some z := by
  cases z with
  | negSucc n =>
      show (Decimal.readNat? (Decimal.ofNat (n + 1))).map (fun n => -(n : Int)) = _
      rw [Decimal.readNat?_ofNat]
      rfl
  | ofNat n =>
      have hread := Decimal.readNat?_ofNat n
      obtain ⟨-, hdigits⟩ := ofNat_digits n
      show Decimal.readInt? (Decimal.ofNat n) = _
      unfold Decimal.readInt?
      split
      · next cs heq =>
          rw [heq] at hdigits
          cases hdigits '-' List.mem_cons_self
      · next cs heq =>
          rw [heq] at hdigits
          cases hdigits '+' List.mem_cons_self
      · rw [hread]
        rfl

theorem readBelow?_ofInt (bound : Nat) (z : Int) :
    readBelow? bound (Decimal.ofInt z) = below? bound z := by
  cases z with
  | negSucc n =>
      have hread : Decimal.readNat? (Decimal.ofInt (.negSucc n)) = none :=
        if_neg (by simp [Decimal.ofInt])
      rw [readBelow?, hread, below?, if_neg (by omega)]
      rfl
  | ofNat n =>
      show (Decimal.readNat? (Decimal.ofNat n)).filter (· < bound) = _
      rw [Decimal.readNat?_ofNat, below?]
      by_cases h : n < bound
      · rw [if_pos ⟨Int.natCast_nonneg n, by simpa using h⟩]
        simp [h]
      · rw [if_neg (by simpa using h)]
        simpa using h

/-- Escapes are read as what they were written for. -/
theorem unescape_quoted {cs w : List Char} (h : Quoted cs w) : unescape w = cs := by
  induction h with
  | nil => rfl
  | @raw c cs w hquote hslash hw ih =>
      rw [unescape, ih]
      intro _ _ hc
      exact absurd hc hslash
  | @escaped c cs w hc hw ih =>
      rw [unescape, ih]
      rcases hc with rfl | rfl <;> rfl
  | lineFeed hw ih =>
      rw [unescape, ih]
      rfl
  | tab hw ih =>
      rw [unescape, ih]
      rfl

theorem ofList_chars (m : Mnemonic) : String.ofList m.chars = m.text := String.ofList_toList

/-- A name is a word exactly if its text is that word. -/
theorem Name.chars_eq_iff (n : Name) (word : String) : n.chars = word.toList ↔ n.text = word := by
  constructor
  · intro h
    rw [text, h, String.ofList_toList]
  · rintro rfl
    exact String.toList_ofList.symm

theorem Name.chars_injective {n n' : Name} (h : n.chars = n'.chars) : n = n' := by
  obtain ⟨x, xs, _, _⟩ := n
  obtain ⟨y, ys, _, _⟩ := n'
  cases h
  rfl

theorem Name.text_injective {n n' : Name} (h : n.text = n'.text) : n = n' :=
  Name.chars_injective (String.ofList_injective h)

/-! ### Assembling an instruction -/

section Instructions

variable {o : Operand} {a : Argument}

theorem literal_tells (h : o.Tells a) (v : Value) : literal (some o) = .ok v ↔ a.value? = some v := by
  cases h with
  | int z =>
      rw [literal, readInt?_ofInt, Option.bind_some, Argument.value?]
      cases int64? z <;> simp
  | bytes d =>
      rw [literal, Argument.value?]
      cases Hex.toBytes? d.digits <;> simp
  | str hraw => simp [literal, Argument.value?, unescape_quoted hraw]
  | name n =>
      rw [literal, Argument.value?]
      simp only [n.chars_eq_iff]
      split
      · simp
      · split
        · simp
        · split <;> simp

theorem target_tells {known : List (List Char × Nat)} {place : Name → Option Nat}
    (hknown : ∀ n : Name, known.lookup n.chars = place n) (h : o.Tells a) (mnemonic : String)
    (k : Nat) : target known mnemonic (some o) = .ok k ↔ a.target? place = some k := by
  cases h with
  | int z =>
      rw [target, readBelow?_ofInt, Argument.target?]
      cases below? (Nat.pow 2 64) z <;> simp
  | name n =>
      rw [target, hknown, Argument.target?]
      cases place n <;> simp
  | bytes d => simp [target, Argument.target?]
  | str hraw => simp [target, Argument.target?]

theorem routine_tells (natives : List (String × RoutineId)) (h : o.Tells a) (id : RoutineId) :
    routine natives (some o) = .ok id ↔ a.routine? natives = some id := by
  cases h with
  | int z =>
      rw [routine, readBelow?_ofInt, Argument.routine?]
      cases below? (Nat.pow 2 32) z <;> simp
  | name n =>
      have hlookup : natives.lookup (String.ofList n.chars) = natives.lookup n.text := rfl
      rw [routine, hlookup, Argument.routine?]
      cases natives.lookup n.text <;> simp
  | bytes d => simp [routine, Argument.routine?]
  | str hraw => simp [routine, Argument.routine?]

theorem map_ok_iff {ε α β : Type} {r : Except ε α} {f : α → β} {b : β} :
    r.map f = .ok b ↔ ∃ a, r = .ok a ∧ f a = b := by
  cases r <;> simp [Except.map]

theorem instruction_bare (natives : List (String × RoutineId)) (known : List (List Char × Nat))
    (place : Name → Option Nat) (m : Mnemonic) (op : Op) :
    instruction natives known m.text none = .ok op ↔ meaning? natives place m none = some op := by
  cases m with
  | plain i =>
      have heq : instruction natives known (Mnemonic.plain i).text none = .ok i.op := by
        cases i <;> rfl
      rw [heq, meaning?, Except.ok.injEq, Option.some.injEq]
  | push =>
      have heq : instruction natives known Mnemonic.push.text none = .error .nothingToPush := rfl
      simp [heq, meaning?]
  | jumping j =>
      have heq : instruction natives known (Mnemonic.jumping j).text none =
          .error (.needsLabel (Mnemonic.jumping j).text) := by
        cases j <;> rfl
      simp [heq, meaning?]
  | native =>
      have heq : instruction natives known Mnemonic.native.text none = .error .needsRoutine := rfl
      simp [heq, meaning?]

theorem instruction_operand (natives : List (String × RoutineId))
    {known : List (List Char × Nat)} {place : Name → Option Nat}
    (hknown : ∀ n : Name, known.lookup n.chars = place n) (h : o.Tells a) (m : Mnemonic) (op : Op) :
    instruction natives known m.text (some o) = .ok op ↔
      meaning? natives place m (some a) = some op := by
  cases m with
  | plain i =>
      have heq : instruction natives known (Mnemonic.plain i).text (some o) =
          .error (.takesNoOperand (Mnemonic.plain i).text) := by
        cases i <;> rfl
      simp [heq, meaning?]
  | push =>
      have heq : instruction natives known Mnemonic.push.text (some o) =
          (literal (some o)).map .push := rfl
      rw [heq, map_ok_iff, meaning?, Option.map_eq_some_iff]
      exact exists_congr fun v => and_congr_left fun _ => literal_tells h v
  | jumping j =>
      have heq : instruction natives known (Mnemonic.jumping j).text (some o) =
          (target known (Mnemonic.jumping j).text (some o)).map j.op := by
        cases j <;> rfl
      rw [heq, map_ok_iff, meaning?, Option.map_eq_some_iff]
      exact exists_congr fun k => and_congr_left fun _ => target_tells hknown h _ k
  | native =>
      have heq : instruction natives known Mnemonic.native.text (some o) =
          (routine natives (some o)).map .native := rfl
      rw [heq, map_ok_iff, meaning?, Option.map_eq_some_iff]
      exact exists_congr fun id => and_congr_left fun _ => routine_tells natives h id

end Instructions

/-! ### Assembling a procedure -/

/-- The number of instruction lines in front of a label. -/
def indexOf? : List Line → List Char → Option Nat
  | [], _ => none
  | .label l _ :: rest, name => if l = name then some 0 else indexOf? rest name
  | .instr _ _ _ :: rest, name => (indexOf? rest name).map (· + 1)

/-- Labels are taken up with the number of instructions in front of them. -/
theorem lookup_of_labelsFrom {procedure : String} {known ls : List (List Char × Nat)} {k : Nat}
    {lines : List Line} (h : labelsFrom procedure known k lines = .ok ls) (name : List Char) :
    ls.lookup name = (known.lookup name).or ((indexOf? lines name).map (· + k)) := by
  induction lines generalizing known k with
  | nil =>
      cases h
      simp [indexOf?]
  | cons line rest ih =>
      cases line with
      | instr mnemonic operand span =>
          rw [ih h, indexOf?, Option.map_map]
          simp only [Function.comp_def, Nat.add_assoc, Nat.add_comm 1 k]
      | label l span =>
          rw [labelsFrom] at h
          split at h
          · cases h
          · next hnew =>
              rw [ih h, List.lookup_cons, indexOf?]
              by_cases hl : l = name
              · subst hl
                rw [if_pos rfl, beq_self_eq_true, Option.not_isSome_iff_eq_none.1 hnew]
                simp
              · rw [beq_false_of_ne (Ne.symm hl), if_neg hl]

section Procedures

variable {lines : List Line} {is : List Item}

/-- A name that is not among the known labels once another has been taken up. -/
theorem lookup_cons_eq_none_iff (n n' : Name) (k : Nat) (known : List (List Char × Nat)) :
    ((n.chars, k) :: known).lookup n'.chars = none ↔ n' ≠ n ∧ known.lookup n'.chars = none := by
  rw [List.lookup_cons]
  by_cases hn : n' = n
  · simp [hn]
  · have hchars : (n'.chars == n.chars) = false :=
      beq_false_of_ne fun heq => hn (Name.chars_injective heq)
    simp [hchars, hn]

/-- The labels are taken up if they differ from one another and from those in front. -/
theorem labelsFrom_tells (h : List.Forall₂ Line.Tells lines is) (procedure : String)
    (known : List (List Char × Nat)) (k : Nat) :
    (∃ ls, labelsFrom procedure known k lines = .ok ls) ↔
      (labels is).Nodup ∧ ∀ n ∈ labels is, known.lookup n.chars = none := by
  induction h generalizing known k with
  | nil => simp [labelsFrom, labels]
  | cons hline _ ih =>
      cases hline with
      | bare m span => exact ih known (k + 1)
      | operand m span ho => exact ih known (k + 1)
      | label n span =>
          rw [labelsFrom, labels, List.nodup_cons, List.forall_mem_cons]
          cases hlookup : known.lookup n.chars with
          | some i => simp
          | none =>
              rw [if_neg (by simp), ih]
              have hcons := fun n' : Name => lookup_cons_eq_none_iff n n' k known
              constructor
              · rintro ⟨hnodup, hnew⟩
                exact ⟨⟨fun hmem => ((hcons n).1 (hnew n hmem)).1 rfl, hnodup⟩, rfl,
                  fun n' hn' => ((hcons n').1 (hnew n' hn')).2⟩
              · rintro ⟨⟨hmem, hnodup⟩, -, hnew⟩
                refine ⟨hnodup, fun n' hn' => (hcons n').2 ⟨?_, hnew n' hn'⟩⟩
                rintro rfl
                exact hmem hn'

theorem indexOf?_tells (h : List.Forall₂ Line.Tells lines is) (n : Name) :
    indexOf? lines n.chars = place? is n := by
  induction h with
  | nil => rfl
  | cons hline _ ih =>
      cases hline with
      | bare m span => exact congrArg (Option.map (· + 1)) ih
      | operand m span ho => exact congrArg (Option.map (· + 1)) ih
      | label l span =>
          have hname : l.chars = n.chars ↔ l = n := ⟨Name.chars_injective, fun heq => heq ▸ rfl⟩
          simp only [indexOf?, place?, hname, ih]

/-- The labels that are taken up have the indices of the instructions behind them. -/
theorem lookup_labelsFrom (h : List.Forall₂ Line.Tells lines is) {procedure : String}
    {known ls : List (List Char × Nat)} {k : Nat} (hls : labelsFrom procedure known k lines = .ok ls)
    (n : Name) : ls.lookup n.chars = (known.lookup n.chars).or ((place? is n).map (· + k)) := by
  rw [lookup_of_labelsFrom hls, indexOf?_tells h]

/-- One more instruction, before lines that stand for these. -/
theorem codeOf_instr {natives : List (String × RoutineId)} {known : List (List Char × Nat)}
    {place : Name → Option Nat} {m : Mnemonic} {o : Option Operand} {a : Option Argument}
    (hop : ∀ op, instruction natives known m.text o = .ok op ↔ meaning? natives place m a = some op)
    (hrest : ∀ ops, codeOf natives known lines = .ok ops ↔
      List.Forall₂ (fun i op => meaning? natives place i.1 i.2 = some op) (instructions is) ops)
    (span : Span) (ops : List Op) :
    codeOf natives known (.instr m.chars o span :: lines) = .ok ops ↔
      List.Forall₂ (fun i op => meaning? natives place i.1 i.2 = some op)
        (instructions (.instr m a :: is)) ops := by
  rw [codeOf, ofList_chars, instructions, List.forall₂_cons_left_iff]
  cases hinstruction : instruction natives known m.text o with
  | error e =>
      constructor
      · intro hok
        cases hok
      · rintro ⟨op, _, hmeaning, -⟩
        rw [(hop op).2 hmeaning] at hinstruction
        cases hinstruction
  | ok op =>
      dsimp only
      rw [map_ok_iff]
      constructor
      · rintro ⟨ops', hops', rfl⟩
        exact ⟨op, ops', (hop op).1 hinstruction, (hrest ops').1 hops', rfl⟩
      · rintro ⟨op', ops', hmeaning, hops', rfl⟩
        obtain rfl : op = op' := Option.some.inj (((hop op).1 hinstruction).symm.trans hmeaning)
        exact ⟨ops', (hrest ops').2 hops', rfl⟩

theorem codeOf_tells (natives : List (String × RoutineId)) {known : List (List Char × Nat)}
    {place : Name → Option Nat} (hknown : ∀ n : Name, known.lookup n.chars = place n)
    (h : List.Forall₂ Line.Tells lines is) (ops : List Op) :
    codeOf natives known lines = .ok ops ↔
      List.Forall₂ (fun i op => meaning? natives place i.1 i.2 = some op) (instructions is) ops := by
  induction h generalizing ops with
  | nil => simp [codeOf, instructions, eq_comm]
  | cons hline _ ih =>
      cases hline with
      | label n span => exact ih ops
      | bare m span => exact codeOf_instr (instruction_bare natives known place m) ih span ops
      | operand m span ho =>
          exact codeOf_instr (instruction_operand natives hknown ho m) ih span ops

/-- A listing is a program exactly if what it says is one. -/
theorem program_tells (natives : List (String × RoutineId)) {l : Listing} {p : Procedure}
    (h : l.Tells p) (q : Program) :
    l.program natives = .ok q ↔ (labels p.lines).Nodup ∧ p.Means natives q := by
  have hname : String.ofList l.name = p.name.text := congrArg String.ofList h.name
  have hlabels := labelsFrom_tells h.lines (String.ofList l.name) [] 0
  unfold Listing.program
  dsimp only
  cases hls : labelsFrom (String.ofList l.name) [] 0 l.lines with
  | error e =>
      rw [hls] at hlabels
      constructor
      · intro hok
        cases hok
      · rintro ⟨hnodup, -⟩
        obtain ⟨ls, hok⟩ := hlabels.2 ⟨hnodup, fun _ _ => rfl⟩
        cases hok
  | ok ls =>
      have hnodup : (labels p.lines).Nodup := (hlabels.1 ⟨ls, hls⟩).1
      have hknown : ∀ n : Name, ls.lookup n.chars = place? p.lines n := by
        intro n
        rw [lookup_labelsFrom h.lines hls n]
        simp
      dsimp only
      rw [map_ok_iff, hname]
      constructor
      · rintro ⟨ops, hops, rfl⟩
        exact ⟨hnodup, rfl, (codeOf_tells natives hknown h.lines ops).1 hops⟩
      · rintro ⟨-, hqname, hcode⟩
        refine ⟨q.code, (codeOf_tells natives hknown h.lines q.code).2 hcode, ?_⟩
        rw [← hqname]

/-- Names that are new once the name of another procedure has been taken up. -/
theorem new_names_iff (p : Procedure) (ps : List Procedure) (before : List String) :
    (∀ p' ∈ ps, p'.name.text ∉ p.name.text :: before) ↔
      p.name ∉ ps.map (·.name) ∧ ∀ p' ∈ ps, p'.name.text ∉ before := by
  constructor
  · intro hnew
    refine ⟨fun hmem => ?_, fun p' hp' hmem => hnew p' hp' (List.mem_cons_of_mem _ hmem)⟩
    obtain ⟨p', hp', heq⟩ := List.mem_map.1 hmem
    exact hnew p' hp' (heq ▸ List.mem_cons_self)
  · rintro ⟨hname, hnew⟩ p' hp' hmem
    rcases List.mem_cons.1 hmem with heq | hmem
    · exact hname (List.mem_map.2 ⟨p', hp', Name.text_injective heq⟩)
    · exact hnew p' hp' hmem

/-- Listings are programs exactly if what they say is, with names that differ from one another and
from those in front. -/
theorem programsFrom_tells (natives : List (String × RoutineId)) {listings : List Listing}
    {ps : List Procedure} (h : List.Forall₂ Listing.Tells listings ps) (before : List String)
    (qs : List Program) :
    programsFrom natives before listings = .ok qs ↔
      (ps.map (·.name)).Nodup ∧ (∀ p ∈ ps, p.name.text ∉ before) ∧
        (∀ p ∈ ps, (labels p.lines).Nodup) ∧ List.Forall₂ (Procedure.Means natives) ps qs := by
  induction h generalizing before qs with
  | nil => simp [programsFrom, eq_comm]
  | @cons l p listings ps hl _ ih =>
      have hprogram := program_tells natives hl
      rw [programsFrom, List.forall₂_cons_left_iff, List.map_cons, List.nodup_cons,
        List.forall_mem_cons, List.forall_mem_cons]
      cases hread : l.program natives with
      | error e =>
          constructor
          · intro hok
            cases hok
          · rintro ⟨-, -, ⟨hnodup, -⟩, q, _, hmeans, -⟩
            rw [(hprogram q).2 ⟨hnodup, hmeans⟩] at hread
            cases hread
      | ok q =>
          obtain ⟨hnodup, hmeans⟩ := (hprogram q).1 hread
          have hunique : ∀ q', p.Means natives q' → q' = q := fun q' hq' =>
            Except.ok.inj (((hprogram q').2 ⟨hnodup, hq'⟩).symm.trans hread)
          dsimp only
          split
          · next hbefore =>
              rw [hmeans.name, List.contains_iff_mem] at hbefore
              constructor
              · intro hok
                cases hok
              · rintro ⟨-, ⟨hnew, -⟩, -⟩
                exact absurd hbefore hnew
          · next hbefore =>
              rw [hmeans.name, List.contains_iff_mem] at hbefore
              rw [map_ok_iff]
              have hnames := new_names_iff p ps before
              rw [hmeans.name]
              constructor
              · rintro ⟨qs', hqs', rfl⟩
                obtain ⟨hdistinct, hnew, hlabels, hrest⟩ := (ih (p.name.text :: before) qs').1 hqs'
                obtain ⟨hname, hnew⟩ := hnames.1 hnew
                exact ⟨⟨hname, hdistinct⟩, ⟨hbefore, hnew⟩, ⟨hnodup, hlabels⟩, q, qs', hmeans, hrest,
                  rfl⟩
              · rintro ⟨⟨hname, hdistinct⟩, ⟨-, hnew⟩, ⟨-, hlabels⟩, q', qs', hq', hrest, rfl⟩
                obtain rfl := hunique q' hq'
                exact ⟨qs', (ih _ qs').2 ⟨hdistinct, hnames.2 ⟨hname, hnew⟩, hlabels, hrest⟩, rfl⟩

end Procedures

/-! ### Assembling a printed source -/

theorem assemble_ok_iff (natives : List (String × RoutineId)) {ps : List Procedure}
    {text : List Char} (h : PrintsSource ps text) (qs : List Program) :
    assemble natives (String.ofList text) = .ok qs ↔
      (ps.map (·.name)).Nodup ∧ (∀ p ∈ ps, (labels p.lines).Nodup) ∧
        List.Forall₂ (Procedure.Means natives) ps qs := by
  obtain ⟨ls, hread, htells⟩ := read_printed h
  have hprograms := programsFrom_tells natives htells [] qs
  unfold assemble
  rw [String.toList_ofList, hread]
  dsimp only
  cases hqs : programsFrom natives [] ls with
  | error e =>
      rw [hqs] at hprograms
      constructor
      · intro hok
        cases hok
      · rintro ⟨hnames, hlabels, hmeans⟩
        cases hprograms.2 ⟨hnames, fun _ _ => List.not_mem_nil, hlabels, hmeans⟩
  | ok qs' =>
      rw [hqs, Except.ok.injEq] at hprograms
      dsimp only
      rw [Except.ok.injEq, hprograms]
      exact and_congr_right fun _ => and_iff_right fun _ _ => List.not_mem_nil

theorem exists_forall₂_iff {α β : Type} {R : α → β → Prop} {l : List α} :
    (∃ l', List.Forall₂ R l l') ↔ ∀ a ∈ l, ∃ b, R a b := by
  induction l with
  | nil => exact ⟨fun _ _ h => absurd h List.not_mem_nil, fun _ => ⟨[], .nil⟩⟩
  | cons a l ih =>
      rw [List.forall_mem_cons, ← ih]
      constructor
      · rintro ⟨_, hrelated⟩
        cases hrelated with
        | cons ha hl => exact ⟨⟨_, ha⟩, _, hl⟩
      · rintro ⟨⟨b, ha⟩, l', hl⟩
        exact ⟨b :: l', .cons ha hl⟩

/-- The procedures that mean a program are those whose operands are all legal. -/
theorem exists_means_iff (natives : List (String × RoutineId)) (p : Procedure) :
    (∃ q, p.Means natives q) ↔
      ∀ i ∈ instructions p.lines, Legal natives (labels p.lines) i.1 i.2 := by
  have hcode : (∃ q, p.Means natives q) ↔ ∃ ops, List.Forall₂
      (fun i op => meaning? natives (place? p.lines) i.1 i.2 = some op) (instructions p.lines) ops :=
    ⟨fun ⟨q, hq⟩ => ⟨q.code, hq.code⟩, fun ⟨ops, hops⟩ => ⟨⟨p.name.text, ops⟩, rfl, hops⟩⟩
  rw [hcode, exists_forall₂_iff]
  refine forall₂_congr fun i _ => ?_
  rw [← meaning?_isSome, Option.isSome_iff_exists]

/-- A procedure that goes round for ever. -/
def looping : Procedure where
  name := ⟨'m', ['a', 'i', 'n'], by decide, by decide⟩
  lines :=
    [.label ⟨'l', [], by decide, by decide⟩, .instr .push (some (.str "a\"\n")),
      .instr (.plain .pop) none,
      .instr (.jumping .jump) (some (.name ⟨'l', [], by decide, by decide⟩))]

def loopingSource : String :=
  "proc main ; waits\n\nl :\r\n\tpush \"a\\\"\\n\"\rpop;\n jump l\nend\n"

theorem looping_printed :
    ∃ text, String.ofList text = loopingSource ∧ PrintsSource [looping] text := by
  have hblank : Blanks [' '] := by decide
  have hnone : Blanks [] := by decide
  have hempty : Trailing [] := .blanks hnone
  have hcomment : Trailing ([' '] ++ ';' :: " waits".toList) := .comment hblank (by decide)
  have hstring : PrintsArgument (.str "a\"\n") ('"' :: (['a', '\\', '"', '\\', 'n'] ++ ['"'])) :=
    .str (.raw (by decide) (by decide) (.escaped (.inl rfl) (.lineFeed .nil)))
  have hbody : PrintsBody looping.lines _ :=
    .line hnone (.label _ hblank) hempty .crlf .nil
      (.line (b := ['\t']) (by decide) (.operand .push hblank (by decide) hstring) hempty .cr .nil
        (.line hnone (.bare (.plain .pop)) (.comment (c := []) hnone (by decide)) .lf .nil
          (.line hblank (.operand (.jumping .jump) hblank (by decide) (.name _)) hempty .lf .nil
            (.last hnone))))
  have hproc : PrintsProcedure looping _ :=
    .mk hblank (by decide) hcomment .lf (.line hempty .lf .nil) hbody
  have hsource : PrintsSource [looping] _ :=
    .mk .nil (.next hnone hproc (by decide) (.line hempty .lf .nil) (.done hempty))
  exact ⟨_, rfl, hsource⟩

end Reentrant.Assembly
