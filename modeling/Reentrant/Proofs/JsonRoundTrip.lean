import Reentrant.Json.Codec
import Reentrant.Proofs.SchemaReading

/-!
The JSON text of every type that is exchanged as data is read back as the value it was written from.
Indices, numbers of frames and offsets are natural numbers here; they have to have 64 bits.
-/

namespace Reentrant

open Json (Datum Schema)

/-- A type whose layout holds its values: their data fits the schema and is told apart. -/
class JsonData.Faithful (α : Type) [JsonData α] where
  InRange : α → Prop
  sound : (JsonData.schema α).sound = true
  fits : ∀ a, InRange a → (JsonData.schema α).Fits (JsonData.toDatum a)
  reread : ∀ a, InRange a → JsonData.ofDatum? (JsonData.toDatum a) = some a

/-- The texts of values in range are read back, so that different values have different texts. -/
structure JsonData.RoundTrips (α : Type) [JsonData α] (InRange : α → Prop) : Prop where
  decode_text : ∀ a, InRange a → JsonData.decode α (JsonData.text a).toList = .ok a
  text_injective : ∀ a b, InRange a → InRange b → JsonData.text a = JsonData.text b → a = b

theorem JsonData.roundTrips (α : Type) [JsonData α] [h : Faithful α]
    (hdepth : (schema α).depth < Schema.nesting) : RoundTrips α h.InRange := by
  have hdecode : ∀ a, h.InRange a → decode α (text a).toList = .ok a := by
    intro a ha
    rw [decode, text, encode, Json.compact, String.toList_ofList,
      Schema.parse_render (schema α) h.sound hdepth (h.fits a ha)]
    simp only [h.reread a ha]
  refine ⟨hdecode, fun a b ha hb htext => ?_⟩
  have hab := hdecode a ha
  rw [htext, hdecode b hb] at hab
  exact (Except.ok.inj hab).symm

/-! ### Numbers and rows -/

namespace Json

theorem Schema.fits_unsigned {n bits : Nat} (hn : n < Nat.pow 2 bits) :
    (Schema.unsigned bits).Fits (.ofNat n) := by
  have hpow : Int.pow 2 bits = (Nat.pow 2 bits : Int) := (Int.natCast_pow 2 bits).symm
  exact ⟨Int.natCast_nonneg n, by rw [hpow]; exact Int.ofNat_lt.2 hn⟩

theorem Schema.fits_signed64 (n : Int64) : Schema.signed64.Fits (.int n.toInt) :=
  ⟨n.le_toInt, n.toInt_lt⟩

theorem Schema.fits_list {α : Type} {s : Schema} {toDatum : α → Datum} {as : List α}
    (has : ∀ a ∈ as, s.Fits (toDatum a)) : (Schema.list s).Fits (.list (as.map toDatum)) := by
  rw [Schema.Fits]
  intro d hd
  obtain ⟨a, ha, rfl⟩ := List.mem_map.1 hd
  exact has a ha

theorem Schema.fits_bytes (bs : List UInt8) : Schema.bytes.Fits (.ofBytes bs) :=
  fits_list fun b _ => fits_unsigned b.toNat_lt

namespace Datum

theorem mapM_map {α : Type} {toDatum : α → Datum} {ofDatum? : Datum → Option α} {as : List α}
    (has : ∀ a ∈ as, ofDatum? (toDatum a) = some a) : (as.map toDatum).mapM ofDatum? = some as := by
  induction as with
  | nil => rfl
  | cons a as ih =>
      rw [List.forall_mem_cons] at has
      rw [List.map_cons, List.mapM_cons, has.1, ih has.2]
      rfl

@[simp] theorem toNat?_ofNat (n : Nat) : (Datum.ofNat n).toNat? = some n := by
  rw [ofNat, toNat?, if_pos (Int.natCast_nonneg n), Int.toNat_natCast]

@[simp] theorem toBytes?_ofBytes (bs : List UInt8) : (Datum.ofBytes bs).toBytes? = some bs := by
  refine mapM_map fun b _ => ?_
  have hb := b.toNat_lt
  rw [toByte?, if_pos (by omega), Int.toNat_natCast, UInt8.ofNat_toNat]

end Datum

end Json

/-! ### Values and programs -/

theorem Value.fits (v : Value) : Value.schema.Fits v.toDatum := by
  cases v with
  | null => rfl
  | bool b => exact ⟨_, rfl, trivial⟩
  | int n => exact ⟨_, rfl, Schema.fits_signed64 n⟩
  | str s => exact ⟨_, rfl, trivial⟩
  | bytes bs => exact ⟨_, rfl, Schema.fits_bytes bs⟩

theorem Value.ofDatum?_toDatum (v : Value) : Value.ofDatum? v.toDatum = some v := by
  cases v <;> simp [Value.toDatum, Value.ofDatum?]

/-- A value is an object, so that a present one is told from an absent one. -/
theorem Value.write_ne_null (v : Value) : Value.schema.write v.toDatum ≠ .null := by
  cases v <;> exact Json.noConfusion

instance : JsonData.Faithful Value where
  InRange _ := True
  sound := by decide +kernel
  fits v _ := v.fits
  reread v _ := v.ofDatum?_toDatum

/-- A jump's target has 64 bits. -/
def Op.InRange : Op → Prop
  | .jump target => target < Nat.pow 2 64
  | .jumpIf target => target < Nat.pow 2 64
  | .catchAt target => target < Nat.pow 2 64
  | _ => True

theorem Op.fits (op : Op) (hop : op.InRange) : Op.schema.Fits op.toDatum := by
  cases op with
  | push v =>
      cases v with
      | null => rfl
      | bool b => exact ⟨_, rfl, trivial⟩
      | int n => exact ⟨_, rfl, Schema.fits_signed64 n⟩
      | str s => exact ⟨_, rfl, trivial⟩
      | bytes bs => exact ⟨_, rfl, Schema.fits_bytes bs⟩
  | jump target => exact ⟨_, rfl, Schema.fits_unsigned hop⟩
  | jumpIf target => exact ⟨_, rfl, Schema.fits_unsigned hop⟩
  | catchAt target => exact ⟨_, rfl, Schema.fits_unsigned hop⟩
  | native id => exact ⟨_, rfl, Schema.fits_unsigned id.toNat_lt⟩
  | _ => rfl

theorem Op.ofDatum?_toDatum (op : Op) : Op.ofDatum? op.toDatum = some op := by
  cases op with
  | push v =>
      cases v with
      | int n => exact congrArg (Option.map fun n => Op.push (.int n)) (int64?_toInt n)
      | bytes bs =>
          exact congrArg (Option.map fun bs => Op.push (.bytes bs)) (Json.Datum.toBytes?_ofBytes bs)
      | _ => rfl
  | jump target => exact congrArg (Option.map Op.jump) (Json.Datum.toNat?_ofNat target)
  | jumpIf target => exact congrArg (Option.map Op.jumpIf) (Json.Datum.toNat?_ofNat target)
  | catchAt target => exact congrArg (Option.map Op.catchAt) (Json.Datum.toNat?_ofNat target)
  | native id =>
      refine (congrArg (Option.map fun n => Op.native (UInt32.ofNat n))
        (Json.Datum.toNat?_ofNat id.toNat)).trans ?_
      rw [Option.map_some, UInt32.ofNat_toNat]
  | _ => rfl

instance : JsonData.Faithful Program where
  InRange p := ∀ op ∈ p.code, op.InRange
  sound := by decide +kernel
  fits p hp := ⟨trivial, Schema.fits_list fun op hop => op.fits (hp op hop), trivial⟩
  reread p _ := by
    simp [JsonData.toDatum, JsonData.ofDatum?,
      Json.Datum.mapM_map fun op (_ : op ∈ p.code) => op.ofDatum?_toDatum]

instance {α : Type} [JsonData α] [h : JsonData.Faithful α] : JsonData.Faithful (List α) where
  InRange as := ∀ a ∈ as, h.InRange a
  sound := h.sound
  fits _ has := Schema.fits_list fun a ha => h.fits a (has a ha)
  reread _ has := Json.Datum.mapM_map fun a ha => h.reread a (has a ha)

/-! ### Faults, outcomes and results -/

theorem Fault.fits (f : Fault) : Fault.schema.Fits f.toDatum := ⟨trivial, trivial, trivial⟩

instance : JsonData.Faithful Fault where
  InRange _ := True
  sound := by decide +kernel
  fits f _ := f.fits
  reread _ _ := rfl

instance : JsonData.Faithful Outcome where
  InRange _ := True
  sound := by decide +kernel
  fits o _ := by
    cases o with
    | returned v =>
        cases v with
        | none => exact ⟨_, rfl, trivial⟩
        | some v => exact ⟨_, rfl, v.fits, v.write_ne_null⟩
    | faulted f => exact ⟨_, rfl, f.fits⟩
  reread o _ := by
    cases o with
    | returned v =>
        cases v with
        | none => rfl
        | some v => exact congrArg (Option.map fun v => Outcome.returned (some v)) v.ofDatum?_toDatum
    | faulted f => rfl

theorem DispatchResult.fits (r : DispatchResult) : DispatchResult.schema.Fits r.toDatum := by
  cases r with
  | void => rfl
  | value v => exact ⟨_, rfl, v.fits⟩
  | fault f => exact ⟨_, rfl, f.fits⟩

theorem DispatchResult.ofDatum?_toDatum (r : DispatchResult) :
    DispatchResult.ofDatum? r.toDatum = some r := by
  cases r with
  | void => rfl
  | value v => exact congrArg (Option.map DispatchResult.value) v.ofDatum?_toDatum
  | fault f => rfl

instance : JsonData.Faithful DispatchResult where
  InRange _ := True
  sound := by decide +kernel
  fits r _ := r.fits
  reread r _ := r.ofDatum?_toDatum

/-! ### Events, descriptors, spans and settings -/

/-- Frames have numbers of 64 bits. -/
def Event.InRange : Event → Prop
  | .dispatchStarted caller _ _ => caller < Nat.pow 2 64
  | .frameLoaded frame _ caller => frame < Nat.pow 2 64 ∧ caller < Nat.pow 2 64
  | .frameTornDown frame _ => frame < Nat.pow 2 64
  | .resumed caller _ => caller < Nat.pow 2 64
  | .routineFinished caller _ _ => caller < Nat.pow 2 64

instance : JsonData.Faithful Event where
  InRange := Event.InRange
  sound := by decide +kernel
  fits e he := by
    cases e with
    | dispatchStarted caller routine id =>
        exact ⟨Schema.fits_unsigned he, trivial, Schema.fits_unsigned id.toNat_lt, trivial⟩
    | frameLoaded frame program caller =>
        exact ⟨Schema.fits_unsigned he.1, trivial, Schema.fits_unsigned he.2, trivial⟩
    | frameTornDown frame faulted => exact ⟨Schema.fits_unsigned he, trivial, trivial⟩
    | resumed caller routine => exact ⟨Schema.fits_unsigned he, trivial, trivial⟩
    | routineFinished caller routine result =>
        exact ⟨Schema.fits_unsigned he, trivial, result.fits, trivial⟩
  reread e _ := by
    cases e <;>
      simp [JsonData.toDatum, JsonData.ofDatum?, Event.toDatum, Event.fieldsDatum, Event.ofDatum?,
        DispatchResult.ofDatum?_toDatum]

instance : JsonData.Faithful Descriptor where
  InRange _ := True
  sound := by decide +kernel
  fits d _ := by
    refine ⟨Schema.fits_unsigned d.id.toNat_lt, trivial, Schema.fits_list fun _ _ => trivial, ?_,
      trivial⟩
    cases d.mode with
    | sync => exact List.mem_cons_self
    | suspending => exact List.mem_cons_of_mem _ List.mem_cons_self
  reread d _ := by
    obtain ⟨id, name, params, mode⟩ := d
    simp only [JsonData.toDatum, JsonData.ofDatum?]
    rw [Json.Datum.mapM_map fun s (_ : s ∈ params) => rfl]
    cases mode <;> simp [Mode.name, Mode.ofName?]

/-- Offsets, lines and columns have 64 bits. -/
def Assembly.Span.InRange (s : Assembly.Span) : Prop :=
  s.start < Nat.pow 2 64 ∧ s.stop < Nat.pow 2 64 ∧
    s.startLine < Nat.pow 2 64 ∧ s.startCol < Nat.pow 2 64 ∧
    s.stopLine < Nat.pow 2 64 ∧ s.stopCol < Nat.pow 2 64

instance : JsonData.Faithful Assembly.Span where
  InRange := Assembly.Span.InRange
  sound := by decide +kernel
  fits s := fun ⟨hstart, hstop, hline, hcol, hline', hcol'⟩ =>
    ⟨Schema.fits_unsigned hstart, Schema.fits_unsigned hstop, Schema.fits_unsigned hline,
      Schema.fits_unsigned hcol, Schema.fits_unsigned hline', Schema.fits_unsigned hcol', trivial⟩
  reread s _ := by simp [JsonData.toDatum, JsonData.ofDatum?]

/-- Limits have 64 bits. -/
def Settings.InRange (s : Settings) : Prop :=
  s.limits.maxFrames < Nat.pow 2 64 ∧ ∀ n ∈ s.limits.maxSteps, n < Nat.pow 2 64

instance : JsonData.Faithful Settings where
  InRange := Settings.InRange
  sound := by decide +kernel
  fits s := fun ⟨hframes, hsteps⟩ => by
    refine ⟨⟨trivial, trivial⟩, ⟨Schema.fits_unsigned hframes, ?_, trivial⟩, ⟨trivial, trivial⟩, trivial⟩
    cases hmax : s.limits.maxSteps with
    | none => trivial
    | some n => exact ⟨Schema.fits_unsigned (hsteps n hmax), Json.noConfusion⟩
  reread s _ := by
    obtain ⟨filter, ⟨maxFrames, maxSteps⟩, journal⟩ := s
    cases maxSteps <;>
      simp [JsonData.toDatum, JsonData.ofDatum?, Settings.toDatum, Settings.ofDatum?,
        Json.Datum.ofOption]

/-! ### All of them -/

/-- Every value of every type that is exchanged as data is read back from its compact JSON text, and
different values have different texts: nothing returned is not null returned, and no result is not
the result null. -/
theorem json_round_trip :
    JsonData.RoundTrips (List Program) (fun ps => ∀ p ∈ ps, ∀ op ∈ p.code, op.InRange) ∧
      JsonData.RoundTrips Value (fun _ => True) ∧
      JsonData.RoundTrips Fault (fun _ => True) ∧
      JsonData.RoundTrips Outcome (fun _ => True) ∧
      JsonData.RoundTrips DispatchResult (fun _ => True) ∧
      JsonData.RoundTrips Event Event.InRange ∧
      JsonData.RoundTrips Descriptor (fun _ => True) ∧
      JsonData.RoundTrips Assembly.Span Assembly.Span.InRange ∧
      JsonData.RoundTrips Settings Settings.InRange ∧
      JsonData.text (Outcome.returned none) ≠ JsonData.text (Outcome.returned (some .null)) ∧
      JsonData.text DispatchResult.void ≠ JsonData.text (DispatchResult.value .null) := by
  have houtcome := JsonData.roundTrips Outcome (by decide +kernel)
  have hresult := JsonData.roundTrips DispatchResult (by decide +kernel)
  refine ⟨JsonData.roundTrips (List Program) (by decide +kernel),
    JsonData.roundTrips Value (by decide +kernel), JsonData.roundTrips Fault (by decide +kernel),
    houtcome, hresult, JsonData.roundTrips Event (by decide +kernel),
    JsonData.roundTrips Descriptor (by decide +kernel),
    JsonData.roundTrips Assembly.Span (by decide +kernel),
    JsonData.roundTrips Settings (by decide +kernel), fun htext => ?_, fun htext => ?_⟩
  · cases houtcome.text_injective _ _ trivial trivial htext
  · cases hresult.text_injective _ _ trivial trivial htext

/-- A program that takes all forms a number and a string can have. -/
theorem json_round_trip_programs :
    JsonData.decode (List Program) (JsonData.text
      [({ name := "a\"\\\n\x01é", code := [.push (.int Int64.minValue), .push (.bytes [0, 255]),
        .jump (18446744073709551615), .native 4294967295, .ret] } : Program)]).toList =
      .ok [{ name := "a\"\\\n\x01é", code := [.push (.int Int64.minValue), .push (.bytes [0, 255]),
        .jump (18446744073709551615), .native 4294967295, .ret] }] :=
  json_round_trip.1.decode_text _ (by
    simp only [List.forall_mem_cons, Op.InRange]
    simp)

end Reentrant
