import Reentrant.Conversion

/-!
Conversion loses nothing. The operand of a host value reads back as that value, text and bytes turn into
each other along UTF-8, and an optional shape adds the absent value and changes nothing else. UTF-8 is
given here by its grammar, without reference to an encoder: each code point in its shortest spelling.
-/

namespace Reentrant

/-! ### The grammar of UTF-8 -/

/-- A byte that continues the spelling of a code point; it carries six bits. -/
def Continues (u : UInt8) : Prop := 0x80 ≤ u.toNat ∧ u.toNat < 0xC0

instance (u : UInt8) : Decidable (Continues u) := inferInstanceAs (Decidable (_ ∧ _))

/-- The bytes that spell one code point. The first byte says how many there are, the bits they carry make
up the code point, and a code point that fewer bytes could carry is not spelled with more. A `Char` is a
code point up to `10FFFF` that is no surrogate. -/
inductive Spells : List UInt8 → Char → Prop where
  | one {a : UInt8} {c : Char} (first : a.toNat < 0x80) (value : c.toNat = a.toNat) : Spells [a] c
  | two {a b : UInt8} {c : Char} (first : 0xC0 ≤ a.toNat ∧ a.toNat < 0xE0) (second : Continues b)
      (value : c.toNat = (a.toNat - 0xC0) * 0x40 + (b.toNat - 0x80)) (shortest : 0x80 ≤ c.toNat) :
      Spells [a, b] c
  | three {a b d : UInt8} {c : Char} (first : 0xE0 ≤ a.toNat ∧ a.toNat < 0xF0) (second : Continues b)
      (third : Continues d)
      (value : c.toNat = (a.toNat - 0xE0) * 0x1000 + (b.toNat - 0x80) * 0x40 + (d.toNat - 0x80))
      (shortest : 0x800 ≤ c.toNat) : Spells [a, b, d] c
  | four {a b d e : UInt8} {c : Char} (first : 0xF0 ≤ a.toNat ∧ a.toNat < 0xF8) (second : Continues b)
      (third : Continues d) (fourth : Continues e)
      (value : c.toNat = (a.toNat - 0xF0) * 0x40000 + (b.toNat - 0x80) * 0x1000 + (d.toNat - 0x80) * 0x40 +
        (e.toNat - 0x80))
      (shortest : 0x10000 ≤ c.toNat) : Spells [a, b, d, e] c

/-- The bytes that spell a row of code points, one after the other. -/
inductive Encodes : List UInt8 → List Char → Prop where
  | nil : Encodes [] []
  | cons {us vs : List UInt8} {c : Char} {cs : List Char} (head : Spells us c) (tail : Encodes vs cs) :
      Encodes (us ++ vs) (c :: cs)

/-! ### The grammar and the encoder -/

theorem byte_toNat {n : Nat} (hn : n < 256) : (UInt8.ofNat n).toNat = n :=
  UInt8.toNat_ofNat_of_lt' hn

theorem byte_eq {n : Nat} {u : UInt8} (h : n = u.toNat) : UInt8.ofNat n = u := by
  rw [h, UInt8.ofNat_toNat]

theorem continues_six (n : Nat) : Continues (UInt8.ofNat (n % 0x40 + 0x80)) := by
  unfold Continues
  rw [byte_toNat (by omega)]
  omega

theorem codePoint_lt (c : Char) : c.toNat < 0x110000 := by
  have h := c.valid
  simp only [UInt32.isValidChar, Nat.isValidChar] at h
  change c.val.toNat < _
  omega

/-- The encoder's answer for a code point, by the number of bytes it needs. -/
theorem utf8EncodeChar_eq (c : Char) : String.utf8EncodeChar c =
    if c.toNat ≤ 0x7F then [UInt8.ofNat c.toNat]
    else if c.toNat ≤ 0x7FF then
      [UInt8.ofNat (c.toNat / 64 % 0x20 + 0xC0), UInt8.ofNat (c.toNat % 0x40 + 0x80)]
    else if c.toNat ≤ 0xFFFF then
      [UInt8.ofNat (c.toNat / 4096 % 0x10 + 0xE0), UInt8.ofNat (c.toNat / 64 % 0x40 + 0x80),
        UInt8.ofNat (c.toNat % 0x40 + 0x80)]
    else
      [UInt8.ofNat (c.toNat / 262144 % 0x08 + 0xF0), UInt8.ofNat (c.toNat / 4096 % 0x40 + 0x80),
        UInt8.ofNat (c.toNat / 64 % 0x40 + 0x80), UInt8.ofNat (c.toNat % 0x40 + 0x80)] := rfl

theorem spells_utf8EncodeChar (c : Char) : Spells (String.utf8EncodeChar c) c := by
  have hc := codePoint_lt c
  rw [utf8EncodeChar_eq]
  split
  · refine .one ?_ ?_ <;> rw [byte_toNat (by omega)]
    omega
  split
  · refine .two ?_ (continues_six _) ?_ (by omega)
    · rw [byte_toNat (by omega)]; omega
    · rw [byte_toNat (by omega), byte_toNat (by omega)]; omega
  split
  · refine .three ?_ (continues_six _) (continues_six _) ?_ (by omega)
    · rw [byte_toNat (by omega)]; omega
    · rw [byte_toNat (by omega), byte_toNat (by omega), byte_toNat (by omega)]; omega
  · refine .four ?_ (continues_six _) (continues_six _) (continues_six _) ?_ (by omega)
    · rw [byte_toNat (by omega)]; omega
    · rw [byte_toNat (by omega), byte_toNat (by omega), byte_toNat (by omega), byte_toNat (by omega)]; omega

/-- No other row of bytes spells the code point: the bits of each byte are determined by it. -/
theorem utf8EncodeChar_of_spells {us : List UInt8} {c : Char} (h : Spells us c) :
    String.utf8EncodeChar c = us := by
  rw [utf8EncodeChar_eq]
  cases h with
  | one first value =>
    rw [if_pos (by omega), byte_eq value]
  | @two a b _ first second value shortest =>
    unfold Continues at second
    rw [if_neg (by omega), if_pos (by omega), byte_eq (u := a) (by omega), byte_eq (u := b) (by omega)]
  | @three a b d _ first second third value shortest =>
    unfold Continues at second third
    rw [if_neg (by omega), if_neg (by omega), if_pos (by omega), byte_eq (u := a) (by omega),
      byte_eq (u := b) (by omega), byte_eq (u := d) (by omega)]
  | @four a b d e _ first second third fourth value shortest =>
    unfold Continues at second third fourth
    rw [if_neg (by omega), if_neg (by omega), if_neg (by omega), byte_eq (u := a) (by omega),
      byte_eq (u := b) (by omega), byte_eq (u := d) (by omega), byte_eq (u := e) (by omega)]

theorem encodes_iff {us : List UInt8} {cs : List Char} :
    Encodes us cs ↔ us = cs.flatMap String.utf8EncodeChar := by
  constructor
  · intro h
    induction h with
    | nil => rfl
    | cons head _ ih => rw [List.flatMap_cons, utf8EncodeChar_of_spells head, ih]
  · rintro rfl
    induction cs with
    | nil => exact .nil
    | cons c cs ih => exact .cons (spells_utf8EncodeChar c) ih

/-- The loop that lists a packed row of bytes has listed what stands before `i`. -/
theorem toList_loop (bs : ByteArray) (i : Nat) (r : List UInt8) :
    ByteArray.toList.loop bs i r = r.reverse ++ bs.data.toList.drop i := by
  fun_induction ByteArray.toList.loop bs i r with
  | case1 i r h ih =>
    have hi : i < bs.data.toList.length := by simpa using h
    rw [ih, List.drop_eq_getElem_cons hi]
    simp [ByteArray.get!, h]
  | case2 i r h =>
    have hi : bs.data.toList.length ≤ i := by simpa using h
    rw [List.drop_eq_nil_of_le hi, List.append_nil]

theorem toList_eq_data (bs : ByteArray) : bs.toList = bs.data.toList := by
  rw [ByteArray.toList, toList_loop, List.reverse_nil, List.nil_append, List.drop_zero]

/-- An encoding starts with an ASCII byte or a lead byte, and none of the lead bytes that only overlong
spellings or code points past the last could need. -/
theorem Encodes.lead {us : List UInt8} {cs : List Char} (h : Encodes us cs) :
    ∀ a ∈ us.head?, a.toNat < 0x80 ∨ 0xC2 ≤ a.toNat ∧ a.toNat < 0xF5 := by
  cases h with
  | nil => nofun
  | @cons _ _ c _ head _ =>
    have hc := codePoint_lt c
    cases head with
    | one first => rintro _ ⟨⟩; exact .inl first
    | two first second value shortest | three first second third value shortest
    | four first second third fourth value shortest =>
      rintro _ ⟨⟩
      unfold Continues at second
      omega

theorem bytesOfText_eq (t : String) : bytesOfText t = t.toList.flatMap String.utf8EncodeChar := by
  rw [bytesOfText, toList_eq_data, String.toUTF8_eq_toByteArray, ← String.utf8Encode_toList, List.utf8Encode,
    List.toList_data_toByteArray]

/-- The encoder's bytes are the ones that the grammar gives a text. -/
theorem encodes_iff_bytesOfText {us : List UInt8} {t : String} :
    Encodes us t.toList ↔ bytesOfText t = us := by
  rw [encodes_iff, bytesOfText_eq, eq_comm]

theorem bytesOfText_eq_iff {us : List UInt8} {t : String} :
    bytesOfText t = us ↔ t.toByteArray = ⟨us.toArray⟩ := by
  rw [bytesOfText, toList_eq_data, String.toUTF8_eq_toByteArray, ByteArray.ext_iff, ← Array.toList_inj]

/-- The decoder gives a text exactly for the bytes that the grammar gives the text. -/
theorem textOfBytes?_eq_some {us : List UInt8} {t : String} :
    textOfBytes? us = some t ↔ Encodes us t.toList := by
  rw [encodes_iff_bytesOfText, bytesOfText_eq_iff, textOfBytes?, String.fromUTF8?]
  constructor
  · intro h
    split at h
    case isTrue hv => rw [← Option.some.inj h]; rfl
    case isFalse => cases h
  · intro h
    rw [dif_pos (h ▸ t.isValidUTF8)]
    exact congrArg some (String.toByteArray_inj.mp h.symm)

/-! ### Reading at a shape -/

namespace Shape

/-- A shape that is not optional. -/
def Base : Shape → Prop
  | .optional _ => False
  | _ => True

/-- A shape inside `n` optional ones. -/
def optionals : Nat → Shape → Shape
  | 0, s => s
  | n + 1, s => .optional (optionals n s)

/-- A value of a shape as a value of the optional shapes around it: present at every level. -/
def present {s : Shape} : (n : Nat) → s.Carrier → (optionals n s).Carrier
  | 0, x => x
  | n + 1, x => some (present n x)

theorem read_toValue {s : Shape} (hs : s.Base) (x : s.Carrier) : s.read (some (s.toValue x)) = .ok x := by
  cases s with
  | optional s => exact hs.elim
  | int | bool | str | bytes | any => rfl

/-- Text is read from bytes exactly where the grammar gives them to it. -/
theorem read_str_bytes {us : List UInt8} {t : String} :
    Shape.str.read (some (.bytes us)) = .ok t ↔ Encodes us t.toList := by
  rw [← textOfBytes?_eq_some, read]
  cases textOfBytes? us with
  | none => simp
  | some t' => simp

theorem read_str_invalid {us : List UInt8} (h : ∀ t : String, ¬ Encodes us t.toList) :
    Shape.str.read (some (.bytes us)) = .error .invalidUtf8 := by
  have hnone : textOfBytes? us = none := by
    rw [Option.eq_none_iff_forall_ne_some]
    exact fun t ht => h t (textOfBytes?_eq_some.mp ht)
  rw [read, hnone]

theorem read_optional (s : Shape) {v : Value} (hv : v ≠ .null) :
    (optional s).read (some v) = (s.read (some v)).map some := by
  cases v with
  | null => exact absurd rfl hv
  | int | bool | str | bytes => rfl

/-- Under optional shapes every value but null reads as it does without them. -/
theorem read_optionals (n : Nat) (s : Shape) {v : Value} (hv : v ≠ .null) :
    (optionals n s).read (some v) = (s.read (some v)).map (present n) := by
  induction n with
  | zero =>
    change s.read (some v) = (s.read (some v)).map id
    rw [Except.map_id, id]
  | succ n ih =>
    change (optional (optionals n s)).read (some v) = _
    rw [read_optional _ hv, ih]
    cases s.read (some v) <;> rfl

/-- A value that is there never reads as void, and what does not fit is named by its own kind. -/
theorem error_of_read_some (s : Shape) (v : Value) {err : ConversionError}
    (h : s.read (some v) = .error err) : err = .invalidUtf8 ∨ ∃ e, err = .mismatch e v.kind := by
  induction s with
  | int | bool | bytes =>
    cases v <;> cases h <;> exact .inr ⟨_, rfl⟩
  | str =>
    cases v with
    | str => cases h
    | bytes bs =>
      cases ht : textOfBytes? bs with
      | none => rw [read, ht] at h; exact .inl (Except.error.inj h).symm
      | some t => rw [read, ht] at h; cases h
    | int | bool | null => exact .inr ⟨_, (Except.error.inj h).symm⟩
  | any => cases h
  | optional s ih =>
    by_cases hv : v = .null
    · subst hv
      cases h
    · rw [read_optional s hv] at h
      cases hs : s.read (some v) with
      | ok x => rw [hs] at h; cases h
      | error err' =>
        rw [hs] at h
        exact ih (hs.trans (congrArg Except.error (Except.error.inj h)))

theorem read_void_iff (s : Shape) (v : Option Value) (e : String) :
    s.read v = .error (.void e) ↔ v = none ∧ (s = .int ∨ s = .bool ∨ s = .str ∨ s = .bytes) ∧ e = s.name := by
  cases v with
  | none => cases s <;> simp [read, name, eq_comm]
  | some w =>
    constructor
    · intro h
      obtain h | ⟨_, h⟩ := error_of_read_some s w h <;> cases h
    · rintro ⟨h, -⟩
      cases h

theorem kind_of_mismatch (s : Shape) (v : Option Value) {e : String} {k : Value.Kind}
    (h : s.read v = .error (.mismatch e k)) : ∃ w, v = some w ∧ k = w.kind := by
  cases v with
  | none => cases s <;> cases h
  | some w =>
    obtain h' | ⟨_, h'⟩ := error_of_read_some s w h
    · cases h'
    · cases h'
      exact ⟨w, rfl, rfl⟩

end Shape

/-! ### The conversions together -/

/-- What is written reads back, text and bytes are two views of one text exactly where the grammar of UTF-8
relates them, and optional shapes tell absence from presence and leave the rest to what they wrap. -/
theorem conversion_faithful :
    -- every host value survives the operand it becomes
    (∀ (s : Shape) (x : s.Carrier), s.Base → s.read (some (s.toValue x)) = .ok x) ∧
    -- the bytes of a text read back as the text
    (∀ t : String, ∃ us, Shape.bytes.read (some (.str t)) = .ok us ∧
      Shape.str.read (some (.bytes us)) = .ok t) ∧
    -- bytes read as a text exactly when they encode it, and these are the bytes the text gives
    (∀ (us : List UInt8) (t : String), Shape.str.read (some (.bytes us)) = .ok t ↔
      Encodes us t.toList ∧ Shape.bytes.read (some (.str t)) = .ok us) ∧
    (∀ us : List UInt8, (¬ ∃ cs, Encodes us cs) →
      Shape.str.read (some (.bytes us)) = .error .invalidUtf8) ∧
    -- under optional shapes void and null are absent at the outermost level, all else is as without them
    (∀ (n : Nat) (s : Shape), (Shape.optional (s.optionals n)).read none = .ok none ∧
      (Shape.optional (s.optionals n)).read (some .null) = .ok none ∧
      ∀ v ≠ .null, (s.optionals (n + 1)).read (some v) = (s.read (some v)).map (Shape.present (n + 1))) ∧
    -- what the errors say
    (∀ (s : Shape) (v : Option Value) (e : String), s.read v = .error (.void e) ↔
      v = none ∧ (s = .int ∨ s = .bool ∨ s = .str ∨ s = .bytes) ∧ e = s.name) ∧
    ∀ (s : Shape) (v : Option Value) (e : String) (k : Value.Kind), s.read v = .error (.mismatch e k) →
      ∃ w, v = some w ∧ k = w.kind := by
  refine ⟨fun s x hs => Shape.read_toValue hs x, fun t => ⟨bytesOfText t, rfl, ?_⟩, fun us t => ?_,
    fun us h => ?_, fun n s => ⟨rfl, rfl, fun v hv => Shape.read_optionals (n + 1) s hv⟩,
    Shape.read_void_iff, fun s v e k => Shape.kind_of_mismatch s v⟩
  · exact Shape.read_str_bytes.mpr (encodes_iff_bytesOfText.mpr rfl)
  · rw [Shape.read_str_bytes]
    refine ⟨fun h => ⟨h, ?_⟩, fun h => h.1⟩
    exact congrArg Except.ok (encodes_iff_bytesOfText.mp h)
  · exact Shape.read_str_invalid fun t ht => h ⟨_, ht⟩

theorem conversion_faithful_samples :
    Shape.bool.read (some (.bool true)) = .ok true ∧
    Shape.str.read (some (.bytes [0xC3, 0xA9])) = .ok "é" ∧
    Shape.str.read (some (.bytes [0xC0, 0xA9])) = .error .invalidUtf8 ∧
    (Shape.bool.optionals 2).read (some (.bool true)) = .ok (some (some true)) ∧
    ∃ w, some (Value.str "x") = some w ∧ Value.Kind.str = w.kind := by
  obtain ⟨hbase, -, htext, hbad, hopt, -, hkind⟩ := conversion_faithful
  have hen : Encodes [0xC3, 0xA9] "é".toList :=
    .cons (.two (by decide) (by decide) (by decide) (by decide)) .nil
  refine ⟨hbase .bool true trivial, (htext _ _).mpr ⟨hen, ?_⟩, hbad _ ?_,
    (hopt 1 .bool).2.2 (.bool true) nofun, hkind .int _ "int" .str rfl⟩
  · exact congrArg Except.ok (encodes_iff_bytesOfText.mp hen)
  · rintro ⟨cs, h⟩
    exact absurd (h.lead 0xC0 rfl) (by decide)

end Reentrant
