import Reentrant.Json.Schema
import Reentrant.Proofs.JsonText

/-!
A schema reads what it writes. The data has to fit the schema, the schema has to tell its names apart,
and there has to be room for its brackets.
-/

namespace Reentrant.Json

/-! ### Brackets -/

mutual

/-- How deeply brackets are nested. -/
def depth : Json → Nat
  | .array items => items.depth + 1
  | .object members => members.depth + 1
  | _ => 0

def Items.depth : Items → Nat
  | .nil => 0
  | .cons item rest => max item.depth rest.depth

def Members.depth : Members → Nat
  | .nil => 0
  | .cons _ value rest => max value.depth rest.depth

end

mutual

/-- A value without defects can be put aside if there is room for its brackets. -/
theorem keep_draft (j : Json) {room : Nat} (hroom : j.depth < room) :
    j.draft.keep room = .ok () := by
  cases j with
  | array items =>
      rw [depth] at hroom
      rw [draft, Draft.keep, if_neg (by omega)]
      exact keepItems_draft items (by omega)
  | object members =>
      rw [depth] at hroom
      rw [draft, Draft.keep, if_neg (by omega)]
      exact keepMembers_draft members (by omega)
  | null | bool | int | string => rfl

theorem keepItems_draft (items : Items) {room : Nat} (hroom : items.depth < room) :
    Draft.keepItems room items.draft = .ok () := by
  cases items with
  | nil => rfl
  | cons item rest =>
      rw [Items.depth] at hroom
      rw [Items.draft, Draft.keepItems, keep_draft item (by omega)]
      exact keepItems_draft rest (by omega)

theorem keepMembers_draft (members : Members) {room : Nat} (hroom : members.depth < room) :
    Draft.keepMembers room members.draft = .ok () := by
  cases members with
  | nil => rfl
  | cons key value rest =>
      rw [Members.depth] at hroom
      rw [Members.draft, Draft.keepMembers, keep_draft value (by omega)]
      exact keepMembers_draft rest (by omega)

end

/-! ### What a schema can hold -/

def Fields.names : Fields → List String
  | .nil => []
  | .cons name _ _ rest => name :: rest.names

def Variants.names : Variants → List String
  | .nil => []
  | .unit name rest => name :: rest.names
  | .data name _ rest => name :: rest.names

def FieldVariants.names : FieldVariants → List String
  | .nil => []
  | .cons name _ rest => name :: rest.names

mutual

/-- How deeply brackets are nested in what a schema writes. -/
def Schema.depth : Schema → Nat
  | .list s => s.depth + 1
  | .option s => s.depth
  | .record fs => fs.depth + 1
  | .adjacent _ _ vs => vs.depth + 1
  | .inline _ vs => vs.depth + 1
  | _ => 0

def Fields.depth : Fields → Nat
  | .nil => 0
  | .cons _ s _ rest => max s.depth rest.depth

def Variants.depth : Variants → Nat
  | .nil => 0
  | .unit _ rest => rest.depth
  | .data _ s rest => max s.depth rest.depth

def FieldVariants.depth : FieldVariants → Nat
  | .nil => 0
  | .cons _ fs rest => max fs.depth rest.depth

end

mutual

/-- Names that stand beside each other differ, and integers have at most 64 bits. -/
def Schema.sound : Schema → Bool
  | .int low high => decide (-Int.pow 2 63 ≤ low ∧ high ≤ Int.pow 2 64)
  | .list s => s.sound
  | .option s => s.sound
  | .record fs => decide fs.names.Nodup && fs.sound
  | .adjacent tag content vs => decide (tag ≠ content) && decide vs.names.Nodup && vs.sound
  | .inline tag vs => decide vs.names.Nodup && vs.sound tag
  | _ => true

def Fields.sound : Fields → Bool
  | .nil => true
  | .cons _ s _ rest => s.sound && rest.sound

def Variants.sound : Variants → Bool
  | .nil => true
  | .unit _ rest => rest.sound
  | .data _ s rest => s.sound && rest.sound

/-- The member that holds the name is none of the fields. -/
def FieldVariants.sound (tag : String) : FieldVariants → Bool
  | .nil => true
  | .cons _ fs rest => decide (tag :: fs.names).Nodup && fs.sound && rest.sound tag

end

mutual

/-- The data a schema has a JSON for. What is present must not be null. -/
def Schema.Fits : Schema → Datum → Prop
  | .bool, .bool _ => True
  | .int low high, .int z => low ≤ z ∧ z < high
  | .string, .string _ => True
  | .list s, .list ds => ∀ d ∈ ds, s.Fits d
  | .option _, .absent => True
  | .option s, .present d => s.Fits d ∧ s.write d ≠ .null
  | .choice names, .choice name => name ∈ names
  | .record fs, .record ds => fs.Fits ds
  | .adjacent _ _ vs, .variant name content => vs.Fits name content
  | .inline _ vs, .variant name (some (.record ds)) => vs.Fits name ds
  | _, _ => False

def Fields.Fits : Fields → List Datum → Prop
  | .nil, [] => True
  | .cons _ s _ rest, d :: ds => s.Fits d ∧ rest.Fits ds
  | _, _ => False

def Variants.Fits : Variants → String → Option Datum → Prop
  | .nil, _, _ => False
  | .unit n rest, name, content => if n = name then content = none else rest.Fits name content
  | .data n s rest, name, content =>
      if n = name then ∃ d, content = some d ∧ s.Fits d else rest.Fits name content

def FieldVariants.Fits : FieldVariants → String → List Datum → Prop
  | .nil, _, _ => False
  | .cons n fs rest, name, ds => if n = name then fs.Fits ds else rest.Fits name ds

end

/-! ### What is written -/

theorem depth_foldr (js : List Json) {n : Nat} (hjs : ∀ j ∈ js, j.depth ≤ n) :
    (js.foldr .cons .nil : Items).depth ≤ n := by
  induction js with
  | nil => exact Nat.zero_le n
  | cons j js ih =>
      rw [List.forall_mem_cons] at hjs
      exact Nat.max_le.2 ⟨hjs.1, ih hjs.2⟩

theorem narrow_foldr (js : List Json) (hjs : ∀ j ∈ js, j.Narrow) :
    (js.foldr .cons .nil : Items).Narrow := by
  induction js with
  | nil => trivial
  | cons j js ih =>
      rw [List.forall_mem_cons] at hjs
      exact ⟨hjs.1, ih hjs.2⟩

namespace Schema

mutual

theorem depth_write (s : Schema) (d : Datum) : (s.write d).depth ≤ s.depth := by
  cases s with
  | bool | int | string | choice => cases d <;> exact Nat.zero_le _
  | list s =>
      cases d with
      | list ds =>
          refine Nat.succ_le_succ (depth_foldr _ ?_)
          simp only [List.mem_map, forall_exists_index, and_imp, forall_apply_eq_imp_iff₂]
          exact fun d _ => depth_write s d
      | _ => exact Nat.zero_le _
  | option s =>
      cases d with
      | present d => exact depth_write s d
      | _ => exact Nat.zero_le _
  | record fs =>
      cases d with
      | record ds => exact Nat.succ_le_succ (depth_writeFields fs ds)
      | _ => exact Nat.zero_le _
  | adjacent tag content vs =>
      cases d with
      | variant name c => exact Nat.succ_le_succ (depth_writeVariant vs tag content name c)
      | _ => exact Nat.zero_le _
  | inline tag vs =>
      cases d with
      | variant name c =>
          cases c with
          | none => exact Nat.zero_le _
          | some d =>
              cases d with
              | record ds =>
                  exact Nat.succ_le_succ (Nat.max_le.2 ⟨Nat.zero_le _, depth_writeInline vs name ds⟩)
              | _ => exact Nat.zero_le _
      | _ => exact Nat.zero_le _

theorem depth_writeFields (fs : Fields) (ds : List Datum) :
    (writeFields fs ds).depth ≤ fs.depth := by
  cases fs with
  | nil => exact Nat.le_refl _
  | cons name s fallback rest =>
      cases ds with
      | nil => exact Nat.zero_le _
      | cons d ds =>
          have hd := depth_write s d
          have hds := depth_writeFields rest ds
          simp only [writeFields, Members.depth, Fields.depth]
          omega

theorem depth_writeVariant (vs : Variants) (tag content name : String) (c : Option Datum) :
    (writeVariant tag content vs name c).depth ≤ vs.depth := by
  cases vs with
  | nil => exact Nat.le_refl _
  | unit n rest =>
      rw [writeVariant]
      split
      · exact Nat.zero_le _
      · exact depth_writeVariant rest tag content name c
  | data n s rest =>
      simp only [writeVariant]
      split
      · cases c with
        | none => exact Nat.zero_le _
        | some d =>
            have hd := depth_write s d
            have hname : (Json.string name).depth = 0 := rfl
            simp only [Members.depth, Variants.depth, hname]
            omega
      · exact Nat.le_trans (depth_writeVariant rest tag content name c) (Nat.le_max_right _ _)

theorem depth_writeInline (vs : FieldVariants) (name : String) (ds : List Datum) :
    (writeInline vs name ds).depth ≤ vs.depth := by
  cases vs with
  | nil => exact Nat.le_refl _
  | cons n fs rest =>
      rw [writeInline]
      split
      · exact Nat.le_trans (depth_writeFields fs ds) (Nat.le_max_left _ _)
      · exact Nat.le_trans (depth_writeInline rest name ds) (Nat.le_max_right _ _)

end

mutual

theorem narrow_write (s : Schema) (hs : s.sound = true) {d : Datum} (hd : s.Fits d) :
    (s.write d).Narrow := by
  cases s with
  | bool | string | choice => cases d <;> trivial
  | int low high =>
      have hs := of_decide_eq_true hs
      cases d with
      | int z => exact ⟨Int.le_trans hs.1 hd.1, Int.lt_of_lt_of_le hd.2 hs.2⟩
      | _ => cases hd
  | list s =>
      cases d with
      | list ds =>
          refine narrow_foldr _ ?_
          simp only [List.mem_map, forall_exists_index, and_imp, forall_apply_eq_imp_iff₂]
          exact fun d hmem => narrow_write s hs (hd d hmem)
      | _ => cases hd
  | option s =>
      cases d with
      | absent => trivial
      | present d => exact narrow_write s hs hd.1
      | _ => cases hd
  | record fs =>
      cases d with
      | record ds =>
          rw [sound, Bool.and_eq_true] at hs
          exact narrow_writeFields fs hs.2 hd
      | _ => cases hd
  | adjacent tag content vs =>
      cases d with
      | variant name c =>
          simp only [sound, Bool.and_eq_true] at hs
          exact narrow_writeVariant vs hs.2 hd
      | _ => cases hd
  | inline tag vs =>
      cases d with
      | variant name c =>
          cases c with
          | none => cases hd
          | some d =>
              cases d with
              | record ds =>
                  simp only [sound, Bool.and_eq_true] at hs
                  exact ⟨trivial, narrow_writeInline vs hs.2 hd⟩
              | _ => cases hd
      | _ => cases hd

theorem narrow_writeFields (fs : Fields) (hfs : fs.sound = true) {ds : List Datum}
    (hds : fs.Fits ds) : (writeFields fs ds).Narrow := by
  cases fs with
  | nil => trivial
  | cons name s fallback rest =>
      cases ds with
      | nil => cases hds
      | cons d ds =>
          rw [Fields.sound, Bool.and_eq_true] at hfs
          exact ⟨narrow_write s hfs.1 hds.1, narrow_writeFields rest hfs.2 hds.2⟩

theorem narrow_writeVariant (vs : Variants) (hvs : vs.sound = true) {tag content name : String}
    {c : Option Datum} (hc : vs.Fits name c) : (writeVariant tag content vs name c).Narrow := by
  cases vs with
  | nil => cases hc
  | unit n rest =>
      rw [writeVariant]
      rw [Variants.Fits] at hc
      split
      · exact ⟨trivial, trivial⟩
      · next hn =>
          rw [if_neg hn] at hc
          exact narrow_writeVariant rest hvs hc
  | data n s rest =>
      rw [Variants.sound, Bool.and_eq_true] at hvs
      simp only [writeVariant]
      rw [Variants.Fits] at hc
      split
      · next hn =>
          rw [if_pos hn] at hc
          obtain ⟨d, rfl, hd⟩ := hc
          exact ⟨trivial, narrow_write s hvs.1 hd, trivial⟩
      · next hn =>
          rw [if_neg hn] at hc
          exact narrow_writeVariant rest hvs.2 hc

theorem narrow_writeInline (vs : FieldVariants) {tag : String} (hvs : vs.sound tag = true)
    {name : String} {ds : List Datum} (hds : vs.Fits name ds) : (writeInline vs name ds).Narrow := by
  cases vs with
  | nil => cases hds
  | cons n fs rest =>
      simp only [FieldVariants.sound, Bool.and_eq_true] at hvs
      rw [FieldVariants.Fits] at hds
      rw [writeInline]
      split
      · next hn =>
          rw [if_pos hn] at hds
          exact narrow_writeFields fs hvs.1.2 hds
      · next hn =>
          rw [if_neg hn] at hds
          exact narrow_writeInline rest hvs.2 hds

end

/-! ### Reading what was written -/

/-- The scope behind an opened bracket. -/
def Scope.inside (scope : Scope) : Scope := { scope with room := scope.room - 1 }

theorem Scope.lt_inside {scope : Scope} {n : Nat} (hroom : n + 1 < scope.room) :
    n < scope.inside.room :=
  Nat.lt_sub_of_add_lt hroom

theorem enter_eq {α : Type} {scope : Scope} {n : Nat} (hroom : n + 1 < scope.room)
    (go : Scope → Except ReadError α) : enter scope go = go scope.inside := by
  rw [enter, if_neg (by omega), Scope.inside]

theorem find?_of_nodup {α : Type} {name : α → String} {as : List α} (has : (as.map name).Nodup)
    {a : α} (ha : a ∈ as) : as.find? (name · == name a) = some a := by
  induction as with
  | nil => cases ha
  | cons b bs ih =>
      rw [List.map_cons, List.nodup_cons] at has
      rcases List.mem_cons.1 ha with rfl | ha
      · exact List.find?_cons_of_pos (beq_self_eq_true _)
      · have hne : name b ≠ name a := fun h => has.1 (h ▸ List.mem_map_of_mem ha)
        rw [List.find?_cons_of_neg (by simpa using hne)]
        exact ih has.2 ha

theorem readItems_written {read : Reader} {scope : Scope} {write : Datum → Json} (ds : List Datum)
    (hds : ∀ d ∈ ds, read scope (write d).draft = .ok d) :
    readItems read scope ((ds.map write).foldr .cons .nil : Items).draft = .ok ds := by
  induction ds with
  | nil => rfl
  | cons d ds ih =>
      rw [List.forall_mem_cons] at hds
      simp only [List.map_cons, List.foldr_cons, Items.draft, readItems, hds.1, ih hds.2]
      rfl

/-! ### Records -/

/-- Every field is read as what it was written from. -/
def FieldsRead (scope : Scope) : Fields → List Datum → Prop
  | .nil, [] => True
  | .cons _ s _ rest, d :: ds => s.read scope (s.write d).draft = .ok d ∧ FieldsRead scope rest ds
  | _, _ => False

theorem names_fieldReaders (fs : Fields) : (fieldReaders fs).map (·.name) = fs.names := by
  cases fs with
  | nil => rfl
  | cons name s fallback rest => exact congrArg (name :: ·) (names_fieldReaders rest)

/-- Each field's member puts its data beside what was found before. -/
theorem readMembers_written {all : List FieldReader} (hall : (all.map (·.name)).Nodup)
    {scope : Scope} (fs : Fields) {ds : List Datum} (hds : FieldsRead scope fs ds)
    (hfs : ∀ f ∈ fieldReaders fs, f ∈ all) (hnames : fs.names.Nodup) {found : List (String × Datum)}
    (hfound : ∀ name ∈ fs.names, found.lookup name = none) :
    ∃ found', readMembers all scope found (writeFields fs ds).draft = assemble found' all ∧
      (∀ name ∉ fs.names, found'.lookup name = found.lookup name) ∧
      ∀ p ∈ fs.names.zip ds, found'.lookup p.1 = some p.2 := by
  induction fs, ds using FieldsRead.induct generalizing found with
  | case1 => exact ⟨found, rfl, fun _ _ => rfl, fun _ hp => by cases hp⟩
  | case2 name s fallback rest d ds ih =>
      obtain ⟨hread, hds⟩ := hds
      simp only [fieldReaders, List.forall_mem_cons] at hfs
      simp only [Fields.names, List.nodup_cons] at hnames
      simp only [Fields.names, List.forall_mem_cons] at hfound
      have hnew : ∀ other ∈ rest.names, ((name, d) :: found).lookup other = none := by
        intro other hmem
        have hne : other ≠ name := fun h => hnames.1 (h ▸ hmem)
        rw [List.lookup_cons, beq_eq_false_iff_ne.2 hne]
        exact hfound.2 other hmem
      obtain ⟨found', hmembers, hother, hzip⟩ := ih hds hfs.2 hnames.2 hnew
      have hfind := find?_of_nodup hall hfs.1
      refine ⟨found', ?_, ?_, ?_⟩
      · simp only [writeFields, Members.draft, readMembers] at hfind ⊢
        simp only [hfind, hfound.1, Option.isSome_none, Bool.false_eq_true, if_false, hread, hmembers]
      · intro other hmem
        simp only [Fields.names, List.mem_cons, not_or] at hmem
        rw [hother other hmem.2, List.lookup_cons, beq_eq_false_iff_ne.2 hmem.1]
      · intro p hp
        rcases List.mem_cons.1 hp with rfl | hp
        · rw [hother name hnames.1, List.lookup_cons, beq_self_eq_true]
        · exact hzip p hp
  | case3 fs ds hnil hcons =>
      rw [FieldsRead] at hds
      · exact hds.elim
      · exact hnil
      · exact hcons

theorem assemble_written {found : List (String × Datum)} {scope : Scope} (fs : Fields)
    {ds : List Datum} (hds : FieldsRead scope fs ds)
    (hfound : ∀ p ∈ fs.names.zip ds, found.lookup p.1 = some p.2) :
    assemble found (fieldReaders fs) = .ok ds := by
  induction fs, ds using FieldsRead.induct with
  | case1 => rfl
  | case2 name s fallback rest d ds ih =>
      rw [Fields.names, List.zip_cons_cons, List.forall_mem_cons] at hfound
      simp only [fieldReaders, assemble, hfound.1, Option.some_or, ih hds.2 hfound.2]
      rfl
  | case3 fs ds hnil hcons =>
      rw [FieldsRead] at hds
      · exact hds.elim
      · exact hnil
      · exact hcons

theorem readRecord_written (fs : Fields) (hfs : fs.names.Nodup) {scope : Scope}
    (hroom : fs.depth + 1 < scope.room) {ds : List Datum} (hds : FieldsRead scope.inside fs ds) :
    readRecord (fieldReaders fs) scope (.object (writeFields fs ds).draft) = .ok ds := by
  have hreaders : ((fieldReaders fs).map (·.name)).Nodup := by rwa [names_fieldReaders]
  have hnone : ∀ name ∈ fs.names, ([] : List (String × Datum)).lookup name = none :=
    fun _ _ => rfl
  obtain ⟨found, hmembers, -, hzip⟩ :=
    readMembers_written hreaders fs hds (fun _ hf => hf) hfs hnone
  rw [readRecord, enter_eq hroom, hmembers]
  exact assemble_written fs hds hzip

/-! ### Variants in two members -/

theorem names_variantReaders (vs : Variants) : variantNames (variantReaders vs) = vs.names := by
  cases vs with
  | nil => rfl
  | unit name rest => exact congrArg (name :: ·) (names_variantReaders rest)
  | data name s rest => exact congrArg (name :: ·) (names_variantReaders rest)

/-- How a variant is written and that its content is read. -/
inductive VariantRead (tag content : String) (scope : Scope) (vs : Variants) (v : VariantReader) :
    Option Datum → Prop where
  | unit (hcontent : v.content = none)
      (hwrite : writeVariant tag content vs v.name none = .cons tag (.string v.name) .nil) :
      VariantRead tag content scope vs v none
  | data {d : Datum} {j : Json} {read : Reader} {fallback : Option Datum}
      (hcontent : v.content = some (read, fallback))
      (hwrite : writeVariant tag content vs v.name (some d) =
        .cons tag (.string v.name) (.cons content j .nil))
      (hread : read scope j.draft = .ok d) :
      VariantRead tag content scope vs v (some d)

/-- A variant is the same one behind a variant of another name. -/
theorem VariantRead.behind {tag content : String} {scope : Scope} {vs vs' : Variants}
    {v : VariantReader} {c : Option Datum} (h : VariantRead tag content scope vs v c)
    (hvs : writeVariant tag content vs' v.name c = writeVariant tag content vs v.name c) :
    VariantRead tag content scope vs' v c := by
  cases h with
  | unit hcontent hwrite => exact .unit hcontent (hvs.trans hwrite)
  | data hcontent hwrite hread => exact .data hcontent (hvs.trans hwrite) hread

theorem readAdjacent_written {tag content : String} (htag : tag ≠ content) (vs : Variants)
    (hvs : vs.names.Nodup) {scope : Scope} (hroom : vs.depth + 1 < scope.room) {v : VariantReader}
    (hv : v ∈ variantReaders vs) {c : Option Datum}
    (h : VariantRead tag content scope.inside vs v c) :
    readAdjacent tag content (variantReaders vs) scope
      (.object (writeVariant tag content vs v.name c).draft) = .ok (.variant v.name c) := by
  have hnames : ((variantReaders vs).map (·.name)).Nodup := by
    rw [← variantNames, names_variantReaders]
    exact hvs
  have hmem : (variantNames (variantReaders vs)).contains v.name = true :=
    List.contains_iff_mem.2 (List.mem_map_of_mem hv)
  have honTag : Seen.onTag (variantReaders vs) scope.inside (.string (.ok v.name)) .nothing =
      .ok (.tag v) := by
    simp only [Seen.onTag, readChoice, hmem, if_true, findVariant, find?_of_nodup hnames hv]
    rfl
  obtain ⟨name, variant⟩ := v
  rw [readAdjacent, enter_eq hroom]
  cases h with
  | unit hcontent hwrite =>
      simp only at hcontent
      subst hcontent
      simp only [hwrite, Members.draft, draft, readAdjacentMembers, if_true, honTag]
      rfl
  | data hcontent hwrite hread =>
      simp only at hcontent
      subst hcontent
      simp only [hwrite, Members.draft, draft, readAdjacentMembers, if_true, honTag,
        if_neg htag.symm, Seen.onContent, readContent, hread]
      rfl

/-! ### Variants among their fields -/

/-- Behind the name, the fields are put aside as they are. -/
theorem collect_written {tag name : String} {names : List String} {scope : Scope} (fs : Fields)
    (ds : List Datum) (htag : tag ∉ fs.names) (hroom : fs.depth < scope.room) :
    collect tag names scope (some name) (writeFields fs ds).draft =
      .ok (name, (writeFields fs ds).draft) := by
  induction ds generalizing fs with
  | nil => cases fs <;> rfl
  | cons d ds ih =>
      cases fs with
      | nil => rfl
      | cons field s fallback rest =>
          rw [Fields.depth] at hroom
          rw [Fields.names, List.mem_cons, not_or] at htag
          have hdepth := depth_write s d
          have hkeep := keep_draft (s.write d) (show (s.write d).depth < scope.room by omega)
          simp only [writeFields, Members.draft, collect, if_neg (Ne.symm htag.1), hkeep,
            ih rest htag.2 (by omega)]

/-- How the fields of a variant are found, written and read. -/
structure InlineRead (tag : String) (scope : Scope) (vs : FieldVariants) (name : String)
    (ds : List Datum) (fs : Fields) : Prop where
  lookup : (inlineReaders vs).lookup name = some (fieldReaders fs)
  listed : name ∈ (inlineReaders vs).map (·.1)
  written : writeInline vs name ds = writeFields fs ds
  distinct : (tag :: fs.names).Nodup
  shallow : fs.depth ≤ vs.depth
  read : FieldsRead scope fs ds

theorem readInline_written {tag : String} {vs : FieldVariants} {scope : Scope}
    (hroom : vs.depth + 1 < scope.room) {name : String} {ds : List Datum} {fs : Fields}
    (h : InlineRead tag ({ scope with held := true } : Scope).inside vs name ds fs) :
    readInline tag (inlineReaders vs) scope
      (.object (.cons (.ok tag) (.string (.ok name)) (writeInline vs name ds).draft)) =
      .ok (.variant name (some (.record ds))) := by
  obtain ⟨htag, hnames⟩ := List.nodup_cons.1 h.distinct
  have hshallow := h.shallow
  have hmem := List.contains_iff_mem.2 h.listed
  have hbracket : fs.depth + 1 < ({ scope with held := true } : Scope).room :=
    show fs.depth + 1 < scope.room by omega
  have hrecord := readRecord_written fs hnames hbracket h.read
  rw [readInline, enter_eq hroom, collect, if_pos rfl]
  simp only [Option.isSome_none, Bool.false_eq_true, if_false, readName, hmem, if_true, h.written]
  rw [collect_written fs ds htag (Nat.lt_of_le_of_lt hshallow (Scope.lt_inside hroom))]
  simp only [findFields, h.lookup, readHeld, hrecord]
  rfl

/-! ### Every schema -/

mutual

/-- A schema reads what it writes. -/
theorem read_write (s : Schema) (hs : s.sound = true) {d : Datum} (hd : s.Fits d) {scope : Scope}
    (hroom : s.depth < scope.room) : s.read scope (s.write d).draft = .ok d := by
  cases s with
  | bool =>
      cases d with
      | bool b => rfl
      | _ => cases hd
  | int low high =>
      cases d with
      | int z => exact if_pos hd
      | _ => cases hd
  | string =>
      cases d with
      | string text => rfl
      | _ => cases hd
  | list s =>
      cases d with
      | list ds =>
          rw [depth] at hroom
          have hitems := readItems_written ds fun d hmem =>
            read_write s hs (hd d hmem) (Scope.lt_inside hroom)
          simp only [write, ofList, draft, read, enter_eq hroom, hitems]
          rfl
      | _ => cases hd
  | option s =>
      cases d with
      | absent => rfl
      | present d =>
          have hread := read_write s hs hd.1 hroom
          have hpresent : ∀ {j : Json}, j ≠ .null → s.read scope j.draft = .ok d →
              (Schema.option s).read scope j.draft = .ok (.present d) := by
            intro j hj hj'
            cases j with
            | null => exact absurd rfl hj
            | _ => exact congrArg (Except.map Datum.present) hj'
          exact hpresent hd.2 hread
      | _ => cases hd
  | choice names =>
      cases d with
      | choice name =>
          have hmem := List.contains_iff_mem.2 (show name ∈ names from hd)
          simp only [write, draft, read, readChoice, hmem, if_true]
          rfl
      | _ => cases hd
  | record fs =>
      cases d with
      | record ds =>
          rw [depth] at hroom
          simp only [sound, Bool.and_eq_true, decide_eq_true_eq] at hs
          have hfields := fieldsRead_of_fits fs hs.2 hd (Scope.lt_inside hroom)
          have hrecord := readRecord_written fs hs.1 hroom hfields
          simp only [write, draft, read, hrecord]
          rfl
      | _ => cases hd
  | adjacent tag content vs =>
      cases d with
      | variant name c =>
          rw [depth] at hroom
          simp only [sound, Bool.and_eq_true, decide_eq_true_eq] at hs
          obtain ⟨v, hv, rfl, hread⟩ :=
            variantRead_of_fits vs hs.2 tag content hd (Scope.lt_inside hroom)
          exact readAdjacent_written hs.1.1 vs hs.1.2 hroom hv hread
      | _ => cases hd
  | inline tag vs =>
      cases d with
      | variant name c =>
          cases c with
          | none => cases hd
          | some d =>
              cases d with
              | record ds =>
                  rw [depth] at hroom
                  simp only [sound, Bool.and_eq_true, decide_eq_true_eq] at hs
                  have hheld : vs.depth + 1 < ({ scope with held := true } : Scope).room := hroom
                  obtain ⟨fs, hread⟩ := inlineRead_of_fits vs hs.2 hd (Scope.lt_inside hheld)
                  exact readInline_written hroom hread
              | _ => cases hd
      | _ => cases hd

theorem fieldsRead_of_fits (fs : Fields) (hfs : fs.sound = true) {ds : List Datum}
    (hds : fs.Fits ds) {scope : Scope} (hroom : fs.depth < scope.room) : FieldsRead scope fs ds := by
  cases fs with
  | nil =>
      cases ds with
      | nil => trivial
      | cons d ds => cases hds
  | cons name s fallback rest =>
      cases ds with
      | nil => cases hds
      | cons d ds =>
          rw [Fields.sound, Bool.and_eq_true] at hfs
          rw [Fields.depth] at hroom
          exact ⟨read_write s hfs.1 hds.1 (by omega), fieldsRead_of_fits rest hfs.2 hds.2 (by omega)⟩

theorem variantRead_of_fits (vs : Variants) (hvs : vs.sound = true) (tag content : String)
    {name : String} {c : Option Datum} (hc : vs.Fits name c) {scope : Scope}
    (hroom : vs.depth < scope.room) :
    ∃ v ∈ variantReaders vs, v.name = name ∧ VariantRead tag content scope vs v c := by
  cases vs with
  | nil => cases hc
  | unit n rest =>
      rw [Variants.Fits] at hc
      by_cases hn : n = name
      · rw [if_pos hn] at hc
        subst hn hc
        exact ⟨_, List.mem_cons_self, rfl, .unit rfl (by rw [writeVariant, if_pos rfl])⟩
      · rw [if_neg hn] at hc
        obtain ⟨v, hv, rfl, hread⟩ := variantRead_of_fits rest hvs tag content hc hroom
        exact ⟨v, List.mem_cons_of_mem _ hv, rfl, hread.behind (by rw [writeVariant, if_neg hn])⟩
  | data n s rest =>
      rw [Variants.sound, Bool.and_eq_true] at hvs
      rw [Variants.depth] at hroom
      rw [Variants.Fits] at hc
      by_cases hn : n = name
      · rw [if_pos hn] at hc
        subst hn
        obtain ⟨d, rfl, hd⟩ := hc
        exact ⟨_, List.mem_cons_self, rfl, .data rfl (by simp only [writeVariant, if_true])
          (read_write s hvs.1 hd (by omega))⟩
      · rw [if_neg hn] at hc
        obtain ⟨v, hv, rfl, hread⟩ := variantRead_of_fits rest hvs.2 tag content hc
          (show rest.depth < scope.room by omega)
        exact ⟨v, List.mem_cons_of_mem _ hv, rfl, hread.behind (by simp only [writeVariant, if_neg hn])⟩

theorem inlineRead_of_fits (vs : FieldVariants) {tag : String} (hvs : vs.sound tag = true)
    {name : String} {ds : List Datum} (hds : vs.Fits name ds) {scope : Scope}
    (hroom : vs.depth < scope.room) : ∃ fs, InlineRead tag scope vs name ds fs := by
  cases vs with
  | nil => cases hds
  | cons n fs rest =>
      simp only [FieldVariants.sound, Bool.and_eq_true, decide_eq_true_eq] at hvs
      rw [FieldVariants.depth] at hroom
      rw [FieldVariants.Fits] at hds
      by_cases hn : n = name
      · rw [if_pos hn] at hds
        subst hn
        exact ⟨fs,
          { lookup := by rw [inlineReaders, List.lookup_cons, beq_self_eq_true]
            listed := List.mem_cons_self
            written := by rw [writeInline, if_pos rfl]
            distinct := hvs.1.1
            shallow := Nat.le_max_left _ _
            read := fieldsRead_of_fits fs hvs.1.2 hds (by omega) }⟩
      · rw [if_neg hn] at hds
        obtain ⟨fs', hread⟩ := inlineRead_of_fits rest hvs.2 hds (show rest.depth < scope.room by omega)
        exact ⟨fs',
          { lookup := by
              rw [inlineReaders, List.lookup_cons, beq_eq_false_iff_ne.2 (Ne.symm hn)]
              exact hread.lookup
            listed := List.mem_cons_of_mem _ hread.listed
            written := by rw [writeInline, if_neg hn, hread.written]
            distinct := hread.distinct
            shallow := Nat.le_trans hread.shallow (Nat.le_max_right _ _)
            read := hread.read }⟩

end

/-- A schema reads the compact text of what it writes. -/
theorem parse_render (s : Schema) (hs : s.sound = true) (hdepth : s.depth < nesting) {d : Datum}
    (hd : s.Fits d) : s.parse (s.write d).render = .ok d := by
  rw [parse, Draft.ofText_render _ (narrow_write s hs hd)]
  have hread := read_write s hs hd (show s.depth < ({ room := nesting } : Scope).room from hdepth)
  simp only [hread]
  rfl

end Schema

end Reentrant.Json
