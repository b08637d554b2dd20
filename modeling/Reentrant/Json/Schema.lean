import Reentrant.Json.Basic
import Reentrant.Json.Draft

/-!
Schemas: how a type's data is laid out in JSON. A schema writes data and reads it back.

A record is an object, and is also read from an array of its fields in order. Unknown members are
passed over, a known member must not come twice. A choice is one of several names. A variant is a name
with content, either in two members beside each other or with its fields in the same object as its
name.
-/

namespace Reentrant.Json

/-- Data of any schema. -/
inductive Datum where
  | bool (b : Bool)
  | int (z : Int)
  | string (s : String)
  | list (ds : List Datum)
  | absent
  | present (d : Datum)
  | choice (name : String)
  | record (fields : List Datum)
  | variant (name : String) (content : Option Datum)

mutual

inductive Schema where
  | bool
  /-- Integers from `low` up to but not including `high`. -/
  | int (low high : Int)
  | string
  | list (s : Schema)
  /-- Null when absent. -/
  | option (s : Schema)
  | choice (names : List String)
  | record (fields : Fields)
  /-- Variants with their name and their content in two members. -/
  | adjacent (tag content : String) (variants : Variants)
  /-- Variants with their name among their own fields. -/
  | inline (tag : String) (variants : FieldVariants)

/-- The fields of a record, each with what stands for it where it is missing, if anything does. -/
inductive Fields where
  | nil
  | cons (name : String) (s : Schema) (fallback : Option Datum) (rest : Fields)

/-- Variants that have content or none. -/
inductive Variants where
  | nil
  | unit (name : String) (rest : Variants)
  | data (name : String) (s : Schema) (rest : Variants)

/-- Variants that have fields. -/
inductive FieldVariants where
  | nil
  | cons (name : String) (fields : Fields) (rest : FieldVariants)

end

namespace Schema

/-! ### Writing -/

mutual

/-- The JSON of data; data of another schema is null. -/
def write : Schema → Datum → Json
  | .bool, .bool b => .bool b
  | .int _ _, .int z => .int z
  | .string, .string s => .string s
  | .list s, .list ds => .ofList (ds.map s.write)
  | .option _, .absent => .null
  | .option s, .present d => s.write d
  | .choice _, .choice name => .string name
  | .record fs, .record ds => .object (writeFields fs ds)
  | .adjacent tag content vs, .variant name d => .object (writeVariant tag content vs name d)
  | .inline tag vs, .variant name (some (.record ds)) =>
      .object (.cons tag (.string name) (writeInline vs name ds))
  | _, _ => .null

def writeFields : Fields → List Datum → Members
  | .cons name s _ rest, d :: ds => .cons name (s.write d) (writeFields rest ds)
  | _, _ => .nil

def writeVariant (tag content : String) : Variants → String → Option Datum → Members
  | .unit n rest, name, d =>
      if n = name then .cons tag (.string name) .nil else writeVariant tag content rest name d
  | .data n s rest, name, d =>
      if n = name then
        match d with
        | some d => .cons tag (.string name) (.cons content (s.write d) .nil)
        | none => .cons tag (.string name) .nil
      else writeVariant tag content rest name d
  | .nil, _, _ => .nil

def writeInline : FieldVariants → String → List Datum → Members
  | .cons n fs rest, name, ds =>
      if n = name then writeFields fs ds else writeInline rest name ds
  | .nil, _, _ => .nil

end

/-! ### Reading, part by part -/

/-- How a value is read. -/
structure Scope where
  /-- How many more brackets may be open at a time. -/
  room : Nat
  /-- Whether the value was put aside and is read now that its kind is known. What is wrong with it
  then is data. -/
  held : Bool := false

/-- Reads a draft. -/
abbrev Reader := Scope → Draft → Except ReadError Datum

/-- A field's reader, and what stands for the field where it is missing. -/
structure FieldReader where
  name : String
  read : Reader
  fallback : Option Datum

/-- A variant's content: none, or a reader and what stands for missing content. -/
structure VariantReader where
  name : String
  content : Option (Reader × Option Datum)

/-- A value of a wrong kind is wrong data, unless the text has a defect there. -/
def mismatch : Draft → ReadError
  | .broken _ read _ => read
  | .float (.infinite _) => .syntaxError
  | .string (.error e) => e
  | _ => .data

def readBool : Draft → Except ReadError Datum
  | .bool b => .ok (.bool b)
  | d => .error (mismatch d)

def readInt (low high : Int) : Draft → Except ReadError Datum
  | .int z => if low ≤ z ∧ z < high then .ok (.int z) else .error .data
  | d => .error (mismatch d)

def readString : Draft → Except ReadError Datum
  | .string (.ok s) => .ok (.string s)
  | d => .error (mismatch d)

/-- Opens a bracket. -/
def enter {α : Type} (scope : Scope) (go : Scope → Except ReadError α) : Except ReadError α :=
  if scope.room ≤ 1 then .error .syntaxError else go { scope with room := scope.room - 1 }

/-- Nothing, where a variant has no content. -/
def readNothing (scope : Scope) : Draft → Except ReadError Unit
  | .null => .ok ()
  | .array _ => enter scope fun _ => .error .data
  | .object _ => enter scope fun _ => .error .data
  | d => .error (mismatch d)

def readItems (read : Reader) (scope : Scope) : Draft.Items → Except ReadError (List Datum)
  | .nil .closed => .ok []
  | .nil (.broken e _ _) => .error e
  | .cons v rest =>
      match read scope v with
      | .error e => .error e
      | .ok d => (readItems read scope rest).map (d :: ·)

/-- What is left of an array must be its closing bracket. -/
def finishItems : Draft.Items → Except ReadError Unit
  | .nil .closed => .ok ()
  | .nil (.broken _ _ finish) => .error finish
  | .cons _ _ => .error .syntaxError

/-- What is left of an object must be its closing brace. -/
def finishMembers : Draft.Members → Except ReadError Unit
  | .nil .closed => .ok ()
  | .nil (.broken _ _ finish) => .error finish
  | .cons _ _ _ => .error .syntaxError

/-- What a name in an object stands beside: null, or an empty object if the value was put aside. -/
def readUnit (scope : Scope) : Draft → Except ReadError Unit
  | .null => .ok ()
  | .object (.nil .closed) => if scope.held then .ok () else .error .data
  | d => .error (mismatch d)

/-- One of several names, as a string or as the only member of an object that holds nothing else. -/
def readChoice (names : List String) (scope : Scope) : Draft → Except ReadError String
  | .string (.ok s) => if names.contains s then .ok s else .error .data
  | .string (.error e) => .error e
  | .object members => enter scope fun scope =>
      match members with
      | .nil .closed => .error .syntaxError
      | .nil (.broken e _ _) => .error e
      | .cons (.error e) _ _ => .error e
      | .cons (.ok key) v rest =>
          if names.contains key then
            match readUnit scope v with
            | .error e => .error e
            | .ok () =>
                match finishMembers rest with
                | .error e => .error e
                | .ok () => .ok key
          else .error .data
  | .broken .nothing read _ => .error read
  | .broken .quote read _ => .error read
  | _ => .error .syntaxError

/-- One of several names, as a string. Of a value that was put aside it may be the place among the
names. -/
def readName (names : List String) (scope : Scope) : Draft → Except ReadError String
  | .string (.ok s) => if names.contains s then .ok s else .error .data
  | .int z =>
      if scope.held ∧ 0 ≤ z then
        match names[z.toNat]? with
        | some s => .ok s
        | none => .error .data
      else .error .data
  | d => .error (mismatch d)

/-- The data of a record's fields, once all members have been read. -/
def assemble (found : List (String × Datum)) : List FieldReader → Except ReadError (List Datum)
  | [] => .ok []
  | f :: fs =>
      match (found.lookup f.name).or f.fallback with
      | none => .error .data
      | some d => (assemble found fs).map (d :: ·)

/-- Reads the members of a record in the order of the text. -/
def readMembers (fields : List FieldReader) (scope : Scope) (found : List (String × Datum)) :
    Draft.Members → Except ReadError (List Datum)
  | .nil .closed => assemble found fields
  | .nil (.broken e _ _) => .error e
  | .cons (.error e) _ _ => .error e
  | .cons (.ok key) v rest =>
      match fields.find? (·.name == key) with
      | none =>
          match v.skip with
          | .error e => .error e
          | .ok () => readMembers fields scope found rest
      | some f =>
          if (found.lookup key).isSome then .error .data
          else
            match f.read scope v with
            | .error e => .error e
            | .ok d => readMembers fields scope ((key, d) :: found) rest

/-- Reads the fields of a record from an array. -/
def readTuple (scope : Scope) : List FieldReader → Draft.Items → Except ReadError (List Datum)
  | [], items =>
      match finishItems items with
      | .error e => .error e
      | .ok () => .ok []
  | f :: fs, .cons v rest =>
      match f.read scope v with
      | .error e => .error e
      | .ok d => (readTuple scope fs rest).map (d :: ·)
  | f :: fs, .nil .closed =>
      match f.fallback with
      | none => .error .data
      | some d => (readTuple scope fs (.nil .closed)).map (d :: ·)
  | _ :: _, .nil (.broken e _ _) => .error e

def readRecord (fields : List FieldReader) (scope : Scope) : Draft → Except ReadError (List Datum)
  | .object members => enter scope fun scope => readMembers fields scope [] members
  | .array items => enter scope fun scope => readTuple scope fields items
  | d => .error (mismatch d)

/-- Reads a variant's content. -/
def readContent (v : VariantReader) (scope : Scope) (d : Draft) : Except ReadError (Option Datum) :=
  match v.content with
  | none => (readNothing scope d).map fun _ => none
  | some (read, _) => (read scope d).map some

/-- Reads a value that was put aside. It is known to be readable: what is wrong with it is data. -/
def readHeld {α : Type} (scope : Scope) (read : Scope → Except ReadError α) : Except ReadError α :=
  (read { scope with held := true }).mapError fun _ => .data

/-- How far the reading of a variant in two members is. -/
inductive Seen where
  | nothing
  | tag (v : VariantReader)
  | content (d : Draft)
  | both (d : Datum)

/-- What a variant's members amount to at the closing brace. -/
def Seen.result : Seen → Except ReadError Datum
  | .nothing => .error .data
  | .content _ => .error .data
  | .both d => .ok d
  | .tag ⟨name, none⟩ => .ok (.variant name none)
  | .tag ⟨name, some (_, some d)⟩ => .ok (.variant name (some d))
  | .tag ⟨_, some (_, none)⟩ => .error .data

/-- The reader of a variant whose name was read. -/
def findVariant (variants : List VariantReader) (name : Except ReadError String) :
    Except ReadError VariantReader :=
  match name with
  | .error e => .error e
  | .ok name =>
      match variants.find? (·.name == name) with
      | some v => .ok v
      | none => .error .data

/-- The names of variants. -/
def variantNames (variants : List VariantReader) : List String := variants.map (·.name)

/-- Reads the name member. -/
def Seen.onTag (variants : List VariantReader) (scope : Scope) (d : Draft) :
    Seen → Except ReadError Seen
  | .nothing => (findVariant variants (readChoice (variantNames variants) scope d)).map .tag
  | .content held =>
      match findVariant variants (readChoice (variantNames variants) scope d) with
      | .error e => .error e
      | .ok v =>
          (readHeld scope fun scope => readContent v scope held).map fun c => .both (.variant v.name c)
  | _ => .error .data

/-- Reads the content member, or puts it aside while the name is unknown. -/
def Seen.onContent (scope : Scope) (d : Draft) : Seen → Except ReadError Seen
  | .nothing => (d.keep scope.room).map fun _ => .content d
  | .tag v => (readContent v scope d).map fun c => .both (.variant v.name c)
  | _ => .error .data

/-- Reads a variant from an object, member by member. -/
def readAdjacentMembers (tag content : String) (variants : List VariantReader) (scope : Scope)
    (seen : Seen) : Draft.Members → Except ReadError Datum
  | .nil .closed => seen.result
  | .nil (.broken e _ _) => .error e
  | .cons (.error e) _ _ => .error e
  | .cons (.ok key) v rest =>
      let next :=
        if key = tag then seen.onTag variants scope v
        else if key = content then seen.onContent scope v
        else (v.skip).map fun _ => seen
      match next with
      | .error e => .error e
      | .ok seen => readAdjacentMembers tag content variants scope seen rest

/-- Reads a variant from an array of its name and its content. -/
def readAdjacentItems (variants : List VariantReader) (scope : Scope) :
    Draft.Items → Except ReadError Datum
  | .nil .closed => .error .data
  | .nil (.broken e _ _) => .error e
  | .cons name rest =>
      match findVariant variants (readName (variantNames variants) scope name) with
      | .error e => .error e
      | .ok v =>
          match rest with
          | .nil .closed => .error .data
          | .nil (.broken e _ _) => .error e
          | .cons d rest =>
              match readContent v scope d with
              | .error e => .error e
              | .ok c =>
                  match finishItems rest with
                  | .error e => .error e
                  | .ok () => .ok (.variant v.name c)

def readAdjacent (tag content : String) (variants : List VariantReader) (scope : Scope) :
    Draft → Except ReadError Datum
  | .object members => enter scope fun scope =>
      readAdjacentMembers tag content variants scope .nothing members
  | .array items => enter scope fun scope => readAdjacentItems variants scope items
  | d => .error (mismatch d)

/-- Looks for the name among the members, putting the others aside. -/
def collect (tag : String) (names : List String) (scope : Scope) (name : Option String) :
    Draft.Members → Except ReadError (String × Draft.Members)
  | .nil .closed =>
      match name with
      | none => .error .data
      | some n => .ok (n, .nil .closed)
  | .nil (.broken e _ _) => .error e
  | .cons (.error e) _ _ => .error e
  | .cons (.ok key) v rest =>
      if key = tag then
        if name.isSome then .error .data
        else
          match readName names scope v with
          | .error e => .error e
          | .ok n => collect tag names scope (some n) rest
      else
        match v.keep scope.room with
        | .error e => .error e
        | .ok () =>
            match collect tag names scope name rest with
            | .error e => .error e
            | .ok (n, ms) => .ok (n, .cons (.ok key) v ms)

/-- The fields of a variant that has its name among them. -/
def findFields (variants : List (String × List FieldReader)) (name : String) (d : Draft)
    (scope : Scope) : Except ReadError Datum :=
  match variants.lookup name with
  | none => .error .data
  | some fields =>
      (readHeld scope fun scope => readRecord fields scope d).map fun ds =>
        .variant name (some (.record ds))

def readInline (tag : String) (variants : List (String × List FieldReader)) (scope : Scope) :
    Draft → Except ReadError Datum
  | .object members => enter scope fun inner =>
      match collect tag (variants.map (·.1)) inner none members with
      | .error e => .error e
      | .ok (name, rest) => findFields variants name (.object rest) scope
  | .array items => enter scope fun inner =>
      match items with
      | .nil .closed => .error .data
      | .nil (.broken e _ _) => .error e
      | .cons v rest =>
          match readName (variants.map (·.1)) inner v with
          | .error e => .error e
          | .ok name =>
              match Draft.keepItems inner.room rest with
              | .error e => .error e
              | .ok () => findFields variants name (.array rest) scope
  | d => .error (mismatch d)

/-! ### Reading -/

/-- What stands for a value of this schema where it is missing. -/
def missing : Schema → Option Datum
  | .option _ => some .absent
  | _ => none

mutual

/-- Reads data of a schema. -/
def read : Schema → Reader
  | .bool => fun _ d => readBool d
  | .int low high => fun _ d => readInt low high d
  | .string => fun _ d => readString d
  | .list s => fun scope d =>
      match d with
      | .array items => enter scope fun scope => (readItems s.read scope items).map .list
      | d => .error (mismatch d)
  | .option s => fun scope d =>
      match d with
      | .null => .ok .absent
      | d => (s.read scope d).map .present
  | .choice names => fun scope d => (readChoice names scope d).map .choice
  | .record fs => fun scope d => (readRecord (fieldReaders fs) scope d).map .record
  | .adjacent tag content vs => readAdjacent tag content (variantReaders vs)
  | .inline tag vs => readInline tag (inlineReaders vs)

def fieldReaders : Fields → List FieldReader
  | .nil => []
  | .cons name s fallback rest =>
      { name, read := s.read, fallback := fallback.or s.missing } :: fieldReaders rest

def variantReaders : Variants → List VariantReader
  | .nil => []
  | .unit name rest => { name, content := none } :: variantReaders rest
  | .data name s rest => { name, content := some (s.read, s.missing) } :: variantReaders rest

def inlineReaders : FieldVariants → List (String × List FieldReader)
  | .nil => []
  | .cons name fs rest => (name, fieldReaders fs) :: inlineReaders rest

end

/-- How deeply brackets may be nested in what is read. -/
def nesting : Nat := 128

/-- Reads a whole text; behind the value there may only be blanks. -/
def parse (s : Schema) (text : List Char) : Except ReadError Datum :=
  let (draft, rest) := Draft.ofText text
  match s.read { room := nesting } draft with
  | .error e => .error e
  | .ok d => if (Draft.skipSpace rest).isEmpty then .ok d else .error .syntaxError

end Schema

end Reentrant.Json
