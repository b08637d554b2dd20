import Reentrant.Settings.Tree
import Reentrant.Settings.Yaml.Lexer

/-!
Settings as a YAML text: one document, whose outermost node is a mapping. Nodes may have anchors, by
which aliases repeat them, and tags, which matter for plain scalars only.
-/

namespace Reentrant.Settings.Yaml

/-! ### Mappings -/

/-- A key of a mapping. A text and a number are different keys, also if they look the same. -/
inductive Key where
  | text (s : String)
  | number (z : Int)
  deriving DecidableEq

/-- The key that a node is. Other nodes cannot be keys. -/
def Key.ofTree? : Tree → Option Key
  | .string s => some (.text s)
  | .int z => some (.number z)
  | _ => none

def Key.name : Key → String
  | .text s => s
  | .number z => String.ofList (Decimal.ofInt z)

/-- The pairs of a mapping, the latest first. -/
abbrev Pairs := List (Key × Tree)

/-- Adds a pair. No key comes twice. -/
def Pairs.add? (pairs : Pairs) (k : Key) (t : Tree) : Option Pairs :=
  if pairs.any fun p => p.1 = k then none else some ((k, t) :: pairs)

/-- A mapping. Of keys with one name the last one counts. -/
def Pairs.tree (pairs : Pairs) : Tree :=
  .table (pairs.foldr (fun (k, t) entries => Tree.put k.name t entries) [])

/-! ### Tags and anchors -/

/-- What handles of tags stand for. -/
abbrev Handles := List (String × String)

/-- A tag in full: the meaning of its handle, and the rest. A handle with two exclamation marks has to be
declared, unless there is nothing between them. -/
def Handles.resolve? (handles : Handles) (handle suffix : String) : Option (String × String) :=
  match handles.lookup handle with
  | some meaning => some (meaning, suffix)
  | none =>
      if handle = "!!" then some (Plain.coreTags, suffix)
      else if 2 ≤ handle.length then none
      else some (handle, suffix)

/-- What is left to be read. An anchor has its node once that is read. -/
structure Input where
  rest : List Token
  anchors : Array (String × Option Tree) := #[]

namespace Input

/-- The node that an alias repeats: the one with the latest anchor of the name, or nothing while that is
not read. -/
def find? (p : Input) (name : String) : Option Tree :=
  (p.anchors.toList.reverse.lookup name).map (·.getD .null)

def anchor (p : Input) : Option Nat × Input :=
  match p.rest with
  | .anchor name :: rest => (some p.anchors.size, ⟨rest, p.anchors.push (name, none)⟩)
  | _ => (none, p)

def tag (handles : Handles) (p : Input) : Option (Option (String × String) × Input) :=
  match p.rest with
  | .tag handle suffix :: rest =>
      (handles.resolve? handle suffix).map fun t => (some t, { p with rest })
  | _ => some (none, p)

def bind (p : Input) (anchor : Option Nat) (t : Tree) : Input :=
  match anchor with
  | some n => { p with anchors := p.anchors.modify n fun (name, _) => (name, some t) }
  | none => p

def skip (t : Token) (p : Input) : Input :=
  match p.rest with
  | u :: rest => if u = t then { p with rest } else p
  | [] => p

end Input

/-! ### Nodes -/

/-- What a plain scalar stands for, if it can be a setting. -/
def plainTree? (tag : Option (String × String)) (s : String) : Option Tree :=
  match tag with
  | some (handle, suffix) => Plain.tagged? handle suffix s
  | none => Plain.tree? s

def endsItem : Token → Bool
  | .item | .key | .value | .blockEnd => true
  | _ => false

def endsValue : Token → Bool
  | .key | .value | .blockEnd | .entry | .flowSequenceEnd | .flowMappingEnd => true
  | _ => false

def present (ends : Token → Bool) (read : Input → Option (Tree × Input)) (p : Input) :
    Option (Tree × Input) :=
  if (p.rest.head?.map ends).getD false then some (.null, p) else read p

def keyOf (read : Input → Option (Tree × Input)) (p : Input) : Option (Key × Input) := do
  let (t, p) ← read p
  let k ← Key.ofTree? t
  some (k, p)

def valueOf (read : Input → Option (Tree × Input)) (p : Input) : Option (Tree × Input) :=
  match p.rest with
  | .value :: rest => present endsValue read { p with rest }
  | _ => some (.null, p)

/-- Moves past the comma behind an item or a pair. Without one the collection has to end. -/
def afterItem (close : Token) (p : Input) : Option Input :=
  match p.rest with
  | .entry :: rest => some { p with rest }
  | t :: _ => if t = close then some p else none
  | [] => none

mutual

/-- Reads a node. In a mapping, the items of a sequence need not be indented. -/
def node (handles : Handles) (inMapping : Bool) : (fuel : Nat) → Input → Option (Tree × Input)
  | 0, _ => none
  | fuel + 1, p =>
      match p.rest with
      | .alias name :: rest => (p.find? name).map fun t => (t, { p with rest })
      | _ => do
          let (before, p) := p.anchor
          let (tag, p) ← p.tag handles
          let (anchor, p) := if before.isSome then (before, p) else p.anchor
          let (t, p) ← match p.rest with
            | .scalar true s :: rest => (plainTree? tag s).map fun t => (t, { p with rest })
            | .scalar false s :: rest => some (.string s, { p with rest })
            | .flowSequence :: rest => flowItems handles [] fuel { p with rest }
            | .flowMapping :: rest => flowPairs handles [] fuel { p with rest }
            | .blockSequence :: rest => items handles true [] fuel { p with rest }
            | .blockMapping :: rest => pairs handles [] fuel { p with rest }
            | next =>
                if inMapping && next.head? = some .item then items handles false [] fuel p
                else if anchor.isSome || tag.isSome then (plainTree? tag "").map fun t => (t, p)
                else none
          some (t, p.bind anchor t)

/-- Reads the items of a sequence, one per dash. What was read is held with the last item first. -/
def items (handles : Handles) (indented : Bool) (done : List Tree) :
    (fuel : Nat) → Input → Option (Tree × Input)
  | 0, _ => none
  | fuel + 1, p =>
      match p.rest with
      | .item :: rest => do
          let (t, p) ← present endsItem (node handles false fuel) { p with rest }
          items handles indented (t :: done) fuel p
      | .blockEnd :: rest => some (.list done.reverse, if indented then { p with rest } else p)
      | _ => if indented then none else some (.list done.reverse, p)

/-- Reads the pairs of a mapping, up to the end of its block. -/
def pairs (handles : Handles) (done : Pairs) : (fuel : Nat) → Input → Option (Tree × Input)
  | 0, _ => none
  | fuel + 1, p =>
      match p.rest with
      | .key :: rest => do
          let (k, p) ← keyOf (node handles true fuel) { p with rest }
          let (t, p) ← valueOf (node handles true fuel) p
          pairs handles (← done.add? k t) fuel p
      | .blockEnd :: rest => some (done.tree, { p with rest })
      | _ => none

/-- Reads what is in brackets. An item may be a mapping of one pair, without braces. -/
def flowItems (handles : Handles) (done : List Tree) : (fuel : Nat) → Input → Option (Tree × Input)
  | 0, _ => none
  | fuel + 1, p =>
      match p.rest with
      | .flowSequenceEnd :: rest => some (.list done.reverse, { p with rest })
      | .key :: rest => do
          let (k, p) ← keyOf (node handles false fuel) { p with rest }
          let (t, p) ← valueOf (node handles false fuel) p
          flowItems handles (.table [(k.name, t)] :: done) fuel (← afterItem .flowSequenceEnd p)
      | _ => do
          let (t, p) ← node handles false fuel p
          flowItems handles (t :: done) fuel (← afterItem .flowSequenceEnd p)

/-- Reads what is in braces. A key may be without a value. -/
def flowPairs (handles : Handles) (done : Pairs) : (fuel : Nat) → Input → Option (Tree × Input)
  | 0, _ => none
  | fuel + 1, p =>
      match p.rest with
      | .flowMappingEnd :: rest => some (done.tree, { p with rest })
      | _ => do
          let (k, p) ← keyOf (node handles false fuel) (p.skip .key)
          let (t, p) ← valueOf (node handles false fuel) p
          flowPairs handles (← done.add? k t) fuel (← afterItem .flowMappingEnd p)

end

/-! ### Documents -/

/-- Reads the directives in front of a document: what handles of tags stand for after the last one. The
version is given once at most. -/
def directives : (versioned : Bool) → Handles → List Token → Option (Handles × List Token)
  | versioned, _, .version :: rest => if versioned then none else directives true [] rest
  | versioned, _, .tagDirective handle meaning :: rest => directives versioned [(handle, meaning)] rest
  | _, handles, rest => some (handles, rest)

/-- Reads the only document. Its start is marked if there are directives. -/
def document (ts : List Token) : Option Tree := do
  let (handles, rest) ← directives false [] ts
  let rest ← match rest with
    | .documentStart :: rest => some rest
    | rest => if rest.length < ts.length then none else some rest
  let (t, p) ← node handles false (2 * rest.length + 2) { rest }
  if p.rest.all (· = .documentEnd) then some t else none

/-- Reads a YAML text. Without a document there are no settings. -/
def read? (text : String) : Option (List (String × Tree)) := do
  match (← tokens? text).dropWhile (· = .documentEnd) with
  | [] => some []
  | ts =>
      match ← document ts with
      | .table entries => some entries
      | _ => none

end Reentrant.Settings.Yaml
