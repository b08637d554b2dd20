import Reentrant.Future

/-!
Scripted work on futures, with continuations that may register and resolve in turn. A continuation
runs inside the operation that fires it, before that operation's own place in the script is left;
what is still to be done is kept on an agenda, so that nothing here calls itself.
-/

namespace Reentrant.FutureScript

variable {τ : Type}

/-- An operation on a future. Continuations carry tags of type `τ`, which their reports name. -/
inductive Op (τ : Type) where
  | create
  | alias (f : FutureId)
  /-- Register a continuation that does the operations `body`. -/
  | register (f : FutureId) (tag : τ) (body : List (Op τ))
  | resolve (f : FutureId) (o : Outcome)
  | state (f : FutureId)
  | result (f : FutureId)
  | poll (f : FutureId)
  | isResolved (f : FutureId)
  | hasContinuation (f : FutureId)
  | isPending (f : FutureId)
  | same (f g : FutureId)
  | describe (f : FutureId)

inductive Reply where
  | handle (f : FutureId)
  | done
  | refused (e : FutureError)
  | state (o : Option Outcome)
  | outcome (o : Outcome)
  | pending
  | flag (b : Bool)
  | cell (o : Option Outcome) (registered : Bool)

/-- A continuation of a future: the future it was registered with, a tag, and what it does. -/
structure Body (τ : Type) where
  future : FutureId
  tag : τ
  ops : List (Op τ)

inductive Report (τ : Type) where
  /-- A continuation starts; its future is in this state. -/
  | started (tag : τ) (state : Option Outcome)
  | did (tag : τ) (reply : Reply)

/-- What is still to be done. -/
inductive Task (τ : Type) where
  | start (b : Body τ)
  /-- An operation of the continuation `tag`. -/
  | op (tag : τ) (op : Op τ)
  | report (r : Report τ)

/-- The futures, and for every handle the future it stands for. -/
structure State (τ : Type) where
  futures : FutureStore (Body τ) := {}
  handles : Array FutureId := #[]

namespace State

def future (s : State τ) (f : FutureId) : FutureId := (s.handles[f]?).getD f

/-- Does one operation. The continuation that it fires, if any, is still to be run. -/
def perform (s : State τ) : Op τ → Reply × Option (Body τ) × State τ
  | .create =>
      let (c, futures) := s.futures.create
      (.handle s.handles.size, none, { futures, handles := s.handles.push c })
  | .alias f => (.handle s.handles.size, none, { s with handles := s.handles.push (s.future f) })
  | .register f tag body =>
      match s.futures.register (s.future f) ⟨f, tag, body⟩ with
      | .error e => (.refused e, none, s)
      | .ok (futures, fired) => (.done, fired, { s with futures })
  | .resolve f o =>
      match s.futures.resolve (s.future f) o with
      | .error e => (.refused e, none, s)
      | .ok (futures, fired) => (.done, fired, { s with futures })
  | .state f => (.state (s.futures.outcome? (s.future f)), none, s)
  | .result f =>
      match (s.futures.get (s.future f)).result with
      | .error e => (.refused e, none, s)
      | .ok o => (.outcome o, none, s)
  | .poll f =>
      match s.futures.outcome? (s.future f) with
      | none => (.pending, none, s)
      | some o => (.outcome o, none, s)
  | .isResolved f => (.flag (s.futures.outcome? (s.future f)).isSome, none, s)
  | .hasContinuation f => (.flag (s.futures.get (s.future f)).registered, none, s)
  | .isPending f => (.flag (s.futures.outcome? (s.future f)).isNone, none, s)
  | .same f g => (.flag (s.future f == s.future g), none, s)
  | .describe f =>
      let c := s.futures.get (s.future f)
      (.cell c.outcome c.registered, none, s)

/-- Takes up one task. What it leads to comes before everything else on the agenda. -/
def take (s : State τ) : Task τ → Option (Report τ) × List (Task τ) × State τ
  | .start b =>
      (some (.started b.tag (s.futures.outcome? (s.future b.future))), b.ops.map (.op b.tag), s)
  | .op tag op =>
      let (reply, fired, s) := s.perform op
      (none, fired.toList.map .start ++ [.report (.did tag reply)], s)
  | .report r => (some r, [], s)

/-- Works an agenda off, at most `fuel` tasks of it. -/
def drain : (fuel : Nat) → List (Task τ) → State τ → List (Report τ) × State τ
  | 0, _, s => ([], s)
  | _ + 1, [], s => ([], s)
  | fuel + 1, t :: rest, s =>
      let (r, first, s) := s.take t
      let (rs, s) := drain fuel (first ++ rest) s
      (r.toList ++ rs, s)

end State

/-! ### How much there is to do

Every operation is done at most once, so the operations that are on the agenda or in a waiting
continuation bound the work. -/

mutual

/-- The tasks that an operation comes to, those of its continuation included. -/
def Op.weight : Op τ → Nat
  | .register _ _ body => 3 + weights body
  | _ => 2

def weights : List (Op τ) → Nat
  | [] => 0
  | op :: rest => op.weight + weights rest

end

/-- The tasks that wait in a store. -/
def State.waiting (s : State τ) : Nat :=
  s.futures.cells.foldl (fun n c => n + (c.waiting.elim 0 fun b => 1 + weights b.ops)) 0

/-- Does one operation and everything that it fires. -/
def State.step (s : State τ) (op : Op τ) : Reply × List (Report τ) × State τ :=
  let (reply, fired, s') := s.perform op
  let (reports, s') := State.drain (op.weight + s.waiting) (fired.toList.map .start) s'
  (reply, reports, s')

def run : List (Op τ) → State τ → List (Reply × List (Report τ)) × State τ
  | [], s => ([], s)
  | op :: rest, s =>
      let (reply, reports, s) := s.step op
      let (rows, s) := run rest s
      ((reply, reports) :: rows, s)

end Reentrant.FutureScript
