import Reentrant.Builtin
import Reentrant.Proofs.OwnHandles
import Reentrant.Proofs.Violations

/-!
Violations surface at once and nowhere else. Whatever a step violates, it fails with the first violation;
no frame and no routine is shown one, and none is left over for a later step, of this machine or of
another one that shares the bridge. Only a step in which a routine is resumed inside its own poll does not
come to that: the process ends in it.
-/

namespace Reentrant

variable {σ : Type}

/-! ### Up to the flush -/

/-- `g` is the frame `f` once operands have been taken off it; it may have to wait now. -/
def Frame.HandsOver (f g : Frame) : Prop :=
  ∃ n blocked, g = { f with stack := f.stack.drop n, blocked }

/-- Frames have handed operands over, and nothing else has happened to the machine. -/
def Machine.HandsOver (m m' : Machine) : Prop :=
  ∃ frames, List.Forall₂ Frame.HandsOver m.frames frames ∧ m' = { m with frames }

theorem Frame.HandsOver.refl (f : Frame) : f.HandsOver f := ⟨0, f.blocked, rfl⟩

namespace Machine.HandsOver

theorem refl (m : Machine) : m.HandsOver m :=
  ⟨m.frames, List.forall₂_same.2 fun f _ => .refl f, rfl⟩

theorem top {m : Machine} {f : Frame} {below : List Frame} (hframes : m.frames = f :: below) (n : Nat) :
    m.HandsOver { m with frames := { f with stack := f.stack.drop n } :: below } := by
  refine ⟨_, ?_, rfl⟩
  rw [hframes]
  exact .cons ⟨n, f.blocked, rfl⟩ (List.forall₂_same.2 fun g _ => .refl g)

theorem block {m m' : Machine} (h : m.HandsOver m') {id : FrameId} (hid : m'.hasFrame id = true) :
    ∃ m'', m'.block id = .ok m'' ∧ m.HandsOver m'' := by
  obtain ⟨frames, hframes, rfl⟩ := h
  refine ⟨_, Machine.modifyFrame_eq hid _, _, ?_, rfl⟩
  rw [List.forall₂_map_right_iff]
  refine hframes.imp fun f g hg => ?_
  obtain ⟨n, blocked, rfl⟩ := hg
  split
  · exact ⟨n, true, rfl⟩
  · exact ⟨n, blocked, rfl⟩

end Machine.HandsOver

theorem Registry.operands_intake (g : Registry σ) (id : RoutineId) (stack : List Value) :
    ∃ n, (g.intake id stack).2 = stack.drop n := by
  rw [intake]
  split
  · exact ⟨0, rfl⟩
  · next r _ =>
      split
      · exact ⟨stack.length, List.drop_length.symm⟩
      · exact ⟨r.arity, rfl⟩

namespace Bridge

/-- How a bridge comes to the flush that ends a native call or the report of a frame's end. -/
structure Arrival (σ : Type) where
  /-- What a heedless run makes of it, the table apart. -/
  bridge : Bridge σ
  table : PendingTable
  /-- The violations on the way, in order. -/
  raised : List BridgeError

def Arrival.actual (a : Arrival σ) : Bridge σ := a.bridge.under (remembered none a.raised) a.table

/-- The bridge with the task of a routine that starts. -/
def beginning (b : Bridge σ) (caller : FrameId) (routine : String) (s : σ) : Bridge σ :=
  { b with
    nextTask := b.nextTask + 1
    tasks := { id := b.nextTask, caller, routine, activity := .idle s } :: b.tasks }

/-- A native call up to its flush. -/
def atCall (b : Bridge σ) (id : RoutineId) (caller : FrameId) (operands : List Value) : Arrival σ :=
  match (b.registry.intake id operands).1 with
  | .settled result notes spent =>
      { bridge := { b.taken id caller result notes spent with
          completions := b.completions ++ [⟨caller, result⟩] }
        table := b.table
        raised := [] }
  | .begun routine s =>
      let started := (b.record (.dispatchStarted caller routine id)).beginning caller routine s
      { bridge := (started.drive (heedless b.nesting) b.nextTask).2
        table := b.table
        raised := driveRaises (fire b.nesting) (raises fire b.nesting) b.nextTask started }

/-- The end of a frame resolves its future. A refusal is a violation, and the last one on the way. -/
def resolutionRaises (b : Bridge σ) (f : FutureId) (o : Outcome) : List BridgeError :=
  b.settleRaises (raises fire b.nesting) f o ++
    ((b.settle (fire b.nesting) f o).1.map BridgeError.future).toList

/-- The report of a frame's end up to its flush. -/
def atEnd (b : Bridge σ) (t : Teardown) : Arrival σ :=
  let b := b.record (.frameTornDown t.frame t.faulted)
  match b.table.remove t.frame with
  | (none, _) => { bridge := b, table := b.table, raised := [] }
  | (some f, table) =>
      let b := { b with table }
      { bridge := (b.settle (heedless b.nesting) f t.outcome).2
        table
        raised := b.resolutionRaises f t.outcome }

theorem under_self {b : Bridge σ} (hfatal : b.fatal = none) : b.under none b.table = b := by
  rw [under, ← hfatal]

section Arriving

variable {b : Bridge σ} (hfatal : b.fatal = none)

include hfatal

/-- The first drive of a routine's task remembers what it violates. -/
theorem start_arrives (caller : FrameId) (routine : String) (s : σ) :
    (b.start caller routine s).2 =
      ((b.beginning caller routine s).drive (heedless b.nesting) b.nextTask).2.under
        (remembered none (driveRaises (fire b.nesting) (raises fire b.nesting) b.nextTask
          (b.beginning caller routine s))) b.table := by
  obtain ⟨hdrive, hlog⟩ := (heeds_fire b.nesting).drive none b.table b.nextTask
    (b.beginning caller routine s)
  have hself : (b.beginning caller routine s).under none b.table = b.beginning caller routine s :=
    under_self (b := b.beginning caller routine s) hfatal
  rw [hself] at hdrive hlog
  rw [hlog]
  exact hdrive.taken_up

/-- A native call takes operands off the current frame, which may be blocked then, and ends with a
flush. -/
theorem dispatch_arrives {m : Machine} {f : Frame} {below : List Frame}
    (hframes : m.frames = f :: below) (id : RoutineId) :
    ∃ m', m.HandsOver m' ∧ dispatch id f.id m b = flush m' (b.atCall id f.id f.stack).actual := by
  obtain ⟨n, hrest⟩ := b.registry.operands_intake id f.stack
  have htop := Machine.HandsOver.top hframes n
  rw [← hrest] at htop
  cases hintake : b.registry.intake id f.stack with
  | mk intake rest =>
      rw [hintake] at htop
      dsimp only at htop
      cases intake with
      | settled result notes spent =>
          obtain ⟨r, b', hcall, hr, hrefused⟩ := call_settled hframes f.id hintake
          have hdispatch : dispatch id f.id m b =
              flush { m with frames := { f with stack := rest } :: below } (b'.refused id f.id r) := by
            rw [dispatch, hcall]
            rcases r with e | _ | _
            · rfl
            · rfl
            · exact absurd rfl hr
          refine ⟨_, htop, hdispatch.trans ?_⟩
          rw [hrefused, atCall, hintake]
          exact congrArg (flush _) (under_self (b := { b.taken id f.id result notes spent with
            completions := b.completions ++ [⟨f.id, result⟩] }) hfatal).symm
      | begun routine s =>
          obtain ⟨r, start, xs, hget, harity, hbody, hread, rfl, rfl, rfl⟩ :=
            Registry.begun_of_intake hintake
          have hcall := call_of_operands hframes hget harity f.id
          have hstart := start_arrives (b := b.record (.dispatchStarted f.id r.name id)) hfatal f.id
            r.name (start xs)
          rw [apply] at hcall
          simp only [hbody, hread, hstart] at hcall
          have hactual : (b.atCall id f.id f.stack).actual =
              ((b.record (.dispatchStarted f.id r.name id)).start f.id r.name (start xs)).2 := by
            rw [hstart, atCall, hintake]
            rfl
          rw [dispatch, hcall, ← hstart, ← hactual]
          have hcaller : ({ m with frames := { f with stack := f.stack.drop r.arity } :: below } :
              Machine).hasFrame f.id = true :=
            Machine.hasFrame_iff.2 ⟨_, List.mem_cons_self, rfl⟩
          cases ((b.record (.dispatchStarted f.id r.name id)).start f.id r.name (start xs)).1 with
          | false => exact ⟨_, htop, rfl⟩
          | true =>
              obtain ⟨m', hblock, hover⟩ := htop.block hcaller
              exact ⟨m', hover, by simp only [hblock]⟩

theorem resolution_arrives (f : FutureId) (o : Outcome) (m : Machine) :
    (match b.settle (fire b.nesting) f o with
      | (none, b) => flush m b
      | (some e, b) => flush m (b.fail (.future e))) =
      flush m ((b.settle (heedless b.nesting) f o).2.under (remembered none (b.resolutionRaises f o))
        b.table) := by
  obtain ⟨hsettle, hlog⟩ := (heeds_fire b.nesting).settle none b.table b f o
  rw [under_self hfatal] at hsettle hlog
  rw [resolutionRaises, hlog, hsettle, remembered_append]
  generalize b.settle (heedless b.nesting) f o = r
  obtain ⟨_ | e, b'⟩ := r <;> rfl

theorem complete_arrives (t : Teardown) (m : Machine) :
    complete t m b = flush m (b.atEnd t).actual := by
  rw [complete, atEnd]
  dsimp only
  rcases (b.record (.frameTornDown t.frame t.faulted)).table.remove t.frame with ⟨_ | f, table⟩
  · exact congrArg (flush m) (under_self (b := b.record (.frameTornDown t.frame t.faulted)) hfatal).symm
  · exact resolution_arrives (b := { b.record (.frameTornDown t.frame t.faulted) with table })
      hfatal f t.outcome m

end Arriving

/-! ### The flush -/

/-- What is violated by entering the frames of invocations, the first of them under the number `id`.
Nothing is entered after an entry that is refused. -/
def entryRaises : FrameId → PendingTable → List Invocation → List BridgeError
  | _, _, [] => []
  | id, table, i :: is =>
      match table.insert id i.future with
      | .error e => [e]
      | .ok table => entryRaises (id + 1) table is

/-- The entries of invocations, the first of them under the number `id`. -/
def entriesOf : FrameId → List Invocation → List (FrameId × FutureId)
  | _, [] => []
  | id, i :: is => (id, i.future) :: entriesOf (id + 1) is

theorem perm_of_insert {t t' : PendingTable} {id : FrameId} {f : FutureId}
    (h : t.insert id f = .ok t') : t'.entries.Perm ((id, f) :: t.entries) := by
  rcases t.insert_cases id f with ⟨-, heq⟩ | ⟨-, -, heq⟩ | ⟨-, -, heq⟩
  · rw [heq] at h
    cases h
  · rw [heq] at h
    cases h
  · rw [heq] at h
    cases h
    exact PendingTable.place_perm (id, f) t.entries

/-- What loading invocations comes to, with what it violates. The frame whose entry is refused is loaded
all the same; the table keeps what it has. -/
inductive Loading (m : Machine) (b : Bridge σ) (is : List Invocation) :
    List BridgeError → Except HookError Unit × Machine × Bridge σ → Prop where
  | entered (table : PendingTable) (journal : Journal)
      (hentries : table.entries.Perm (entriesOf m.nextFrame is ++ b.table.entries)) :
      Loading m b is [] (.ok (), m.loadAll (is.map (·.program)), { b with table, journal })
  | refused (done rest : List Invocation) (i : Invocation) (e : BridgeError) (table : PendingTable)
      (journal : Journal) (hqueue : is = done ++ i :: rest)
      (hentries : table.entries.Perm (entriesOf m.nextFrame done ++ b.table.entries)) :
      Loading m b is [e]
        (.error (.bridge e), m.loadAll ((done ++ [i]).map (·.program)), { b with table, journal })

theorem loadAll_loading (is : List Invocation) (m : Machine) (b : Bridge σ) :
    Loading m b is (entryRaises m.nextFrame b.table is) (loadAll is m b) := by
  induction is generalizing m b with
  | nil => exact .entered b.table b.journal (.refl _)
  | cons i is ih =>
      have hload : (b.record (.frameLoaded (m.load i.program).1 i.program.name i.caller)).table.insert
          (m.load i.program).1 i.future = b.table.insert m.nextFrame i.future := rfl
      rw [entryRaises, loadAll]
      dsimp only
      rw [hload]
      cases hinsert : b.table.insert m.nextFrame i.future with
      | error e => exact .refused [] is i e b.table _ rfl (.refl _)
      | ok table =>
          have hrest := ih (m.load i.program).2
            { b.record (.frameLoaded (m.load i.program).1 i.program.name i.caller) with table }
          have hmoved : ∀ done, (entriesOf (m.nextFrame + 1) done ++ table.entries).Perm
              (entriesOf m.nextFrame (i :: done) ++ b.table.entries) := fun done =>
            ((perm_of_insert hinsert).append_left _).trans List.perm_middle
          have hraises : entryRaises (m.nextFrame + 1) table is =
              entryRaises (m.load i.program).2.nextFrame table is := rfl
          dsimp only at hrest ⊢
          rw [hraises]
          generalize entryRaises (m.load i.program).2.nextFrame table is = es at hrest ⊢
          generalize loadAll is (m.load i.program).2 _ = r at hrest ⊢
          cases hrest with
          | entered table' journal hentries =>
              exact .entered table' journal (hentries.trans (hmoved is))
          | refused done rest j e table' journal hqueue hentries =>
              exact .refused (i :: done) rest j e table' journal (congrArg (i :: ·) hqueue)
                (hentries.trans (hmoved done))

namespace Arrival

/-- Everything that is violated on the way to the flush and by it, `id` being the number of the next
frame. After a violation on the way nothing is entered. -/
def violations (a : Arrival σ) (id : FrameId) : List BridgeError :=
  match a.raised with
  | [] => entryRaises id a.table a.bridge.outbox
  | e :: es => e :: es

/-- What the flush may come to. -/
structure Surfaces (a : Arrival σ) (m : Machine) (r : Except HookError Unit × Machine × Bridge σ) :
    Prop where
  /-- What is remembered is what the flush fails with. -/
  fails : ∀ e, r.1 = .error (.bridge e) ↔ remembered none (a.violations m.nextFrame) = some e
  /-- No violation is left in the bridge, which a heedless run leaves the same up to what is queued and
  entered. -/
  unseen : ∃ table journal outbox completions,
    r.2.2 = { a.bridge with fatal := none, table, journal, outbox, completions }
  /-- Where something is violated, nothing is delivered to any frame. -/
  undelivered : a.violations m.nextFrame ≠ [] →
    r.2.2.completions = a.bridge.completions ∧ ∃ programs, r.2.1 = m.loadAll programs
  /-- The table keeps its entries and gets those of the invocations that are entered. -/
  entries : ∃ done rest, a.bridge.outbox = done ++ rest ∧
    r.2.2.table.entries.Perm (entriesOf m.nextFrame done ++ a.table.entries)

/-- Where nothing was violated yet, invocations are entered and then results delivered. -/
theorem flush_unviolated (b : Bridge σ) (table : PendingTable) (m : Machine) :
    flush m (⟨b, table, []⟩ : Arrival σ).actual =
      match loadAll b.outbox m { b.under none table with outbox := [] } with
      | (.error e, m, b) => (.error e, m, b)
      | (.ok (), m, b) =>
          ((deliverAll b.completions m).1, (deliverAll b.completions m).2,
            { b with completions := [] }) := rfl

theorem flush_surfaces (a : Arrival σ) (m : Machine) : a.Surfaces m (flush m a.actual) := by
  obtain ⟨b, table, _ | ⟨e, es⟩⟩ := a
  · have hloading := loadAll_loading b.outbox m { b.under none table with outbox := [] }
    have hviolations : (⟨b, table, []⟩ : Arrival σ).violations m.nextFrame =
        entryRaises m.nextFrame table b.outbox := rfl
    rw [flush_unviolated]
    have hentryRaises : entryRaises m.nextFrame
      ({ b.under none table with outbox := [] } : Bridge σ).table b.outbox =
        entryRaises m.nextFrame table b.outbox := rfl
    rw [hentryRaises, ← hviolations] at hloading
    generalize hes : (⟨b, table, []⟩ : Arrival σ).violations m.nextFrame = es at hloading
    generalize loadAll b.outbox m _ = r at hloading ⊢
    cases hloading with
    | entered table' journal hentries =>
        refine ⟨fun e => ?_, ⟨table', journal, [], [], rfl⟩, fun hne => absurd hes hne,
          ⟨b.outbox, [], (List.append_nil _).symm, hentries⟩⟩
        rw [hes]
        exact iff_of_false (deliverAll_ne_bridge _ _ e) nofun
    | refused done rest i e table' journal hqueue hentries =>
        refine ⟨fun e' => ?_, ⟨table', journal, [], b.completions, rfl⟩, fun _ => ⟨rfl, _, rfl⟩,
          ⟨done, i :: rest, hqueue, hentries⟩⟩
        have halone : remembered none [e] = some e := by cases e <;> rfl
        rw [hes, halone]
        simp
  · obtain ⟨last, hlast⟩ := remembered_cons e es
    have hflush : flush m (⟨b, table, e :: es⟩ : Arrival σ).actual =
        (.error (.bridge last), m, b.under none table) := by
      rw [actual, hlast]
      rfl
    rw [hflush]
    refine ⟨fun e' => ?_, ⟨table, b.journal, b.outbox, b.completions, rfl⟩, fun _ => ⟨rfl, [], rfl⟩,
      ⟨[], b.outbox, rfl, .refl _⟩⟩
    rw [violations, hlast]
    simp

end Arrival

end Bridge

/-! ### One step -/

namespace Machine

/-- The machine after its own part of a step, and how the bridge comes to its flush, if the step comes to
one. -/
def arrival (m : Machine) (b : Bridge σ) : Option (Machine × Bridge.Arrival σ) :=
  match @advance HookError m with
  | (.ok (.call id caller), m₁) =>
      some (m₁, b.atCall id caller ((m₁.frames.head?.map (·.stack)).getD []))
  | (.ok (.ended t), m₁) => some (m₁, b.atEnd t)
  | _ => none

/-- Everything that a step violates, in order. -/
def violations (m : Machine) (b : Bridge σ) : List BridgeError :=
  match m.arrival b with
  | none => []
  | some (m₁, a) => a.violations m₁.nextFrame

theorem step_untold {m : Machine} {b : Bridge σ} (h : m.arrival b = none) :
    (m.step Bridge.host b).2.2 = b ∧
      ∀ site cause, (m.step Bridge.host b).1 ≠ .error (.hook site cause) := by
  have hhook := advance_ne_hook (ε := HookError) m
  rw [arrival] at h
  rw [step]
  generalize @advance HookError m = x at h hhook ⊢
  rcases x with ⟨e | _ | _ | ⟨id, caller⟩ | t, m₁⟩
  · exact ⟨rfl, fun site cause heq => hhook site cause (congrArg Except.error (by simpa using heq))⟩
  · exact ⟨rfl, by simp⟩
  · exact ⟨rfl, by simp⟩
  · cases h
  · cases h

/-- A step of which the host is told ends with a flush. -/
theorem step_told {m m₁ : Machine} {b : Bridge σ} {a : Bridge.Arrival σ} (hfatal : b.fatal = none)
    (h : m.arrival b = some (m₁, a)) :
    ∃ site m', m₁.HandsOver m' ∧ m.step Bridge.host b = atSite site (Bridge.flush m' a.actual) := by
  rw [arrival] at h
  rw [step]
  cases hadvance : @advance HookError m with
  | mk signal m₂ =>
      rw [hadvance] at h
      rcases signal with e | _ | _ | ⟨id, caller⟩ | t
      · cases h
      · cases h
      · cases h
      · cases h
        cases hframes : m.frames with
        | nil =>
            rw [advance, hframes] at hadvance
            cases hadvance
        | cons f below =>
            obtain ⟨-, -, rfl, rfl⟩ := advance_call hframes hadvance
            have hcalled : ({ m with
                steps := m.steps + 1
                frames := { f with ip := f.ip + 1 } :: below } : Machine).frames =
                { f with ip := f.ip + 1 } :: below := rfl
            obtain ⟨m', hover, hdispatch⟩ := Bridge.dispatch_arrives hfatal hcalled id
            exact ⟨.native id, m', hover, congrArg (atSite (.native id)) hdispatch⟩
      · cases h
        exact ⟨.teardown t.frame, m₁, .refl m₁,
          congrArg (atSite (.teardown t.frame)) (Bridge.complete_arrives hfatal t m₁)⟩

/-- What a step does about violations of the bridge's bookkeeping. -/
structure Surfaces (m : Machine) (b : Bridge σ) : Prop where
  /-- The process ends in the step exactly if a routine is resumed inside its own poll. -/
  crashes : (∃ site, (m.step Bridge.host b).1 = .error (.hook site (.bridge .reentered))) ↔
    .reentered ∈ m.violations b
  /-- A step in which something is violated fails in the hook, with the first violation; so no other
  step fails with a violation. -/
  first : .reentered ∉ m.violations b → ∀ e,
    (∃ site, (m.step Bridge.host b).1 = .error (.hook site (.bridge e))) ↔
      (m.violations b).head? = some e
  /-- A step that goes well violates nothing. -/
  clean : ∀ p, (m.step Bridge.host b).1 = .ok p → m.violations b = []
  /-- No violation is left for a later step. -/
  cleared : (m.step Bridge.host b).2.2.fatal = none
  /-- Without a flush the bridge stays as it is. -/
  untold : m.arrival b = none → (m.step Bridge.host b).2.2 = b
  /-- Routines, futures and notes are as if violations had been thrown away. -/
  unseen : ∀ m₁ a, m.arrival b = some (m₁, a) → ∃ table journal outbox completions,
    (m.step Bridge.host b).2.2 =
      { a.bridge with fatal := none, table, journal, outbox, completions }
  /-- Where something is violated, nothing is brought to any frame: operands were taken for the native
  call, and frames were loaded on top. -/
  undelivered : ∀ m₁ a, m.arrival b = some (m₁, a) → m.violations b ≠ [] →
    (m.step Bridge.host b).2.2.completions = a.bridge.completions ∧
      ∃ m' programs, m₁.HandsOver m' ∧ (m.step Bridge.host b).2.1 = m'.loadAll programs
  /-- The table keeps its entries, that of the ended frame apart, and gets those of the invocations
  before the one that is refused. -/
  entries : ∀ m₁ a, m.arrival b = some (m₁, a) → ∃ done rest, a.bridge.outbox = done ++ rest ∧
    (m.step Bridge.host b).2.2.table.entries.Perm
      (Bridge.entriesOf m₁.nextFrame done ++ a.table.entries)

theorem error_atSite_iff {ω ε : Type} {site site' : HookSite} {r : Except ε Unit × Machine × ω}
    {cause : ε} :
    (atSite site r).1 = .error (.hook site' cause) ↔ r.1 = .error cause ∧ site' = site := by
  obtain ⟨e | _, m, w⟩ := r <;> simp [atSite, and_comm, eq_comm]

theorem state_atSite {ω ε : Type} (site : HookSite) (r : Except ε Unit × Machine × ω) :
    (atSite site r).2 = r.2 := by
  obtain ⟨e | _, m, w⟩ := r <;> rfl

theorem surfaces_untold {m : Machine} {b : Bridge σ} (hfatal : b.fatal = none)
    (h : m.arrival b = none) : m.Surfaces b := by
  obtain ⟨hsame, hhook⟩ := step_untold h
  have hviolations : m.violations b = [] := by rw [violations, h]
  have hnever : ∀ e, ¬∃ site, (m.step Bridge.host b).1 = .error (.hook site (.bridge e)) :=
    fun e ⟨site, herror⟩ => hhook site _ herror
  refine ⟨?_, fun _ e => ?_, fun _ _ => hviolations, by rw [hsame, hfatal], fun _ => hsame, ?_, ?_, ?_⟩
  · rw [hviolations]
    exact iff_of_false (hnever _) List.not_mem_nil
  · rw [hviolations]
    exact iff_of_false (hnever e) nofun
  all_goals
    intro m₁ a hsome
    rw [h] at hsome
    cases hsome

theorem surfaces_told {m m₁ : Machine} {b : Bridge σ} {a : Bridge.Arrival σ} (hfatal : b.fatal = none)
    (h : m.arrival b = some (m₁, a)) : m.Surfaces b := by
  obtain ⟨site, m', hover, hstep⟩ := step_told hfatal h
  have hflush := a.flush_surfaces m'
  have hnext : m'.nextFrame = m₁.nextFrame := by
    obtain ⟨frames, -, rfl⟩ := hover
    rfl
  have hviolations : m.violations b = a.violations m'.nextFrame := by rw [violations, h, hnext]
  have hfails : ∀ e, (∃ site', (m.step Bridge.host b).1 = .error (.hook site' (.bridge e))) ↔
      Bridge.remembered none (m.violations b) = some e := by
    intro e
    rw [hstep, hviolations, ← hflush.fails e]
    simp only [error_atSite_iff]
    exact ⟨fun ⟨_, herror, _⟩ => herror, fun herror => ⟨site, herror, rfl⟩⟩
  have hstate : (m.step Bridge.host b).2 = (Bridge.flush m' a.actual).2 := by
    rw [hstep, state_atSite]
  refine ⟨(hfails _).trans Bridge.remembered_eq_crash, fun hnot e => ?_, fun p hp => ?_, ?_, ?_, ?_, ?_,
    ?_⟩
  · rw [hfails, Bridge.remembered_of_not_mem hnot, Option.none_or]
  · cases hlist : m.violations b with
    | nil => rfl
    | cons e es =>
        obtain ⟨last, hlast⟩ := Bridge.remembered_cons e es
        obtain ⟨site', herror⟩ := (hfails last).2 (by rw [hlist, hlast])
        rw [hp] at herror
        cases herror
  · obtain ⟨table, journal, outbox, completions, hunseen⟩ := hflush.unseen
    rw [hstate, hunseen]
  · intro hnone
    rw [h] at hnone
    cases hnone
  all_goals
    intro m₂ a₂ hsome
    rw [h] at hsome
    cases hsome
    rw [hstate]
  · exact hflush.unseen
  · intro hne
    rw [hviolations] at hne
    obtain ⟨hcompletions, programs, hloaded⟩ := hflush.undelivered hne
    exact ⟨hcompletions, m', programs, hover, hloaded⟩
  · rw [← hnext]
    exact hflush.entries

theorem surfaces (m : Machine) {b : Bridge σ} (hfatal : b.fatal = none) : m.Surfaces b := by
  cases h : m.arrival b with
  | none => exact surfaces_untold hfatal h
  | some x => exact surfaces_told hfatal h

end Machine

/-! ### Machines that share a bridge -/

/-- Nothing that a host does with a bridge ends `kept`. -/
structure Bridge.Enduring (kept : Bridge σ → Prop) : Prop where
  step : ∀ {b : Bridge σ}, kept b → ∀ m : Machine, kept (m.step host b).2.2
  invokeFor : ∀ {b : Bridge σ}, kept b → ∀ t p, kept (b.invokeFor t p).2
  abandon : ∀ {b : Bridge σ}, kept b → kept b.abandon.2
  setLibrary : ∀ {b : Bridge σ}, kept b → ∀ library, kept { b with library }
  takeNotes : ∀ {b : Bridge σ}, kept b → kept { b with notes := #[] }

/-- Between two steps no violation is left behind. -/
theorem Bridge.enduring_cleared : Enduring fun b : Bridge σ => b.fatal = none where
  step h m := (m.surfaces h).cleared
  invokeFor {b} h t p := by
    rw [Bridge.invokeFor]
    split <;> exact h
  abandon _ := rfl
  setLibrary h _ := h
  takeNotes h := h

/-- Between two steps no routine is in the middle of a poll. -/
theorem Bridge.enduring_resting : Enduring (Resting (σ := σ)) where
  step h m := (h.step m).1
  invokeFor h t p := h.invokeFor t p
  abandon h := ⟨h.touchesOwn, nofun, nofun⟩
  setLibrary h _ := { h with }
  takeNotes h := { h with }

namespace Bridge.Enduring

variable {kept : Bridge σ → Prop} (hkept : Enduring kept)

include hkept

theorem drain (fuel : Nat) (m : Machine) {b : Bridge σ} (h : kept b) :
    kept (m.drain host fuel b).2.2 := by
  induction fuel generalizing m b with
  | zero => exact h
  | succ fuel ih =>
      have hstep := hkept.step h m
      rw [Machine.drain]
      generalize m.step host b = x at hstep ⊢
      rcases x with ⟨_ | _ | _, m₁, b₁⟩
      · exact hstep
      · exact ih m₁ hstep
      · exact hstep

theorem run (fuel : Nat) (m : Machine) {b : Bridge σ} (h : kept b) :
    kept (m.run host fuel b).2.2 := by
  have hdrain := hkept.drain fuel m h
  rw [Machine.run]
  generalize m.drain host fuel b = x at hdrain ⊢
  rcases x with ⟨_ | _ | _, m₁, b₁⟩
  · exact hdrain
  · exact hdrain
  · dsimp only
    cases m₁.exit <;> exact hdrain

theorem perform {s : Machine × Bridge σ} (h : kept s.2) (move : HostMove) :
    kept (move.perform s).2 := by
  cases move with
  | operate op =>
      cases op with
      | access a => exact h
      | step => exact hkept.step h s.1
      | run fuel => exact hkept.run fuel s.1 h
  | invokeFor t p => exact hkept.invokeFor h t p
  | abandon => exact hkept.abandon h

end Bridge.Enduring

/-- Machines with one bridge installed on all of them. -/
structure Fleet (σ : Type) where
  machines : Nat → Machine
  bridge : Bridge σ

namespace Fleet

/-- New machines and a new bridge. -/
def new (registry : Registry σ) (library : Library) (journal : Bool) (nesting : Nat)
    (limits : Nat → Limits) : Fleet σ where
  machines := fun i => { limits := limits i }
  bridge := { registry, library, journal := { enabled := journal }, nesting }

inductive Move where
  | on (i : Nat) (move : HostMove)
  /-- Another machine takes the place of a machine, whatever has happened to it elsewhere. -/
  | bring (i : Nat) (m : Machine)
  | setLibrary (l : Library)
  | takeNotes

def setMachine (s : Fleet σ) (i : Nat) (m : Machine) : Fleet σ :=
  { s with machines := fun j => if j = i then m else s.machines j }

def perform (s : Fleet σ) : Move → Fleet σ
  | .on i move =>
      { s.setMachine i (move.perform (s.machines i, s.bridge)).1 with
        bridge := (move.perform (s.machines i, s.bridge)).2 }
  | .bring i m => s.setMachine i m
  | .setLibrary l => { s with bridge := { s.bridge with library := l } }
  | .takeNotes => { s with bridge := { s.bridge with notes := #[] } }

def after (s : Fleet σ) (moves : List Move) : Fleet σ := moves.foldl perform s

theorem kept_after {kept : Bridge σ → Prop} (hkept : Bridge.Enduring kept) {s : Fleet σ}
    (h : kept s.bridge) (moves : List Move) : kept (s.after moves).bridge := by
  rw [after]
  induction moves generalizing s with
  | nil => exact h
  | cons move moves ih =>
      refine ih ?_
      cases move with
      | on i move => exact hkept.perform (s := (s.machines i, s.bridge)) h move
      | bring i m => exact h
      | setLibrary l => exact hkept.setLibrary h l
      | takeNotes => exact hkept.takeNotes h

/-- The only routine waits for an invocation on which it has registered a continuation of its own. -/
def eager : Registry Unit where
  poll _ := .invoke ⟨"leaf", []⟩ fun f => .register f .done fun _ => .pending ()
  routines := [⟨1, "eager", [], .suspending fun _ => ()⟩]

theorem eager_touchesOwn : eager.TouchesOwn := fun _ _ => ⟨.inr rfl, trivial, fun _ => trivial⟩

def enterMain : List Move := [.on 0 (.operate (.access (.loadEntry ⟨"main", [.native 1]⟩)))]

def registering : Fleet Unit := (new eager {} false 65536 fun _ => {}).after enterMain

/-- Two machines number their frames alike, so the second machine's first invocation is refused. -/
def pair : Fleet Builtin.Waiting :=
  (new Builtin.registry { programs := [⟨"call_a", []⟩, ⟨"call_b", []⟩] } false 65536 fun _ => {}).after
    [.on 0 (.operate (.access (.loadEntry ⟨"main", [.native 13]⟩))), .on 0 (.operate .step),
      .on 1 (.operate (.access (.loadEntry ⟨"main", [.native 13]⟩)))]

example : pair.bridge.table.frames = [2] ∧
    (pair.machines 1).violations pair.bridge = [.duplicateFrame 2] ∧
    ((pair.machines 1).step Bridge.host pair.bridge).1 =
      .error (.hook (.native 13) (.bridge (.duplicateFrame 2))) := by decide

/-- The only routine has its second invocation, which ends first, resolve the first one. -/
def meddling : Registry Unit where
  poll _ := .invoke ⟨"leaf", []⟩ fun f => .invoke ⟨"leaf", []⟩ fun g =>
    .register g (.resolve f (.returned none) fun _ => .done) fun _ => .ready (.ok .void)
  routines := [⟨1, "meddling", [], .suspending fun _ => ()⟩]

def meddled : Fleet Unit := (new meddling {} false 65536 fun _ => {}).after
  (enterMain ++ [.on 0 (.operate .step), .on 0 (.operate .step)])

example : (meddled.machines 0).violations meddled.bridge = [.future .alreadyResolved] ∧
    ((meddled.machines 0).step Bridge.host meddled.bridge).1 =
      .error (.hook (.teardown 2) (.bridge (.future .alreadyResolved))) := by decide

/-- The only routine resolves, in its second poll, an invocation that it got in the first one and waits
for. -/
def impatient : Registry (Option FutureId) where
  poll
    | none => .invoke ⟨"leaf", []⟩ fun f => .invoke ⟨"leaf", []⟩ fun g =>
        .resolve g (.returned none) fun _ => .pending (some f)
    | some f => .resolve f (.returned none) fun _ => .pending (some f)
  routines := [⟨1, "impatient", [], .suspending fun _ => none⟩]

def reentering : Fleet (Option FutureId) := (new impatient {} false 65536 fun _ => {}).after enterMain

example : (reentering.machines 0).violations reentering.bridge = [.reentered] ∧
    ((reentering.machines 0).step Bridge.host reentering.bridge).1 =
      .error (.hook (.native 1) (.bridge .reentered)) := by decide

end Fleet

end Reentrant
