import Reentrant.Proofs.PollTranscript

/-!
Futures in the hands of any user code. What user code does is a play: it creates futures, registers
and resolves, looks at futures, and returns. A call that fires a continuation starts it at once, so
the next act is an act of that continuation, which may call again before it returns; which act comes
next is up to the player. In every moment the store agrees with what has happened.
-/

namespace Reentrant

namespace FutureStore

variable {κ : Type}

theorem get_set_self (s : FutureStore κ) {f : Nat} (hf : f < s.cells.size) (c : Cell κ) :
    (s.set f c).get f = c := by
  rw [set, get, Array.getElem?_setIfInBounds_self_of_lt hf, Option.getD_some]

theorem get_set_of_ne (s : FutureStore κ) {f g : FutureId} (hne : g ≠ f) (c : Cell κ) :
    (s.set g c).get f = s.get f := by
  rw [set, get, get, Array.getElem?_setIfInBounds_ne hne]

theorem set_of_ge (s : FutureStore κ) {f : FutureId} (hf : s.cells.size ≤ f) (c : Cell κ) :
    s.set f c = s := by
  rw [set, Array.setIfInBounds_eq_of_size_le hf]

theorem get_create (s : FutureStore κ) (f : FutureId) : s.create.2.get f = s.get f := by
  rw [create_eq]
  rcases Nat.lt_trichotomy f s.cells.size with hlt | rfl | hgt
  · exact get_extend_of_lt s 1 {} hlt
  · rw [get_extend_of_ge s 1 {} (Nat.le_refl _) (Nat.lt_succ_self _), get_of_ge s (Nat.le_refl _)]
  · rw [get_of_ge _ (by rw [size_extend]; exact hgt), get_of_ge s (Nat.le_of_lt hgt)]

/-- A registration is refused, or stored, or to be run at once. -/
theorem register_cases (s : FutureStore κ) (f : FutureId) (k : κ) :
    (s.get f).registered = true ∧ s.register f k = .error .alreadyRegistered ∨
    ¬(s.get f).registered = true ∧
      ((s.get f).outcome = none ∧
        s.register f k =
          .ok (s.set f { s.get f with registered := true, waiting := some k }, none) ∨
      ∃ o, (s.get f).outcome = some o ∧
        s.register f k = .ok (s.set f { s.get f with registered := true }, some k)) := by
  rw [register, Cell.register]
  by_cases hregistered : (s.get f).registered = true
  · rw [if_pos hregistered]
    exact Or.inl ⟨hregistered, rfl⟩
  · rw [if_neg hregistered]
    refine Or.inr ⟨hregistered, ?_⟩
    cases houtcome : (s.get f).outcome with
    | none => exact Or.inl ⟨rfl, by simp [Except.map, houtcome]⟩
    | some o => exact Or.inr ⟨o, rfl, by simp [Except.map, houtcome]⟩

/-- A resolution is refused, or sets free what waited for it. -/
theorem resolve_cases (s : FutureStore κ) (f : FutureId) (o : Outcome) :
    (s.get f).outcome = none ∧
      s.resolve f o =
        .ok (s.set f { s.get f with outcome := some o, waiting := none }, (s.get f).waiting) ∨
    ∃ held, (s.get f).outcome = some held ∧ s.resolve f o = .error .alreadyResolved := by
  rw [resolve, Cell.resolve]
  cases (s.get f).outcome with
  | none => exact Or.inl ⟨rfl, rfl⟩
  | some held => exact Or.inr ⟨held, rfl, rfl⟩

theorem get_of_register {s s' : FutureStore κ} {f g : FutureId} (hne : g ≠ f) {k : κ}
    {fired : Option κ} (hcall : s.register g k = .ok (s', fired)) : s'.get f = s.get f := by
  rcases s.register_cases g k with ⟨-, heq⟩ | ⟨-, ⟨-, heq⟩ | ⟨o, -, heq⟩⟩
  · rw [heq] at hcall
    cases hcall
  · rw [heq] at hcall
    cases hcall
    exact s.get_set_of_ne hne _
  · rw [heq] at hcall
    cases hcall
    exact s.get_set_of_ne hne _

theorem get_of_resolve {s s' : FutureStore κ} {f g : FutureId} (hne : g ≠ f) {o : Outcome}
    {fired : Option κ} (hcall : s.resolve g o = .ok (s', fired)) : s'.get f = s.get f := by
  rcases s.resolve_cases g o with ⟨-, heq⟩ | ⟨held, -, heq⟩
  · rw [heq] at hcall
    cases hcall
    exact s.get_set_of_ne hne _
  · rw [heq] at hcall
    cases hcall

end FutureStore

namespace FuturePlay

variable {κ : Type}

inductive Act (κ : Type) where
  | create
  | register (f : FutureId) (k : κ)
  | resolve (f : FutureId) (o : Outcome)
  /-- Poll a future's state and ask for its result. -/
  | look (f : FutureId)
  /-- The innermost running continuation returns, and with it the call that fired it. -/
  | finish

inductive Happening (κ : Type) where
  | registered (f : FutureId) (k : κ)
  | resolved (f : FutureId) (o : Outcome)
  | refused (f : FutureId) (e : FutureError)
  /-- The continuation of a future starts; the future's state is then `seen`. -/
  | started (f : FutureId) (k : κ) (seen : Option Outcome)
  | looked (f : FutureId) (seen : Option Outcome) (result : Except FutureError Outcome)

/-- A moment in which user code acts. -/
structure Moment (κ : Type) where
  futures : FutureStore κ := {}
  /-- The continuations that run, the innermost first. -/
  running : List (FutureId × κ) := []
  /-- What has happened, oldest first. -/
  past : List (Happening κ) := []

namespace Moment

/-- What a call on the future `f` comes to: it is refused, or `h` happens and the continuation that is
to be run starts. -/
def follow (m : Moment κ) (f : FutureId) (h : Happening κ) :
    Except FutureError (FutureStore κ × Option κ) → Moment κ
  | .error e => { m with past := m.past ++ [.refused f e] }
  | .ok (futures, none) => { m with futures, past := m.past ++ [h] }
  | .ok (futures, some k) =>
      { futures
        running := (f, k) :: m.running
        past := m.past ++ [h, .started f k (futures.outcome? f)] }

/-- A future that was never created is in nobody's hands. -/
def act (m : Moment κ) : Act κ → Moment κ
  | .create => { m with futures := m.futures.create.2 }
  | .register f k =>
      if f < m.futures.cells.size then m.follow f (.registered f k) (m.futures.register f k) else m
  | .resolve f o =>
      if f < m.futures.cells.size then m.follow f (.resolved f o) (m.futures.resolve f o) else m
  | .look f =>
      { m with past := m.past ++ [.looked f (m.futures.outcome? f) (m.futures.get f).result] }
  | .finish => { m with running := m.running.tail }

def acts (m : Moment κ) (as : List (Act κ)) : Moment κ := as.foldl act m

end Moment

/-- The moment that a play from no futures has come to. -/
def play (as : List (Act κ)) : Moment κ := ({} : Moment κ).acts as

/-! ### What has happened to one future -/

namespace Happening

@[simp] def registration? (f : FutureId) : Happening κ → Option κ
  | .registered g k => if g = f then some k else none
  | _ => none

@[simp] def resolution? (f : FutureId) : Happening κ → Option Outcome
  | .resolved g o => if g = f then some o else none
  | _ => none

@[simp] def start? (f : FutureId) : Happening κ → Option (κ × Option Outcome)
  | .started g k seen => if g = f then some (k, seen) else none
  | _ => none

@[simp] def look? (f : FutureId) : Happening κ → Option (Option Outcome × Except FutureError Outcome)
  | .looked g seen result => if g = f then some (seen, result) else none
  | _ => none

def Spares (f : FutureId) (x : Happening κ) : Prop :=
  x.registration? f = none ∧ x.resolution? f = none ∧ x.start? f = none ∧ x.look? f = none

end Happening

/-- The continuations whose registration with `f` was granted, and so on. -/
abbrev registrations (past : List (Happening κ)) (f : FutureId) : List κ :=
  past.filterMap (Happening.registration? f)

abbrev resolutions (past : List (Happening κ)) (f : FutureId) : List Outcome :=
  past.filterMap (Happening.resolution? f)

abbrev starts (past : List (Happening κ)) (f : FutureId) : List (κ × Option Outcome) :=
  past.filterMap (Happening.start? f)

abbrev looks (past : List (Happening κ)) (f : FutureId) :
    List (Option Outcome × Except FutureError Outcome) :=
  past.filterMap (Happening.look? f)

theorem filterMap_append_of_nil {α β : Type} {pick : α → Option β} {new : List α}
    (hnew : new.filterMap pick = []) (past : List α) :
    (past ++ new).filterMap pick = past.filterMap pick := by
  rw [List.filterMap_append, hnew, List.append_nil]

/-- What has happened to the future `f` agrees with its cell `c`. -/
structure Accounts (past : List (Happening κ)) (f : FutureId) (c : Cell κ) : Prop where
  resolved : resolutions past f = c.outcome.toList
  once : (registrations past f).length ≤ 1
  registered : c.registered = true ↔ registrations past f ≠ []
  /-- A continuation is stored if and only if one is registered and the future is pending. -/
  waiting : c.waiting.toList = if c.outcome.isNone then registrations past f else []
  started : starts past f =
    (registrations past f).flatMap fun k => (resolutions past f).map fun o => (k, some o)
  looked : ∀ x ∈ looks past f,
    x = (none, .error .notReady) ∨ ∃ o ∈ resolutions past f, x = (some o, .ok o)

namespace Accounts

variable {past : List (Happening κ)} {f : FutureId} {c : Cell κ} (h : Accounts past f c)

theorem initial : Accounts ([] : List (Happening κ)) f {} where
  resolved := rfl
  once := Nat.zero_le 1
  registered := by simp [registrations]
  waiting := rfl
  started := rfl
  looked := by simp [looks]

include h

theorem unchanged {new : List (Happening κ)} (hregistrations : registrations new f = [])
    (hresolutions : resolutions new f = []) (hstarts : starts new f = [])
    (hlooks : ∀ x ∈ looks new f, x = (c.outcome, c.result)) : Accounts (past ++ new) f c := by
  have hall : registrations (past ++ new) f = registrations past f ∧
      resolutions (past ++ new) f = resolutions past f ∧
      starts (past ++ new) f = starts past f := by
    refine ⟨?_, ?_, ?_⟩
    · exact filterMap_append_of_nil hregistrations past
    · exact filterMap_append_of_nil hresolutions past
    · exact filterMap_append_of_nil hstarts past
  constructor <;> simp only [hall]
  case looked =>
    rw [looks, List.filterMap_append, List.forall_mem_append]
    refine ⟨h.looked, fun x hx => ?_⟩
    rw [hlooks x hx, h.resolved, Cell.result]
    cases c.outcome with
    | none => exact Or.inl rfl
    | some o => exact Or.inr ⟨o, List.mem_singleton_self o, rfl⟩
  · exact h.resolved
  · exact h.once
  · exact h.registered
  · exact h.waiting
  · exact h.started

/-- What the cell looks like before a registration that is granted. -/
theorem of_unregistered (hregistered : ¬c.registered = true) :
    registrations past f = [] ∧ starts past f = [] ∧ c.waiting = none := by
  have hnone : registrations past f = [] :=
    Decidable.not_not.1 fun hne => hregistered (h.registered.2 hne)
  have hwaiting := h.waiting
  rw [hnone, ite_self, Option.toList_eq_nil_iff] at hwaiting
  exact ⟨hnone, by rw [h.started, hnone]; rfl, hwaiting⟩

/-- What was seen once is still the outcome. -/
theorem looked_append {new : List (Happening κ)} (hnew : looks new f = []) :
    ∀ x ∈ looks (past ++ new) f,
      x = (none, .error .notReady) ∨ ∃ o ∈ resolutions (past ++ new) f, x = (some o, .ok o) := by
  intro x hx
  rw [looks, filterMap_append_of_nil hnew] at hx
  refine (h.looked x hx).imp_right ?_
  rintro ⟨o, ho, heq⟩
  rw [resolutions, List.filterMap_append]
  exact ⟨o, List.mem_append_left _ ho, heq⟩

theorem stores (hregistered : ¬c.registered = true) (houtcome : c.outcome = none) (k : κ) :
    Accounts (past ++ [.registered f k]) f { c with registered := true, waiting := some k } := by
  obtain ⟨hnone, hstarts, -⟩ := h.of_unregistered hregistered
  have hresolved := h.resolved
  rw [houtcome, Option.toList_none] at hresolved
  constructor
  case looked => exact h.looked_append rfl
  all_goals simp [List.filterMap_cons, hnone, hstarts, hresolved, houtcome]

theorem starts_late (hregistered : ¬c.registered = true) {o : Outcome} (houtcome : c.outcome = some o)
    (k : κ) :
    Accounts (past ++ [.registered f k, .started f k (some o)]) f { c with registered := true } := by
  obtain ⟨hnone, hstarts, hwaiting⟩ := h.of_unregistered hregistered
  have hresolved := h.resolved
  rw [houtcome, Option.toList_some] at hresolved
  constructor
  case looked => exact h.looked_append rfl
  all_goals simp [List.filterMap_cons, hnone, hstarts, hresolved, houtcome, hwaiting]

/-- The outcome of a future ends the waiting; it starts the continuation that waited, if one did. -/
theorem settles (houtcome : c.outcome = none) (o : Outcome) :
    Accounts (past ++ .resolved f o :: c.waiting.toList.map (Happening.started f · (some o))) f
      { c with outcome := some o, waiting := none } := by
  have hresolved := h.resolved
  have hstored := h.waiting
  rw [houtcome, Option.toList_none] at hresolved
  rw [houtcome, Option.isNone_none, if_pos rfl] at hstored
  have hregistered := h.registered
  have hstarts : starts past f = [] := by
    rw [h.started, hresolved]
    simp
  rw [← hstored] at hregistered
  constructor
  case looked => cases c.waiting <;> exact h.looked_append rfl
  all_goals
    cases hwaiting : c.waiting <;>
      simp [List.filterMap_cons, ← hstored, hwaiting, hregistered, hstarts, hresolved]

end Accounts

namespace Moment

variable {m : Moment κ} {f g : FutureId}

def Agrees (m : Moment κ) (f : FutureId) : Prop := Accounts m.past f (m.futures.get f)

theorem Agrees.follow_of_ne (h : m.Agrees f) (hne : g ≠ f) {x : Happening κ} (hx : x.Spares f)
    {r : Except FutureError (FutureStore κ × Option κ)}
    (hr : ∀ futures fired, r = .ok (futures, fired) → futures.get f = m.futures.get f) :
    (m.follow g x r).Agrees f := by
  have hsame : ∀ new : List (Happening κ), (∀ y ∈ new, y.Spares f) →
      Accounts (m.past ++ new) f (m.futures.get f) := by
    intro new hnew
    apply Accounts.unchanged h
    case hregistrations => exact List.filterMap_eq_nil_iff.2 fun y hy => (hnew y hy).1
    case hresolutions => exact List.filterMap_eq_nil_iff.2 fun y hy => (hnew y hy).2.1
    case hstarts => exact List.filterMap_eq_nil_iff.2 fun y hy => (hnew y hy).2.2.1
    case hlooks =>
      have hnone : looks new f = [] :=
        List.filterMap_eq_nil_iff.2 fun y hy => (hnew y hy).2.2.2
      rw [hnone]
      exact fun y hy => absurd hy List.not_mem_nil
  -- whether the call is refused or fires, all that is added is about `g`
  rcases r with e | ⟨futures, _ | k⟩
  · exact hsame _ (List.forall_mem_singleton.2 ⟨rfl, rfl, rfl, rfl⟩)
  · rw [Agrees, follow, hr futures none rfl]
    exact hsame _ (List.forall_mem_singleton.2 hx)
  · rw [Agrees, follow, hr futures (some k) rfl]
    have hstarted : (Happening.started g k (futures.outcome? g)).Spares f :=
      ⟨rfl, rfl, if_neg hne, rfl⟩
    exact hsame _ (List.forall_mem_cons.2 ⟨hx, List.forall_mem_singleton.2 hstarted⟩)

theorem Agrees.register (h : m.Agrees f) (hsize : f < m.futures.cells.size) (k : κ) :
    (m.follow f (.registered f k) (m.futures.register f k)).Agrees f := by
  have hset := m.futures.get_set_self hsize
  rcases m.futures.register_cases f k with
    ⟨-, hcall⟩ | ⟨hregistered, ⟨houtcome, hcall⟩ | ⟨o, houtcome, hcall⟩⟩
  · rw [hcall]
    exact Accounts.unchanged h rfl rfl rfl (by simp [List.filterMap_cons])
  · rw [hcall, Agrees, follow]
    simp only [hset]
    exact Accounts.stores h hregistered houtcome k
  · have hstarts := Accounts.starts_late h hregistered houtcome k
    rw [← houtcome] at hstarts
    rw [hcall, Agrees, follow]
    simp only [FutureStore.outcome?, hset]
    exact hstarts

theorem Agrees.resolve (h : m.Agrees f) (hsize : f < m.futures.cells.size) (o : Outcome) :
    (m.follow f (.resolved f o) (m.futures.resolve f o)).Agrees f := by
  have hset := m.futures.get_set_self hsize
  rcases m.futures.resolve_cases f o with ⟨houtcome, hcall⟩ | ⟨held, -, hcall⟩
  · have hsettles := Accounts.settles h houtcome o
    rw [hcall, Agrees]
    cases hwaiting : (m.futures.get f).waiting with
    | none =>
        rw [hwaiting] at hsettles
        simp only [follow, hset]
        exact hsettles
    | some k =>
        rw [hwaiting] at hsettles
        simp only [follow, FutureStore.outcome?, hset]
        exact hsettles
  · rw [hcall]
    exact Accounts.unchanged h rfl rfl rfl (by simp [List.filterMap_cons])

/-- Every act leaves what has happened to a future in agreement with its cell. -/
theorem Agrees.act (h : m.Agrees f) (a : Act κ) : (m.act a).Agrees f := by
  cases a with
  | create =>
      simp only [Agrees, Moment.act, FutureStore.get_create]
      exact h
  | finish => exact h
  | look g =>
      by_cases hg : g = f
      · subst hg
        exact Accounts.unchanged h rfl rfl rfl
          (by simp [FutureStore.outcome?])
      · exact Accounts.unchanged h rfl rfl rfl (by simp [hg])
  | register g k =>
      rw [Moment.act]
      by_cases hsize : g < m.futures.cells.size
      · rw [if_pos hsize]
        by_cases hg : g = f
        · subst hg
          exact h.register hsize k
        · apply h.follow_of_ne (x := .registered g k) hg ⟨if_neg hg, rfl, rfl, rfl⟩
          exact fun futures fired hcall => FutureStore.get_of_register hg hcall
      · rw [if_neg hsize]
        exact h
  | resolve g o =>
      rw [Moment.act]
      by_cases hsize : g < m.futures.cells.size
      · rw [if_pos hsize]
        by_cases hg : g = f
        · subst hg
          exact h.resolve hsize o
        · apply h.follow_of_ne (x := .resolved g o) hg ⟨rfl, if_neg hg, rfl, rfl⟩
          exact fun futures fired hcall => FutureStore.get_of_resolve hg hcall
      · rw [if_neg hsize]
        exact h

theorem Agrees.acts (h : m.Agrees f) (as : List (Act κ)) : (m.acts as).Agrees f := by
  induction as generalizing m with
  | nil => exact h
  | cons a as ih => exact ih (h.act a)

end Moment

theorem play_append (as more : List (Act κ)) : play (as ++ more) = (play as).acts more :=
  List.foldl_append

theorem play_agrees (as : List (Act κ)) (f : FutureId) : (play as).Agrees f :=
  Moment.Agrees.acts (m := {}) Accounts.initial as

namespace Moment

theorem past_act (m : Moment κ) (a : Act κ) : m.past <+: (m.act a).past := by
  have hfollow : ∀ f x r, m.past <+: (m.follow f x r).past := by
    intro f x r
    rcases r with e | ⟨futures, _ | k⟩ <;> exact List.prefix_append _ _
  cases a with
  | create => exact List.prefix_refl _
  | finish => exact List.prefix_refl _
  | look f => exact List.prefix_append _ _
  | register f k =>
      rw [act]
      split
      · exact hfollow _ _ _
      · exact List.prefix_refl _
  | resolve f o =>
      rw [act]
      split
      · exact hfollow _ _ _
      · exact List.prefix_refl _

theorem past_acts (m : Moment κ) (as : List (Act κ)) : m.past <+: (m.acts as).past := by
  induction as generalizing m with
  | nil => exact List.prefix_refl _
  | cons a as ih => exact (m.past_act a).trans (ih (m.act a))

/-- An outcome is there for good. -/
theorem Agrees.outcome_stays {m : Moment κ} {f : FutureId} (h : m.Agrees f) {o : Outcome}
    (ho : m.futures.outcome? f = some o) (as : List (Act κ)) :
    (m.acts as).futures.outcome? f = some o := by
  -- the outcome is the one resolution, and what has happened is not forgotten
  obtain ⟨new, hnew⟩ := m.past_acts as
  have hold : resolutions m.past f = [o] := by
    rw [Accounts.resolved h]
    exact congrArg Option.toList ho
  have hafter := Accounts.resolved (h.acts as)
  rw [← hnew, resolutions, List.filterMap_append] at hafter
  rw [resolutions] at hold
  rw [hold, List.singleton_append] at hafter
  change o :: _ = ((m.acts as).futures.outcome? f).toList at hafter
  cases houtcome : (m.acts as).futures.outcome? f with
  | none =>
      rw [houtcome] at hafter
      cases hafter
  | some o' =>
      rw [houtcome, Option.toList_some] at hafter
      rw [(List.cons.inj hafter).1]

/-- What is true of the future `f` whenever user code acts. -/
structure FiresOnce (m : Moment κ) (f : FutureId) : Prop where
  /-- The future has left pending once, with the outcome that it holds; or it never has. -/
  resolved : resolutions m.past f = (m.futures.outcome? f).toList
  resolve : ∀ o e, m.futures.resolve f o = .error e ↔
    e = .alreadyResolved ∧ m.futures.outcome? f ≠ none
  registered : (registrations m.past f).length ≤ 1
  register : ∀ k e, m.futures.register f k = .error e ↔
    e = .alreadyRegistered ∧ registrations m.past f ≠ []
  /-- A call that fails changes nothing and runs nothing. -/
  refused : ∀ e, (∀ o, m.futures.resolve f o = .error e →
      m.act (.resolve f o) = { m with past := m.past ++ [.refused f e] }) ∧
    ∀ k, m.futures.register f k = .error e →
      m.act (.register f k) = { m with past := m.past ++ [.refused f e] }
  stored : ∀ k, (m.futures.get f).waiting = some k ↔
    k ∈ registrations m.past f ∧ m.futures.outcome? f = none
  /-- A continuation was started once if it is registered and the future is resolved, and saw the
  outcome; otherwise it never was. -/
  started : starts m.past f =
    (registrations m.past f).flatMap fun k => (resolutions m.past f).map fun o => (k, some o)
  /-- Whoever looked has seen a pending future or the one outcome. -/
  looked : ∀ x ∈ looks m.past f,
    x = (none, .error .notReady) ∨ ∃ o ∈ resolutions m.past f, x = (some o, .ok o)

/-- Only a future that was created is ever registered with or resolved. -/
theorem lt_size_of_get {m : Moment κ} {f : FutureId}
    (h : (m.futures.get f).registered = true ∨ (m.futures.get f).outcome ≠ none) :
    f < m.futures.cells.size := by
  apply Nat.lt_of_not_le
  intro hge
  rw [m.futures.get_of_ge hge] at h
  rcases h with h | h
  · cases h
  · exact h rfl

theorem Agrees.firesOnce {m : Moment κ} {f : FutureId} (h : m.Agrees f) : m.FiresOnce f where
  resolved := Accounts.resolved h
  registered := Accounts.once h
  started := Accounts.started h
  looked := Accounts.looked h
  resolve o e := by
    rw [FutureStore.outcome?]
    rcases m.futures.resolve_cases f o with ⟨houtcome, hcall⟩ | ⟨held, houtcome, hcall⟩
    · simp [hcall, houtcome]
    · simp [hcall, houtcome, eq_comm]
  register k e := by
    rw [← Accounts.registered h]
    rcases m.futures.register_cases f k with
      ⟨hregistered, hcall⟩ | ⟨hregistered, ⟨-, hcall⟩ | ⟨o, -, hcall⟩⟩
    · simp [hcall, hregistered, eq_comm]
    · simp [hcall, hregistered]
    · simp [hcall, hregistered]
  refused e := by
    constructor
    · intro o hcall
      have hsize : f < m.futures.cells.size := by
        rcases m.futures.resolve_cases f o with ⟨-, heq⟩ | ⟨held, houtcome, -⟩
        · rw [heq] at hcall
          cases hcall
        · exact lt_size_of_get (Or.inr (by rw [houtcome]; exact Option.some_ne_none held))
      rw [Moment.act, if_pos hsize, hcall]
      rfl
    · intro k hcall
      have hsize : f < m.futures.cells.size := by
        rcases m.futures.register_cases f k with
          ⟨hregistered, -⟩ | ⟨-, ⟨-, heq⟩ | ⟨o, -, heq⟩⟩
        · exact lt_size_of_get (Or.inl hregistered)
        · rw [heq] at hcall
          cases hcall
        · rw [heq] at hcall
          cases hcall
      rw [Moment.act, if_pos hsize, hcall]
      rfl
  stored k := by
    have hwaiting := Accounts.waiting h
    rw [← Option.mem_toList, hwaiting, FutureStore.outcome?]
    cases (m.futures.get f).outcome <;> simp

end Moment

end FuturePlay

end Reentrant
