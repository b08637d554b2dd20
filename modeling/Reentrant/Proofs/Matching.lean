import Reentrant.Assembly.Peg

/-!
How expressions match, apart from places and attempts. `Expr.Reads` and `Expr.Fails` say that an
expression matches a text up to what is left of it, or does not match it, whatever the bytes in front
of the text and the attempts so far; for every kind of expression there are rules that derive the one
and the other.
-/

namespace Reentrant.Assembly

/-! ### Places -/

/-- The bytes of a text. -/
def bytesOf : List Char → Nat
  | [] => 0
  | x :: xs => x.utf8Size + bytesOf xs

theorem bytesOf_append (w rest : List Char) : bytesOf (w ++ rest) = bytesOf w + bytesOf rest := by
  induction w with
  | nil => exact (Nat.zero_add _).symm
  | cons x xs ih =>
      rw [List.cons_append, bytesOf, ih, bytesOf]
      omega

theorem bytesOf_le {text rest : List Char} (h : rest <:+ text) {total : Nat}
    (htotal : bytesOf text ≤ total) : bytesOf rest ≤ total := by
  obtain ⟨w, rfl⟩ := h
  rw [bytesOf_append] at htotal
  omega

namespace Cursor

/-- The place in a source of `total` bytes at which `rest` is left. -/
def left (total : Nat) (rest : List Char) : Cursor := ⟨rest, total - bytesOf rest⟩

/-- Moving past one character. -/
theorem next_left {total : Nat} {x : Char} {xs : List Char} (h : bytesOf (x :: xs) ≤ total) :
    (⟨xs, (left total (x :: xs)).offset + x.utf8Size⟩ : Cursor) = left total xs := by
  simp only [left, bytesOf] at h ⊢
  congr 1
  omega

theorem skipWhile_left {total : Nat} {text : List Char} (p : Char → Bool)
    (h : bytesOf text ≤ total) :
    (left total text).skipWhile p = left total (text.dropWhile p) := by
  unfold skipWhile
  induction text with
  | nil => rfl
  | cons x xs ih =>
      have hxs : bytesOf xs ≤ total := bytesOf_le (List.suffix_cons x xs) h
      have hnext := congrArg Cursor.offset (next_left h)
      dsimp only at hnext
      rw [List.dropWhile_cons]
      cases hp : p x with
      | false => simp [left, skipWhile.go, hp]
      | true =>
          rw [if_pos rfl, ← ih hxs]
          show skipWhile.go p (x :: xs) _ = _
          rw [skipWhile.go, hp, if_pos rfl, hnext]
          rfl

/-- What is left of a text once blanks and a comment in front of it are skipped. -/
def skipped (text : List Char) : List Char :=
  match text.dropWhile isBlank with
  | ';' :: rest => (';' :: rest).dropWhile fun x => !isLineBreak x
  | rest => rest

theorem skipped_of_comment {text rest : List Char} (h : text.dropWhile isBlank = ';' :: rest) :
    skipped text = (';' :: rest).dropWhile fun x => !isLineBreak x := by
  unfold skipped
  rw [h]
  rfl

theorem skipped_of_no_comment {text : List Char}
    (h : ∀ rest, text.dropWhile isBlank ≠ ';' :: rest) :
    skipped text = text.dropWhile isBlank := by
  unfold skipped
  split
  · next rest heq => exact absurd heq (h rest)
  · rfl

theorem skip_left {total : Nat} {text : List Char} (h : bytesOf text ≤ total) :
    (left total text).skip = left total (skipped text) := by
  have hrest : bytesOf (text.dropWhile isBlank) ≤ total :=
    bytesOf_le (List.dropWhile_suffix _) h
  unfold skip
  rw [skipWhile_left _ h]
  by_cases hcomment : ∃ rest, text.dropWhile isBlank = ';' :: rest
  · obtain ⟨rest, heq⟩ := hcomment
    rw [skipped_of_comment heq]
    rw [heq] at hrest ⊢
    exact skipWhile_left _ hrest
  · have hnone : ∀ rest, text.dropWhile isBlank ≠ ';' :: rest := fun rest heq =>
      hcomment ⟨rest, heq⟩
    rw [skipped_of_no_comment hnone]
    dsimp only [left]
    split
    · next rest heq => exact absurd heq (hnone rest)
    · rfl

/-- Begins with neither a blank nor a comment. -/
def Solid (text : List Char) : Prop := ∀ c ∈ text.head?, isBlank c = false ∧ c ≠ ';'

theorem skipped_of_solid {text : List Char} (h : Solid text) : skipped text = text := by
  cases text with
  | nil => rfl
  | cons x xs =>
      obtain ⟨hblank, hcomment⟩ := h x rfl
      have hdrop : (x :: xs).dropWhile isBlank = x :: xs := by
        rw [List.dropWhile_cons, hblank]
        rfl
      rw [skipped_of_no_comment, hdrop]
      intro rest heq
      rw [hdrop] at heq
      exact hcomment (List.cons.inj heq).1

theorem head?_dropWhile (p : Char → Bool) (text : List Char) :
    ∀ c ∈ (text.dropWhile p).head?, p c = false := by
  intro c hc
  have h := List.head?_dropWhile_not p text
  rw [Option.mem_def.1 hc] at h
  exact h

theorem solid_skipped (text : List Char) : Solid (skipped text) := by
  intro c hc
  by_cases hcomment : ∃ rest, text.dropWhile isBlank = ';' :: rest
  · obtain ⟨rest, heq⟩ := hcomment
    rw [skipped_of_comment heq] at hc
    have hbreak := head?_dropWhile (fun x => !isLineBreak x) _ c hc
    constructor
    · refine Bool.not_eq_true _ ▸ fun hblank => ?_
      simp only [isBlank, Bool.or_eq_true, beq_iff_eq] at hblank
      rcases hblank with rfl | rfl <;> cases hbreak
    · rintro rfl
      cases hbreak
  · have hnone : ∀ rest, text.dropWhile isBlank ≠ ';' :: rest := fun rest heq =>
      hcomment ⟨rest, heq⟩
    rw [skipped_of_no_comment hnone] at hc
    refine ⟨head?_dropWhile isBlank text c hc, ?_⟩
    rintro rfl
    obtain ⟨xs, hxs⟩ := List.head?_eq_some_iff.1 (Option.mem_def.1 hc)
    exact hnone xs hxs

theorem skipped_skipped (text : List Char) : skipped (skipped text) = skipped text :=
  skipped_of_solid (solid_skipped text)

theorem skipped_suffix (text : List Char) : skipped text <:+ text := by
  by_cases hcomment : ∃ rest, text.dropWhile isBlank = ';' :: rest
  · obtain ⟨rest, heq⟩ := hcomment
    rw [skipped_of_comment heq, ← heq]
    exact (List.dropWhile_suffix _).trans (List.dropWhile_suffix _)
  · rw [skipped_of_no_comment fun rest heq => hcomment ⟨rest, heq⟩]
    exact List.dropWhile_suffix _

theorem expect_left {total : Nat} (s : List Char) {rest : List Char}
    (h : bytesOf (s ++ rest) ≤ total) :
    (left total (s ++ rest)).expect s = some (left total rest) := by
  induction s with
  | nil => rfl
  | cons x s ih =>
      have hs : bytesOf (s ++ rest) ≤ total :=
        bytesOf_le (List.suffix_cons x (s ++ rest)) h
      show (if x = x then expect s ⟨s ++ rest, _⟩ else none) = _
      rw [if_pos rfl, ← ih hs]
      exact congrArg _ (next_left h)

theorem expect_none {s : List Char} {c : Cursor} (h : ¬s <+: c.rest) : c.expect s = none := by
  induction s generalizing c with
  | nil => exact absurd List.nil_prefix h
  | cons x s ih =>
      unfold expect
      split
      · next y ys hrest =>
          by_cases hxy : x = y
          · subst hxy
            rw [if_pos rfl]
            rw [hrest, List.cons_prefix_cons] at h
            exact ih fun hs => h ⟨rfl, hs⟩
          · exact if_neg hxy
      · rfl

theorem textTo_left {total : Nat} (w : List Char) {rest : List Char}
    (h : bytesOf (w ++ rest) ≤ total) :
    (left total (w ++ rest)).textTo (left total rest).offset = w := by
  unfold textTo
  induction w with
  | nil =>
      cases rest with
      | nil => rfl
      | cons x xs => simp [left, textTo.go]
  | cons x w ih =>
      have hw : bytesOf (w ++ rest) ≤ total :=
        bytesOf_le (List.suffix_cons x (w ++ rest)) h
      have hnext := congrArg Cursor.offset (next_left h)
      have hlt : (left total (x :: w ++ rest)).offset < (left total rest).offset := by
        have hpos := Char.utf8Size_pos x
        simp only [left, List.cons_append, bytesOf, bytesOf_append] at h ⊢
        omega
      show textTo.go _ (x :: (w ++ rest)) _ = _
      rw [textTo.go, if_pos hlt]
      exact congrArg (x :: ·) ((congrArg _ hnext).trans (ih hw))

end Cursor

/-! ### Matches without places -/

/-- A match without its places: what a rule with no rules inside it has matched, or the matches
inside. -/
inductive Tree where
  | leaf (rule : Rule) (text : List Char)
  | branch (rule : Rule) (children : List Tree)

mutual

def Node.tree : Node → Tree
  | .node r c stop [] => .leaf r (c.textTo stop)
  | .node r _ _ (x :: xs) => .branch r (x.tree :: Node.trees xs)

def Node.trees : List Node → List Tree
  | [] => []
  | x :: xs => x.tree :: Node.trees xs

end

theorem Node.trees_eq_map (ns : List Node) : trees ns = ns.map tree := by
  induction ns with
  | nil => rfl
  | cons x xs ih => rw [trees, ih, List.map_cons]

theorem Node.of_leaf {n : Node} {r : Rule} {w : List Char} (h : n.tree = .leaf r w) :
    n.rule = r ∧ n.text = w := by
  obtain ⟨r', c, stop, children⟩ := n
  cases children with
  | nil =>
      rw [tree] at h
      cases h
      exact ⟨rfl, rfl⟩
  | cons x xs =>
      rw [tree] at h
      cases h

theorem Node.of_branch {n : Node} {r : Rule} {ts : List Tree} (h : n.tree = .branch r ts) :
    n.rule = r ∧ n.children.map tree = ts := by
  obtain ⟨r', c, stop, children⟩ := n
  cases children with
  | nil =>
      rw [tree] at h
      cases h
  | cons x xs =>
      rw [tree, trees_eq_map] at h
      cases h
      exact ⟨rfl, rfl⟩

/-! ### Reading and failing -/

/-- What is left of a text when the next part of a sequence begins. -/
def Mood.next (m : Mood) (text : List Char) : List Char :=
  if m.skips then Cursor.skipped text else text

namespace Expr

/-- The expression matches the text up to `rest`, with these matches inside. -/
def Reads (m : Mood) (e : Expr) (text rest : List Char) (ts : List Tree) : Prop :=
  rest <:+ text ∧ ∀ total, bytesOf text ≤ total → ∀ t, ∃ ns t',
    e.run m (.left total text) t = (some (.left total rest, ns), t') ∧ ns.map Node.tree = ts

/-- The expression does not match the text. -/
def Fails (m : Mood) (e : Expr) (text : List Char) : Prop :=
  ∀ total, bytesOf text ≤ total → ∀ t, ∃ t', e.run m (.left total text) t = (none, t')

variable {m : Mood} {a b : Expr} {text mid rest : List Char} {ts us : List Tree}

attribute [local simp] run

theorem Reads.le (h : a.Reads m text rest ts) {total : Nat} (htotal : bytesOf text ≤ total) :
    bytesOf rest ≤ total :=
  bytesOf_le h.1 htotal

theorem next_suffix (m : Mood) (text : List Char) : m.next text <:+ text := by
  unfold Mood.next
  split
  · exact Cursor.skipped_suffix text
  · exact List.suffix_rfl

theorem next_left {total : Nat} (htotal : bytesOf text ≤ total) :
    (if m.skips then (Cursor.left total text).skip else Cursor.left total text) =
      Cursor.left total (m.next text) := by
  unfold Mood.next
  split
  · exact Cursor.skip_left htotal
  · rfl

theorem next_next (m : Mood) (text : List Char) : m.next (m.next text) = m.next text := by
  unfold Mood.next
  split
  · exact Cursor.skipped_skipped text
  · rfl

/-! #### Characters and texts -/

theorem char_reads {p : Char → Bool} {x : Char} (hx : p x = true) (xs : List Char) :
    (char p).Reads m (x :: xs) xs [] := by
  refine ⟨List.suffix_cons x xs, fun total htotal t => ⟨[], t, ?_, rfl⟩⟩
  show ((if p x then some (_, []) else none : Option (Cursor × List Node)), t) = _
  rw [if_pos hx, Cursor.next_left htotal]

theorem char_fails {p : Char → Bool} (h : ∀ x ∈ text.head?, p x = false) :
    (char p).Fails m text := by
  intro total _ t
  refine ⟨t, ?_⟩
  cases text with
  | nil => rfl
  | cons x xs =>
      show ((if p x then some (_, []) else none : Option (Cursor × List Node)), t) = _
      rw [h x rfl]
      rfl

theorem text_reads (s rest : List Char) : (Expr.text s).Reads m (s ++ rest) rest [] := by
  refine ⟨List.suffix_append s rest, fun total htotal t => ⟨[], t, ?_, rfl⟩⟩
  simp [Cursor.expect_left s htotal]

theorem text_fails {s : List Char} (h : ¬s <+: text) : (Expr.text s).Fails m text := by
  intro total _ t
  refine ⟨t, ?_⟩
  have hnone : (Cursor.left total text).expect s = none := Cursor.expect_none h
  simp [hnone]

theorem endOfInput_reads : endOfInput.Reads m [] [] [] :=
  ⟨List.suffix_rfl, fun _ _ t => ⟨[], t, rfl, rfl⟩⟩

/-! #### Sequences and choices -/

theorem seq_reads (ha : a.Reads m text mid ts) (hb : b.Reads m (m.next mid) rest us) :
    (seq a b).Reads m text rest (ts ++ us) := by
  refine ⟨hb.1.trans ((next_suffix m mid).trans ha.1), fun total htotal t => ?_⟩
  have hmid := ha.le htotal
  obtain ⟨ns, t₁, hrun, rfl⟩ := ha.2 total htotal t
  obtain ⟨ns', t₂, hrun', rfl⟩ :=
    hb.2 total (bytesOf_le (next_suffix m mid) hmid) t₁
  refine ⟨ns ++ ns', t₂, ?_, List.map_append⟩
  simp [hrun, next_left hmid, hrun']

/-- A sequence whose first part keeps no match. -/
theorem seq_reads_silent (ha : a.Reads m text mid []) (hb : b.Reads m (m.next mid) rest us) :
    (seq a b).Reads m text rest us :=
  seq_reads ha hb

/-- A sequence whose second part keeps no match. -/
theorem seq_reads_alone (ha : a.Reads m text mid ts) (hb : b.Reads m (m.next mid) rest []) :
    (seq a b).Reads m text rest ts := by
  rw [← List.append_nil ts]
  exact seq_reads ha hb

/-- A sequence whose first part keeps one match. -/
theorem seq_reads_cons {x : Tree} (ha : a.Reads m text mid [x])
    (hb : b.Reads m (m.next mid) rest us) : (seq a b).Reads m text rest (x :: us) :=
  seq_reads ha hb

theorem seq_fails (ha : a.Fails m text) : (seq a b).Fails m text := by
  intro total htotal t
  obtain ⟨t₁, hrun⟩ := ha total htotal t
  refine ⟨t₁, ?_⟩
  simp [hrun]

theorem seq_fails_second (ha : a.Reads m text mid ts) (hb : b.Fails m (m.next mid)) :
    (seq a b).Fails m text := by
  intro total htotal t
  have hmid := ha.le htotal
  obtain ⟨ns, t₁, hrun, -⟩ := ha.2 total htotal t
  obtain ⟨t₂, hrun'⟩ := hb total (bytesOf_le (next_suffix m mid) hmid) t₁
  refine ⟨t₂, ?_⟩
  simp [hrun, next_left hmid, hrun']

theorem alt_reads (ha : a.Reads m text rest ts) : (alt a b).Reads m text rest ts := by
  refine ⟨ha.1, fun total htotal t => ?_⟩
  obtain ⟨ns, t₁, hrun, hns⟩ := ha.2 total htotal t
  refine ⟨ns, t₁, ?_, hns⟩
  simp [hrun]

theorem alt_reads_second (ha : a.Fails m text) (hb : b.Reads m text rest ts) :
    (alt a b).Reads m text rest ts := by
  refine ⟨hb.1, fun total htotal t => ?_⟩
  obtain ⟨t₁, hrun⟩ := ha total htotal t
  obtain ⟨ns, t₂, hrun', hns⟩ := hb.2 total htotal t₁
  refine ⟨ns, t₂, ?_, hns⟩
  simp [hrun, hrun']

theorem alt_fails (ha : a.Fails m text) (hb : b.Fails m text) : (alt a b).Fails m text := by
  intro total htotal t
  obtain ⟨t₁, hrun⟩ := ha total htotal t
  obtain ⟨t₂, hrun'⟩ := hb total htotal t₁
  refine ⟨t₂, ?_⟩
  simp [hrun, hrun']

theorem opt_reads (ha : a.Reads m text rest ts) : (opt a).Reads m text rest ts := by
  refine ⟨ha.1, fun total htotal t => ?_⟩
  obtain ⟨ns, t₁, hrun, hns⟩ := ha.2 total htotal t
  refine ⟨ns, t₁, ?_, hns⟩
  simp [hrun]

theorem opt_reads_none (ha : a.Fails m text) : (opt a).Reads m text text [] := by
  refine ⟨List.suffix_rfl, fun total htotal t => ?_⟩
  obtain ⟨t₁, hrun⟩ := ha total htotal t
  refine ⟨[], t₁, ?_, rfl⟩
  simp [hrun]

theorem absent_reads (ha : a.Fails { m with negated := !m.negated } text) :
    (absent a).Reads m text text [] := by
  refine ⟨List.suffix_rfl, fun total htotal t => ?_⟩
  obtain ⟨t₁, hrun⟩ := ha total htotal t
  refine ⟨[], t₁, ?_, rfl⟩
  simp [hrun]

theorem absent_fails (ha : a.Reads { m with negated := !m.negated } text rest ts) :
    (absent a).Fails m text := by
  intro total htotal t
  obtain ⟨ns, t₁, hrun, -⟩ := ha.2 total htotal t
  refine ⟨t₁, ?_⟩
  simp [hrun]

/-! #### Repetitions -/

/-- The expression matches again and again, and then no more. -/
inductive Repeats (m : Mood) (a : Expr) : List Char → List Char → List Tree → Prop where
  | stop {text : List Char} (h : a.Fails m (m.next text)) : Repeats m a text text []
  | step {text mid rest : List Char} {ts us : List Tree} (h : a.Reads m (m.next text) mid ts)
      (hlt : mid.length < (m.next text).length) (hrest : Repeats m a mid rest us) :
      Repeats m a text rest (ts ++ us)

theorem Repeats.silent (h : a.Reads m (m.next text) mid [])
    (hlt : mid.length < (m.next text).length) (hrest : Repeats m a mid rest us) :
    Repeats m a text rest us :=
  .step h hlt hrest

theorem Repeats.cons {x : Tree} (h : a.Reads m (m.next text) mid [x])
    (hlt : mid.length < (m.next text).length) (hrest : Repeats m a mid rest us) :
    Repeats m a text rest (x :: us) :=
  .step h hlt hrest

theorem Repeats.suffix (h : Repeats m a text rest ts) : rest <:+ text := by
  induction h with
  | stop h => exact List.suffix_rfl
  | step h hlt hrest ih => exact ih.trans (h.1.trans (next_suffix m _))

/-- As many steps as there are characters left are enough. -/
theorem Repeats.repeatedly (h : Repeats m a text rest ts) {fuel total : Nat}
    (hfuel : text.length < fuel) (htotal : bytesOf text ≤ total) (t : Attempts) :
    ∃ ns t', repeatedly (fun c t => a.run m (if m.skips then c.skip else c) t) fuel
      (.left total text) t = ((.left total rest, ns), t') ∧ ns.map Node.tree = ts := by
  induction h generalizing fuel t with
  | @stop text h =>
      obtain ⟨fuel, rfl⟩ : ∃ k, fuel = k + 1 := ⟨fuel - 1, by omega⟩
      have hnext : bytesOf (m.next text) ≤ total :=
        bytesOf_le (next_suffix m text) htotal
      obtain ⟨t₁, hrun⟩ := h total hnext t
      refine ⟨[], t₁, ?_, rfl⟩
      rw [Assembly.repeatedly]
      dsimp only
      rw [next_left htotal, hrun]
  | @step text mid rest ts us h hlt hrest ih =>
      obtain ⟨fuel, rfl⟩ : ∃ k, fuel = k + 1 := ⟨fuel - 1, by omega⟩
      have hnext : bytesOf (m.next text) ≤ total :=
        bytesOf_le (next_suffix m text) htotal
      have hlength : (m.next text).length ≤ text.length := (next_suffix m text).length_le
      obtain ⟨ns, t₁, hrun, rfl⟩ := h.2 total hnext t
      have hmid : mid.length < fuel := by omega
      obtain ⟨ns', t₂, hrun', rfl⟩ := ih hmid (h.le hnext) t₁
      refine ⟨ns ++ ns', t₂, ?_, List.map_append⟩
      rw [Assembly.repeatedly]
      dsimp only
      rw [next_left htotal, hrun]
      dsimp only
      rw [hrun']

theorem many_reads (ha : a.Reads m text mid ts) (hrest : Repeats m a mid rest us) :
    (many a).Reads m text rest (ts ++ us) := by
  refine ⟨hrest.suffix.trans ha.1, fun total htotal t => ?_⟩
  obtain ⟨ns, t₁, hrun, rfl⟩ := ha.2 total htotal t
  obtain ⟨ns', t₂, hrun', rfl⟩ :=
    hrest.repeatedly (Nat.lt_succ_self _) (ha.le htotal) t₁
  refine ⟨ns ++ ns', t₂, ?_, List.map_append⟩
  rw [run, hrun]
  dsimp only [Cursor.left] at hrun' ⊢
  rw [hrun']

theorem many_reads_none (ha : a.Fails m text) : (many a).Reads m text text [] := by
  refine ⟨List.suffix_rfl, fun total htotal t => ?_⟩
  obtain ⟨t₁, hrun⟩ := ha total htotal t
  refine ⟨[], t₁, ?_, rfl⟩
  simp [hrun]

/-- A repetition within a sequence: it begins behind what is skipped, and what it leaves is the same
but for what is skipped there. -/
theorem many_reads_next (h : Repeats m a text rest ts) :
    ∃ rest', (many a).Reads m (m.next text) rest' ts ∧ m.next rest' = m.next rest := by
  cases h with
  | stop h => exact ⟨m.next text, many_reads_none h, next_next m text⟩
  | step h hlt hrest => exact ⟨rest, many_reads h hrest, rfl⟩

theorem next_of_tight (hskips : m.skips = false) (text : List Char) : m.next text = text := by
  rw [Mood.next, hskips]
  rfl

/-- A repetition where nothing is skipped. -/
theorem many_reads_tight (hskips : m.skips = false) (h : Repeats m a text rest ts) :
    (many a).Reads m text rest ts := by
  obtain ⟨rest', hreads, hsame⟩ := many_reads_next h
  rw [next_of_tight hskips] at hreads
  rw [next_of_tight hskips, next_of_tight hskips] at hsame
  exact hsame ▸ hreads

/-! #### Rules -/

variable {r : Rule} {grain : Grain} {body : Expr}

theorem rule_fails (h : body.Fails (m.enter grain) text) : (rule r grain body).Fails m text := by
  intro total htotal t
  obtain ⟨t₁, hrun⟩ := h total htotal t
  refine ⟨((rule r grain body).run m (.left total text) t).2, Prod.ext ?_ rfl⟩
  simp [hrun]

/-- Where something must be absent, no match is kept. -/
theorem rule_reads_negated (hnegated : m.negated = true)
    (h : body.Reads (m.enter grain) text rest ts) : (rule r grain body).Reads m text rest [] := by
  refine ⟨h.1, fun total htotal t => ?_⟩
  obtain ⟨ns, t₁, hrun, -⟩ := h.2 total htotal t
  refine ⟨[], ((rule r grain body).run m (.left total text) t).2, Prod.ext ?_ rfl, rfl⟩
  simp [hrun, hnegated]

variable (hquiet : m.quiet = false) (hnegated : m.negated = false)

include hquiet hnegated

/-- A rule with no rules inside. -/
theorem rule_reads_leaf {w : List Char} (h : body.Reads (m.enter grain) (w ++ rest) rest []) :
    (rule r grain body).Reads m (w ++ rest) rest [.leaf r w] := by
  refine ⟨h.1, fun total htotal t => ?_⟩
  obtain ⟨ns, t₁, hrun, hns⟩ := h.2 total htotal t
  obtain rfl := List.map_eq_nil_iff.1 hns
  refine ⟨[.node r (.left total (w ++ rest)) (Cursor.left total rest).offset []], t₁, ?_, ?_⟩
  · simp [hrun, hquiet, hnegated]
  · rw [List.map_singleton, Node.tree, Cursor.textTo_left w htotal]

/-- A rule with rules inside. -/
theorem rule_reads_branch (hne : ts ≠ []) (h : body.Reads (m.enter grain) text rest ts) :
    (rule r grain body).Reads m text rest [.branch r ts] := by
  refine ⟨h.1, fun total htotal t => ?_⟩
  obtain ⟨ns, t₁, hrun, hns⟩ := h.2 total htotal t
  refine ⟨[.node r (.left total text) (Cursor.left total rest).offset ns], t₁, ?_, ?_⟩
  · simp [hrun, hquiet, hnegated]
  · cases ns with
    | nil => exact absurd hns.symm hne
    | cons y ys => rw [List.map_singleton, Node.tree, Node.trees_eq_map, ← List.map_cons, hns]

end Expr

end Reentrant.Assembly
