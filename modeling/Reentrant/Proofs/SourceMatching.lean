import Mathlib.Data.List.Forall2
import Reentrant.Proofs.TokenMatching

/-!
Printed sources are read as what they were printed for. Every line is read by the alternative of its
kind, however its words and the line breaks around it are laid out, and so the listing of a printed
source says the procedures that it was printed for.
-/

namespace Reentrant.Assembly

open Reentrant.Assembly.Grammar Reentrant.Assembly.Cursor Reentrant.Assembly.Expr

/-! ### What a listing says -/

inductive Operand.Tells : Operand → Argument → Prop where
  | int (z : Int) : Tells (.int (Decimal.ofInt z)) (.int z)
  | bytes (d : HexDigits) : Tells (.bytes d.digits) (.bytes d)
  | str {s : String} {raw : List Char} (h : Quoted s.toList raw) : Tells (.string raw) (.str s)
  | name (n : Name) : Tells (.ident n.chars) (.name n)

inductive Line.Tells : Line → Item → Prop where
  | label (n : Name) (span : Span) : Tells (.label n.chars span) (.label n)
  | bare (m : Mnemonic) (span : Span) : Tells (.instr m.chars none span) (.instr m none)
  | operand (m : Mnemonic) (span : Span) {o : Operand} {a : Argument} (h : o.Tells a) :
      Tells (.instr m.chars (some o) span) (.instr m (some a))

structure Listing.Tells (l : Listing) (p : Procedure) : Prop where
  name : l.name = p.name.chars
  lines : List.Forall₂ Line.Tells l.lines p.lines

/-- Matches of this form stand for such an operand. -/
def Tree.TellsOperand (x : Tree) (a : Argument) : Prop :=
  ∀ n : Node, n.tree = x → (Operand.ofNode n).Tells a

def Tree.TellsLine (x : Tree) (i : Item) : Prop :=
  ∀ source (n : Node), n.tree = x → ∃ l, Line.ofNode? source n = some l ∧ l.Tells i

def Tree.TellsProcedure (x : Tree) (p : Procedure) : Prop :=
  ∀ source (n : Node), n.tree = x → ∃ l, Listing.ofNode? source n = some l ∧ l.Tells p

/-! ### Line breaks -/

/-- A carriage return takes a line feed behind it along. -/
theorem newline_reads {k : List Char} (hk : LineBreak k) (rest : List Char) :
    ∃ u, newline.Reads {} (k ++ rest) u [] ∧ (u = rest ∨ rest = '\n' :: u) := by
  have hfeed : ∀ text : List Char, ¬['\n'] <+: '\r' :: text := fun text h =>
    absurd (List.cons_prefix_cons.1 h).1 (by decide)
  cases hk with
  | lf => exact ⟨rest, alt_reads (text_reads ['\n'] rest), .inl rfl⟩
  | crlf =>
      exact ⟨rest, alt_reads_second (text_fails (hfeed _))
        (alt_reads (text_reads ['\r', '\n'] rest)), .inl rfl⟩
  | cr =>
      by_cases hrest : ['\n'] <+: rest
      · obtain ⟨u, rfl⟩ := hrest
        exact ⟨u, alt_reads_second (text_fails (hfeed _)) (alt_reads (text_reads ['\r', '\n'] u)),
          .inr rfl⟩
      · refine ⟨rest, alt_reads_second (text_fails (hfeed _)) (alt_reads_second (text_fails ?_)
          (text_reads ['\r'] rest)), .inl rfl⟩
        exact fun h => hrest (List.cons_prefix_cons.1 h).2

theorem newline_fails {text : List Char} (h : ∀ c ∈ text.head?, isLineBreak c = false) :
    newline.Fails {} text := by
  have hchar : ∀ (x : Char) (s : List Char), isLineBreak x = true → ¬x :: s <+: text := by
    rintro x s hx ⟨u, rfl⟩
    rw [h x rfl] at hx
    cases hx
  exact alt_fails (text_fails (hchar _ _ rfl))
    (alt_fails (text_fails (hchar _ _ rfl)) (text_fails (hchar _ _ rfl)))

/-- No line break follows, blanks and a comment apart. -/
def Settled (rest : List Char) : Prop := ∀ c ∈ (skipped rest).head?, isLineBreak c = false

/-- Blank and comment-only lines are taken up to what is settled, also where a line feed in front of
them has been taken along. -/
theorem gap_repeats {g r : List Char} (hg : Gap g) (hr : Settled r) :
    Repeats {} newline (g ++ r) r [] ∧ ∀ u, g ++ r = '\n' :: u → Repeats {} newline u r [] := by
  induction hg with
  | nil =>
      refine ⟨.stop (newline_fails hr), fun u hu => ?_⟩
      replace hu : r = '\n' :: u := hu
      subst hu
      have hsolid : Solid ('\n' :: u) := solid_cons (by decide) u
      have hbreak := hr '\n' (by rw [skipped_of_solid hsolid]; rfl)
      cases hbreak
  | @line w k g hw hk hg ih =>
      have htext : w ++ (k ++ g) ++ r = w ++ (k ++ (g ++ r)) := by simp only [List.append_assoc]
      rw [htext]
      have hskipped : skipped (w ++ (k ++ (g ++ r))) = k ++ (g ++ r) :=
        skipped_trailing hw (hk.atBreak _)
      constructor
      · obtain ⟨u, hreads, hu⟩ := newline_reads hk (g ++ r)
        have hrest : Repeats {} newline u r [] := by
          rcases hu with rfl | hu
          · exact ih.1
          · exact ih.2 u hu
        refine .silent ?_ ?_ hrest
        · show newline.Reads {} (skipped _) u []
          rw [hskipped]
          exact hreads
        · show u.length < (skipped _).length
          have hlength : u.length ≤ (g ++ r).length := by
            rcases hu with rfl | hu
            · exact Nat.le_refl _
            · rw [hu]
              exact Nat.le_succ _
          have hk : 0 < k.length := by cases hk <;> decide
          rw [hskipped, List.length_append]
          omega
      · -- A line that begins with a line feed has nothing in front of it.
        intro u hu
        have hsolid : Solid (w ++ (k ++ (g ++ r))) := hu ▸ solid_cons (by decide) u
        rw [skipped_of_solid hsolid] at hskipped
        rw [hskipped] at hu
        cases hk with
        | lf =>
            cases hu
            exact ih.1
        | crlf => cases hu
        | cr => cases hu

/-- The end of a line and the blank lines behind it. -/
theorem newlines_read {k g r : List Char} (hk : LineBreak k) (hg : Gap g) (hr : Settled r) :
    ∃ r', (oneOrMore newline).Reads {} (k ++ (g ++ r)) r' [] ∧ skipped r' = skipped r := by
  obtain ⟨u, hreads, hu⟩ := newline_reads hk (g ++ r)
  have hrest : Repeats {} newline u r [] := by
    rcases hu with rfl | hu
    · exact (gap_repeats hg hr).1
    · exact (gap_repeats hg hr).2 u hu
  obtain ⟨r', hmany, hsame⟩ := many_reads_next hrest
  exact ⟨r', seq_reads_silent hreads hmany, hsame⟩

/-! ### Operands -/

/-- An operand begins neither like what is skipped nor like the end of a label. -/
theorem PrintsArgument.head {a : Argument} {w : List Char} (h : PrintsArgument a w) :
    ∃ x xs, w = x :: xs ∧ isBlank x = false ∧ x ≠ ';' ∧ x ≠ ':' := by
  have hname : ∀ x, isNameChar x = true → isBlank x = false ∧ x ≠ ';' ∧ x ≠ ':' := by
    intro x hx
    refine ⟨isBlank_of_isNameChar hx, ?_, ?_⟩ <;> · rintro rfl; cases hx
  cases h with
  | int z =>
      obtain ⟨ds, hne, hdigits, heq | heq⟩ := ofInt_cases z
      · obtain ⟨x, xs, rfl⟩ := List.exists_cons_of_ne_nil hne
        exact ⟨x, xs, heq, hname x (isNameChar_of_isDigit (hdigits x List.mem_cons_self))⟩
      · exact ⟨'-', ds, heq, by decide⟩
  | bytes d => exact ⟨'0', _, rfl, by decide⟩
  | str hw => exact ⟨'"', _, rfl, by decide⟩
  | name n => exact ⟨n.first, n.others, rfl, hname _ (isNameChar_of_isNameStart n.isStart)⟩

/-- An integer is not the beginning of a byte literal. -/
theorem ofInt_not_bytes (z : Int) {rest : List Char} (hrest : Parted rest) :
    ¬"0x".toList <+: Decimal.ofInt z ++ rest := by
  obtain ⟨ds, hne, hdigits, heq | heq⟩ := ofInt_cases z
  · rw [heq]
    obtain ⟨x, xs, rfl⟩ := List.exists_cons_of_ne_nil hne
    rintro ⟨u, hu⟩
    replace hu : '0' :: 'x' :: u = x :: (xs ++ rest) := hu
    cases xs with
    | nil =>
        obtain rfl : 'x' :: u = rest := (List.cons.inj hu).2
        cases hrest 'x' rfl
    | cons y ys =>
        have hy := hdigits y (List.mem_cons_of_mem _ List.mem_cons_self)
        rw [← (List.cons.inj (List.cons.inj hu).2).1] at hy
        cases hy
  · rw [heq]
    intro hprefix
    exact absurd (List.cons_prefix_cons.1 hprefix).1 (by decide)

theorem operand_reads {a : Argument} {w rest : List Char} (ha : PrintsArgument a w)
    (hrest : Parted rest) :
    ∃ x, operand.Reads {} (w ++ rest) rest [x] ∧ x.TellsOperand a := by
  cases ha with
  | int z =>
      refine ⟨_, alt_reads_second (bytes_fails (ofInt_not_bytes z hrest))
        (alt_reads (int_reads z hrest)), fun n hn => ?_⟩
      obtain ⟨hrule, htext⟩ := Node.of_leaf hn
      rw [Operand.ofNode, hrule]
      dsimp only
      rw [htext]
      exact .int z
  | bytes d =>
      refine ⟨_, alt_reads (bytes_reads d hrest), fun n hn => ?_⟩
      obtain ⟨hrule, htext⟩ := Node.of_leaf hn
      rw [Operand.ofNode, hrule]
      dsimp only
      rw [htext]
      exact .bytes d
  | @str s w hw =>
      refine ⟨_, alt_reads_second (bytes_fails fun hprefix => ?_) (alt_reads_second
        (int_fails fun c hc => ?_) (alt_reads (string_reads hw rest))), fun n hn => ?_⟩
      · exact absurd (List.cons_prefix_cons.1 hprefix).1 (by decide)
      · cases hc
        decide
      · obtain ⟨hrule, hchildren⟩ := Node.of_branch hn
        obtain ⟨c, hc, hinner⟩ := List.map_eq_singleton_iff.1 hchildren
        rw [Operand.ofNode, hrule, hc]
        show (Operand.string c.text).Tells _
        rw [(Node.of_leaf hinner).2]
        exact .str hw
  | name n =>
      have hstart : ∀ c ∈ (n.chars ++ rest).head?, isNameStart c = true := by
        intro c hc
        cases hc
        exact n.isStart
      refine ⟨_, alt_reads_second (bytes_fails fun hprefix => ?_) (alt_reads_second
        (int_fails fun c hc => ?_) (alt_reads_second (string_fails fun c hc => ?_)
          (name_reads n hrest))), fun x hx => ?_⟩
      · obtain ⟨u, hu⟩ := hprefix
        have hzero := hstart '0' (by rw [← hu]; rfl)
        cases hzero
      · exact isDigit_of_isNameStart (hstart c hc)
      · rintro rfl
        cases hstart _ hc
      · obtain ⟨hrule, htext⟩ := Node.of_leaf hx
        rw [Operand.ofNode, hrule]
        dsimp only
        rw [htext]
        exact .name n

/-! ### Lines -/

/-- A word is no label unless a colon follows. -/
theorem label_fails {x : Char} {xs rest : List Char} (hx : isNameStart x = true)
    (hxs : ∀ c ∈ xs, isNameChar c = true) (hrest : Parted rest)
    (hcolon : ∀ c ∈ (skipped rest).head?, c ≠ ':') : label.Fails {} (x :: xs ++ rest) := by
  refine rule_fails (seq_fails_second (ident_reads hx hxs hrest) (text_fails ?_))
  rintro ⟨u, hu⟩
  replace hu : ':' :: u = skipped rest := hu
  exact hcolon ':' (by rw [← hu]; rfl) rfl

theorem Mnemonic.label_fails (m : Mnemonic) {rest : List Char} (hrest : Parted rest)
    (hcolon : ∀ c ∈ (skipped rest).head?, c ≠ ':') : label.Fails {} (m.chars ++ rest) := by
  obtain ⟨x, xs, heq, hx, hxs, -⟩ := m.chars_eq
  rw [heq]
  refine Assembly.label_fails (isNameStart_of_isLower hx) (fun c hc => ?_) hrest hcolon
  have hc := hxs c hc
  simp only [Bool.or_eq_true] at hc
  rcases hc with hc | hc <;> simp [isNameChar, isLetter, hc]

theorem Mnemonic.head (m : Mnemonic) : ∃ x xs, m.chars = x :: xs ∧ isNameChar x = true := by
  obtain ⟨x, xs, heq, hx, -, -⟩ := m.chars_eq
  exact ⟨x, xs, heq, isNameChar_of_isNameStart (isNameStart_of_isLower hx)⟩

theorem Mnemonic.solid (m : Mnemonic) (rest : List Char) : Solid (m.chars ++ rest) := by
  obtain ⟨x, xs, heq, hx⟩ := m.head
  rw [heq]
  exact solid_of_isNameChar hx (xs ++ rest)

/-- A mnemonic and what follows it as an operand, if anything. -/
theorem instr_reads (m : Mnemonic) {rest rest' : List Char} {ts : List Tree} (hrest : Parted rest)
    (hoperand : (opt operand).Reads {} (skipped rest) rest' ts) :
    instr.Reads {} (m.chars ++ rest) rest' [.branch .instr (.leaf .mnemonic m.chars :: ts)] := by
  obtain ⟨-, -, -, -, -, hend⟩ := m.chars_eq
  have habsent : (absent kwEnd).Reads {} (m.chars ++ rest) (m.chars ++ rest) [] :=
    absent_reads (rule_fails (seq_fails (text_fails (hend rest))))
  refine rule_reads_branch rfl rfl (List.cons_ne_nil _ _) (seq_reads_silent habsent ?_)
  show (seq mnemonic (opt operand)).Reads {} (skipped _) _ _
  rw [skipped_of_solid (m.solid rest)]
  exact seq_reads (mnemonic_reads m hrest) hoperand

theorem label_line_reads (n : Name) {b : List Char} (hb : Blanks b) (rest : List Char) :
    ∃ x, line.Reads {} (n.chars ++ (b ++ [':']) ++ rest) rest [x] ∧ x.TellsLine (.label n) := by
  have hcolon : skipped (b ++ ':' :: rest) = ':' :: rest :=
    skipped_blanks_solid hb (solid_cons (by decide) rest)
  have hname : Parted (b ++ ':' :: rest) := (Trailing.blanks hb).parted fun c hc => by
    cases hc
    decide
  have htext : n.chars ++ (b ++ [':']) ++ rest = n.chars ++ (b ++ ':' :: rest) := by
    simp only [List.append_assoc, List.singleton_append]
  rw [htext]
  refine ⟨_, alt_reads (rule_reads_branch rfl rfl (List.cons_ne_nil _ _)
    (seq_reads_alone (name_reads n hname) ?_)), fun source x hx => ?_⟩
  · show (Expr.text [':']).Reads {} (skipped _) _ _
    rw [hcolon]
    exact text_reads [':'] rest
  · obtain ⟨hrule, hchildren⟩ := Node.of_branch hx
    obtain ⟨c, hc, hident⟩ := List.map_eq_singleton_iff.1 hchildren
    refine ⟨.label n.chars (Span.between source x.start x.stop), ?_, .label n _⟩
    rw [Line.ofNode?, hrule, Line.headText, hc]
    show some (Line.label c.text _) = _
    rw [(Node.of_leaf hident).2]

theorem bare_line_reads (m : Mnemonic) {t rest : List Char} (ht : Trailing t)
    (hrest : AtBreak rest) :
    ∃ x, line.Reads {} (m.chars ++ (t ++ rest)) rest [x] ∧ x.TellsLine (.instr m none) := by
  have hskipped : skipped (t ++ rest) = rest := skipped_trailing ht hrest
  have hparted : Parted (t ++ rest) := ht.parted hrest.parted
  have hcolon : ∀ c ∈ (skipped (t ++ rest)).head?, c ≠ ':' := by
    rw [hskipped]
    intro c hc
    rcases isLineBreak_cases (hrest c hc) with rfl | rfl <;> decide
  have hnone : (opt operand).Reads {} (skipped (t ++ rest)) rest [] := by
    rw [hskipped]
    exact opt_reads_none (operand_fails hrest)
  refine ⟨_, alt_reads_second (m.label_fails hparted hcolon) (instr_reads m hparted hnone),
    fun source x hx => ?_⟩
  obtain ⟨hrule, hchildren⟩ := Node.of_branch hx
  obtain ⟨c, hc, hleaf⟩ := List.map_eq_singleton_iff.1 hchildren
  refine ⟨.instr m.chars none (Span.between source x.start x.stop), ?_, .bare m _⟩
  rw [Line.ofNode?, hrule, Line.headText, hc]
  show some (Line.instr c.text none _) = _
  rw [(Node.of_leaf hleaf).2]

theorem operand_line_reads (m : Mnemonic) {b w rest : List Char} {a : Argument} (hb : Blanks b)
    (hne : b ≠ []) (ha : PrintsArgument a w) (hrest : Parted rest) :
    ∃ x, line.Reads {} (m.chars ++ (b ++ w) ++ rest) rest [x] ∧ x.TellsLine (.instr m (some a)) := by
  obtain ⟨y, ys, rfl, hblank, hcomment, hlabel⟩ := ha.head
  have hword : skipped (b ++ (y :: ys ++ rest)) = y :: ys ++ rest :=
    skipped_blanks_solid hb (solid_cons ⟨hblank, hcomment⟩ (ys ++ rest))
  have hmnemonic : Parted (b ++ (y :: ys ++ rest)) := by
    obtain ⟨x, xs, rfl⟩ := List.exists_cons_of_ne_nil hne
    intro c hc
    cases hc
    exact isNameChar_of_isBlank (hb x List.mem_cons_self)
  have hcolon : ∀ c ∈ (skipped (b ++ (y :: ys ++ rest))).head?, c ≠ ':' := by
    rw [hword]
    intro c hc
    cases hc
    exact hlabel
  obtain ⟨o, hreads, htells⟩ := operand_reads ha hrest
  have hsome : (opt operand).Reads {} (skipped (b ++ (y :: ys ++ rest))) rest [o] := by
    rw [hword]
    exact opt_reads hreads
  rw [List.append_assoc, List.append_assoc]
  refine ⟨_, alt_reads_second (m.label_fails hmnemonic hcolon) (instr_reads m hmnemonic hsome),
    fun source x hx => ?_⟩
  obtain ⟨hrule, hchildren⟩ := Node.of_branch hx
  obtain ⟨c, cs, hc, hleaf, hcs⟩ := List.map_eq_cons_iff.1 hchildren
  obtain ⟨d, rfl, hd⟩ := List.map_eq_singleton_iff.1 hcs
  refine ⟨.instr m.chars (some (.ofNode d)) (Span.between source x.start x.stop), ?_,
    .operand m _ (htells d hd)⟩
  rw [Line.ofNode?, hrule, Line.headText, hc]
  show some (Line.instr c.text (some (.ofNode d)) _) = _
  rw [(Node.of_leaf hleaf).2]

/-- A line is read up to its end, blanks and a comment there apart. -/
theorem item_reads {i : Item} {w t rest : List Char} (hi : PrintsItem i w) (ht : Trailing t)
    (hrest : AtBreak rest) :
    ∃ rest' x, line.Reads {} (w ++ (t ++ rest)) rest' [x] ∧ skipped rest' = rest ∧
      x.TellsLine i := by
  have hskipped : skipped (t ++ rest) = rest := skipped_trailing ht hrest
  cases hi with
  | label n hb =>
      obtain ⟨x, hreads, hx⟩ := label_line_reads n hb (t ++ rest)
      exact ⟨t ++ rest, x, hreads, hskipped, hx⟩
  | bare m =>
      obtain ⟨x, hreads, hx⟩ := bare_line_reads m ht hrest
      exact ⟨rest, x, hreads, skipped_of_solid hrest.solid, hx⟩
  | operand m hb hne ha =>
      obtain ⟨x, hreads, hx⟩ := operand_line_reads m hb hne ha (ht.parted hrest.parted)
      exact ⟨t ++ rest, x, hreads, hskipped, hx⟩

/-- A line begins with a word. -/
theorem PrintsItem.head {i : Item} {w : List Char} (h : PrintsItem i w) :
    ∃ x xs, w = x :: xs ∧ isNameChar x = true := by
  cases h with
  | label n hb => exact ⟨_, _, rfl, isNameChar_of_isNameStart n.isStart⟩
  | bare m => exact m.head
  | operand m hb hne ha =>
      obtain ⟨x, xs, heq, hx⟩ := m.head
      exact ⟨x, _, by rw [heq, List.cons_append], hx⟩

/-! ### Procedures -/

/-- What follows a procedure: no colon, blanks and a comment apart. -/
def Uncolonned (rest : List Char) : Prop := ∀ c ∈ (skipped rest).head?, c ≠ ':'

/-- No line is read where the procedure ends. -/
theorem line_fails_end {rest : List Char} (hparted : Parted rest) (hrest : Uncolonned rest) :
    (seq line (oneOrMore newline)).Fails {} ("end".toList ++ rest) := by
  have hlabel : label.Fails {} ('e' :: ['n', 'd'] ++ rest) :=
    label_fails (by decide) (List.all_eq_true.1 (by decide)) hparted hrest
  have habsent : (absent kwEnd).Fails {} ("end".toList ++ rest) :=
    absent_fails (rule_reads_negated rfl (kwEnd_body_reads rfl hparted))
  exact seq_fails (alt_fails hlabel (rule_fails (seq_fails habsent)))

/-- The rest of a body goes on with a word. -/
theorem PrintsBody.skipped_head {is : List Item} {v : List Char} (hv : PrintsBody is v)
    (rest : List Char) : ∃ x xs, skipped (v ++ rest) = x :: xs ∧ isNameChar x = true := by
  cases hv with
  | last hb =>
      refine ⟨'e', 'n' :: 'd' :: rest, ?_, by decide⟩
      rw [List.append_assoc]
      exact skipped_blanks_solid hb (solid_of_isNameChar (by decide) _)
  | @line b w t k g v _ _ hb hi ht hk hg hv =>
      obtain ⟨x, xs, rfl, hx⟩ := hi.head
      refine ⟨x, xs ++ (t ++ (k ++ (g ++ v))) ++ rest, ?_, hx⟩
      rw [List.append_assoc]
      exact skipped_blanks_solid hb (solid_of_isNameChar hx _)

theorem PrintsBody.settled {is : List Item} {v : List Char} (hv : PrintsBody is v)
    (rest : List Char) : Settled (v ++ rest) := by
  obtain ⟨x, xs, heq, hx⟩ := hv.skipped_head rest
  intro c hc
  rw [heq] at hc
  cases hc
  exact isLineBreak_of_isNameChar hx

/-- The lines of a procedure are read one after the other, up to the word `end`. -/
theorem body_repeats {is : List Item} {v rest : List Char} (hv : PrintsBody is v)
    (hparted : Parted rest) (hrest : Uncolonned rest) {text : List Char}
    (htext : skipped text = skipped (v ++ rest)) :
    ∃ text' xs, Repeats {} (seq line (oneOrMore newline)) text text' xs ∧
      skipped text' = "end".toList ++ rest ∧ List.Forall₂ Tree.TellsLine xs is := by
  induction hv generalizing text with
  | @last b hb =>
      have hend : skipped text = "end".toList ++ rest := by
        rw [htext, List.append_assoc]
        exact skipped_blanks_solid hb (solid_of_isNameChar (by decide) _)
      refine ⟨text, [], .stop ?_, hend, .nil⟩
      show Fails {} _ (skipped text)
      rw [hend]
      exact line_fails_end hparted hrest
  | @line b w t k g v i is hb hi ht hk hg hv ih =>
      have hassoc : b ++ (w ++ (t ++ (k ++ (g ++ v)))) ++ rest =
          b ++ (w ++ (t ++ (k ++ (g ++ (v ++ rest))))) := by
        simp only [List.append_assoc]
      have hword : skipped text = w ++ (t ++ (k ++ (g ++ (v ++ rest)))) := by
        obtain ⟨x, xs, rfl, hx⟩ := hi.head
        rw [htext, hassoc]
        exact skipped_blanks_solid hb (solid_of_isNameChar hx _)
      obtain ⟨u, x, hitem, hu, hx⟩ := item_reads hi ht (hk.atBreak (g ++ (v ++ rest)))
      obtain ⟨mid, hbreaks, hmid⟩ := newlines_read hk hg (hv.settled rest)
      obtain ⟨text', xs, hrepeats, hend, htells⟩ := ih hmid
      refine ⟨text', x :: xs, .cons ?_ ?_ hrepeats, hend, .cons hx htells⟩
      · show Reads {} _ (skipped text) _ _
        rw [hword]
        refine seq_reads_alone hitem ?_
        show Reads {} _ (skipped u) _ _
        rw [hu]
        exact hbreaks
      · show mid.length < (skipped text).length
        have hlength := hbreaks.1.length_le
        obtain ⟨y, ys, rfl, -⟩ := hi.head
        rw [hword]
        simp only [List.length_append, List.length_cons] at hlength ⊢
        omega

/-- What is read off matches tells what the matches tell. -/
theorem tells_filterMap {α β : Type} {read : Node → Option α} {Tells : α → β → Prop}
    {Matches : Tree → β → Prop}
    (hread : ∀ n i, Matches n.tree i → ∃ l, read n = some l ∧ Tells l i) {ns : List Node}
    {is : List β} (h : List.Forall₂ Matches (ns.map Node.tree) is) :
    List.Forall₂ Tells (ns.filterMap read) is := by
  induction ns generalizing is with
  | nil =>
      cases h
      exact .nil
  | cons n ns ih =>
      cases h with
      | cons hn hns =>
          obtain ⟨l, hl, htells⟩ := hread n _ hn
          rw [List.filterMap_cons_some hl]
          exact .cons htells (ih hns)

theorem procedure_tells {p : Procedure} {xs : List Tree}
    (h : List.Forall₂ Tree.TellsLine xs p.lines) :
    (Tree.branch .proc (.leaf .ident p.name.chars ::
      (xs ++ [.leaf .kwEnd "end".toList]))).TellsProcedure p := by
  intro source n hn
  obtain ⟨hrule, hchildren⟩ := Node.of_branch hn
  obtain ⟨c, cs, hc, hident, hcs⟩ := List.map_eq_cons_iff.1 hchildren
  obtain ⟨ns, es, rfl, rfl, hes⟩ := List.map_eq_append_iff.1 hcs
  obtain ⟨e, rfl, hend⟩ := List.map_eq_singleton_iff.1 hes
  obtain ⟨hidentRule, htext⟩ := Node.of_leaf hident
  have hskip : ∀ n : Node, n.rule ≠ .label → n.rule ≠ .instr → Line.ofNode? source n = none := by
    intro n hlabel hinstr
    unfold Line.ofNode?
    dsimp only
    split
    · next h => exact absurd h hlabel
    · next h => exact absurd h hinstr
    · rfl
  rw [Listing.ofNode?, hrule]
  refine ⟨_, rfl, ?_, ?_⟩
  · rw [Line.headText, hc]
    exact htext
  · rw [hc, List.filterMap_cons_none (hskip c (by rw [hidentRule]; decide) (by rw [hidentRule]; decide)),
      List.filterMap_append, List.filterMap_cons_none (hskip e ?_ ?_), List.filterMap_nil,
      List.append_nil]
    · exact tells_filterMap (fun n i hn => hn source n rfl) h
    all_goals
      rw [(Node.of_leaf hend).1]
      decide

theorem procedure_reads {p : Procedure} {w rest : List Char} (hw : PrintsProcedure p w)
    (hparted : Parted rest) (hrest : Uncolonned rest) :
    ∃ x, proc.Reads {} (w ++ rest) rest [x] ∧ x.TellsProcedure p := by
  cases hw with
  | @mk b t k g v _ hb hne ht hk hg hv =>
      have hassoc : "proc".toList ++ (b ++ (p.name.chars ++ (t ++ (k ++ (g ++ v))))) ++ rest =
          "proc".toList ++ (b ++ (p.name.chars ++ (t ++ (k ++ (g ++ (v ++ rest)))))) := by
        simp only [List.append_assoc]
      have hname : skipped (b ++ (p.name.chars ++ (t ++ (k ++ (g ++ (v ++ rest)))))) =
          p.name.chars ++ (t ++ (k ++ (g ++ (v ++ rest)))) :=
        skipped_blanks_solid hb (solid_of_isNameChar (isNameChar_of_isNameStart p.name.isStart) _)
      have hbreak := hk.atBreak (g ++ (v ++ rest))
      obtain ⟨u, hbreaks, hu⟩ := newlines_read hk hg (hv.settled rest)
      obtain ⟨text', xs, hrepeats, hend, htells⟩ := body_repeats hv hparted hrest hu
      obtain ⟨u', hlines, hu'⟩ := many_reads_next hrepeats
      replace hu' : skipped u' = skipped text' := hu'
      rw [hassoc]
      refine ⟨_, rule_reads_branch rfl rfl (List.cons_ne_nil _ _)
          (seq_reads_silent (text_reads "proc".toList _) ?_),
        procedure_tells htells⟩
      show Reads {} _ (skipped _) _ _
      rw [hname]
      refine seq_reads_cons (name_reads p.name (ht.parted hbreak.parted)) ?_
      show Reads {} _ (skipped _) _ _
      rw [skipped_trailing ht hbreak]
      refine seq_reads_silent hbreaks (seq_reads hlines ?_)
      show Reads {} _ (skipped u') _ _
      rw [hu', hend]
      exact kwEnd_reads hparted

/-! ### Sources -/

theorem PrintsProcedure.head {p : Procedure} {w : List Char} (hw : PrintsProcedure p w) :
    ∃ xs, w = 'p' :: xs := by
  cases hw
  exact ⟨_, rfl⟩

theorem PrintsProcedures.skipped_head {ps : List Procedure} {v : List Char}
    (hv : PrintsProcedures ps v) : ∀ c ∈ (skipped v).head?, c = 'p' := by
  intro c hc
  cases hv with
  | done ht =>
      have hnil : skipped (_ ++ []) = [] := skipped_trailing ht fun c hc => by cases hc
      rw [List.append_nil] at hnil
      rw [hnil] at hc
      cases hc
  | next hb hp hparted hg hv =>
      obtain ⟨xs, rfl⟩ := hp.head
      rw [List.cons_append, skipped_blanks_solid hb (solid_of_isNameChar (by decide) _)] at hc
      cases hc
      rfl

theorem PrintsProcedures.settled {ps : List Procedure} {v : List Char}
    (hv : PrintsProcedures ps v) : Settled v := by
  intro c hc
  rw [hv.skipped_head c hc]
  decide

theorem PrintsProcedures.uncolonned {ps : List Procedure} {v : List Char}
    (hv : PrintsProcedures ps v) {g : List Char} (hg : Gap g) : Uncolonned (g ++ v) := by
  intro c hc
  cases hg with
  | nil =>
      rw [hv.skipped_head c hc]
      decide
  | line hw hk hg =>
      rw [List.append_assoc, List.append_assoc, skipped_trailing hw (hk.atBreak _)] at hc
      rcases isLineBreak_cases (hk.atBreak _ c hc) with rfl | rfl <;> decide

/-- Procedures are read one after the other, up to the end of the text. -/
theorem procedures_repeat {ps : List Procedure} {v : List Char} (hv : PrintsProcedures ps v)
    {text : List Char} (htext : skipped text = skipped v) :
    ∃ text' xs, Repeats {} (seq proc (many newline)) text text' xs ∧ skipped text' = [] ∧
      List.Forall₂ Tree.TellsProcedure xs ps := by
  induction hv generalizing text with
  | done ht =>
      have hnil : skipped (_ ++ []) = [] := skipped_trailing ht fun c hc => by cases hc
      rw [List.append_nil, ← htext] at hnil
      refine ⟨text, [], .stop ?_, hnil, .nil⟩
      show Fails {} _ (skipped text)
      rw [hnil]
      refine seq_fails (rule_fails (seq_fails (text_fails fun hprefix => ?_)))
      exact absurd (List.prefix_nil.1 hprefix) (by decide)
  | @next b w g v p ps hb hp hparted hg hv ih =>
      have hword : skipped text = w ++ (g ++ v) := by
        obtain ⟨xs, rfl⟩ := hp.head
        rw [htext]
        exact skipped_blanks_solid hb (solid_of_isNameChar (by decide) _)
      obtain ⟨x, hproc, hx⟩ := procedure_reads hp hparted (hv.uncolonned hg)
      obtain ⟨mid, hbreaks, hmid⟩ := many_reads_next (gap_repeats hg hv.settled).1
      obtain ⟨text', xs, hrepeats, hend, htells⟩ := ih hmid
      refine ⟨text', x :: xs, .cons ?_ ?_ hrepeats, hend, .cons hx htells⟩
      · show Reads {} _ (skipped text) _ _
        rw [hword]
        exact seq_reads_alone hproc hbreaks
      · show mid.length < (skipped text).length
        have hlength := (hbreaks.1.trans (next_suffix {} _)).length_le
        obtain ⟨ys, rfl⟩ := hp.head
        rw [hword]
        simp only [List.length_append, List.length_cons] at hlength ⊢
        omega

theorem source_reads {ps : List Procedure} {text : List Char} (h : PrintsSource ps text) :
    ∃ xs, file.Reads {} text [] [.branch .file (xs ++ [.leaf .endOfInput []])] ∧
      List.Forall₂ Tree.TellsProcedure xs ps := by
  cases h with
  | @mk g v hg hv =>
      obtain ⟨u, hbreaks, hu⟩ := many_reads_next (gap_repeats hg hv.settled).1
      obtain ⟨text', xs, hrepeats, hend, htells⟩ := procedures_repeat hv hu
      obtain ⟨u', hprocs, hu'⟩ := many_reads_next hrepeats
      replace hu' : skipped u' = skipped text' := hu'
      have hlast : (rule .endOfInput .inherit endOfInput).Reads {} ([] ++ []) []
          [.leaf .endOfInput []] := rule_reads_leaf rfl rfl endOfInput_reads
      refine ⟨xs, rule_reads_branch rfl rfl (by simp) ?_, htells⟩
      refine seq_reads_silent (text_reads [] _) (seq_reads_silent hbreaks (seq_reads hprocs ?_))
      show Reads {} _ (skipped u') _ _
      rw [hu', hend]
      exact hlast

/-- The listing of a printed source says what the source was printed for. -/
theorem read_printed {ps : List Procedure} {text : List Char} (h : PrintsSource ps text) :
    ∃ ls, Listing.read text = .ok ls ∧ List.Forall₂ Listing.Tells ls ps := by
  obtain ⟨xs, hreads, htells⟩ := source_reads h
  obtain ⟨ns, t, hrun, hns⟩ := hreads.2 (bytesOf text) (Nat.le_refl _) {}
  obtain ⟨n, rfl, hn⟩ := List.map_eq_singleton_iff.1 hns
  obtain ⟨-, hchildren⟩ := Node.of_branch hn
  obtain ⟨ms, es, hsplit, rfl, hes⟩ := List.map_eq_append_iff.1 hchildren
  obtain ⟨e, rfl, hend⟩ := List.map_eq_singleton_iff.1 hes
  have hskip : Listing.ofNode? text e = none := by
    rw [Listing.ofNode?, (Node.of_leaf hend).1]
  have hstart : Cursor.left (bytesOf text) text = ⟨text, 0⟩ := by
    rw [Cursor.left, Nat.sub_self]
  rw [hstart] at hrun
  refine ⟨ms.filterMap (Listing.ofNode? text), ?_, ?_⟩
  · rw [Listing.read, hrun]
    dsimp only
    rw [List.flatMap_singleton, hsplit, List.filterMap_append, List.filterMap_cons_none hskip,
      List.filterMap_nil, List.append_nil]
  · exact tells_filterMap (fun n p hn => hn text n rfl) htells

end Reentrant.Assembly
