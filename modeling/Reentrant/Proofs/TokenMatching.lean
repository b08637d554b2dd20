import Reentrant.Assembly.Listing
import Reentrant.Proofs.Matching
import Reentrant.Proofs.PrintedSource

/-!
The words of a printed source are read as what they were printed for, and as nothing else: an
operand is read by the alternative of its own kind because the earlier ones fail on it, and what
stands between words is skipped.
-/

namespace Reentrant.Assembly

open Reentrant.Assembly.Grammar Reentrant.Assembly.Cursor Reentrant.Assembly.Expr

/-! ### Characters -/

theorem isBlank_cases {c : Char} (h : isBlank c = true) : c = ' ' ∨ c = '\t' := by
  simpa only [isBlank, Bool.or_eq_true, beq_iff_eq] using h

theorem isLineBreak_cases {c : Char} (h : isLineBreak c = true) : c = '\n' ∨ c = '\r' := by
  simpa only [isLineBreak, Bool.or_eq_true, beq_iff_eq] using h

theorem isNameChar_of_isBlank {c : Char} (h : isBlank c = true) : isNameChar c = false := by
  rcases isBlank_cases h with rfl | rfl <;> decide

theorem isNameChar_of_isLineBreak {c : Char} (h : isLineBreak c = true) : isNameChar c = false := by
  rcases isLineBreak_cases h with rfl | rfl <;> decide

theorem isBlank_of_isNameChar {c : Char} (h : isNameChar c = true) : isBlank c = false := by
  refine Bool.not_eq_true _ ▸ fun hblank => ?_
  rw [isNameChar_of_isBlank hblank] at h
  cases h

theorem isLineBreak_of_isNameChar {c : Char} (h : isNameChar c = true) : isLineBreak c = false := by
  refine Bool.not_eq_true _ ▸ fun hbreak => ?_
  rw [isNameChar_of_isLineBreak hbreak] at h
  cases h

theorem isNameChar_of_isNameStart {c : Char} (h : isNameStart c = true) : isNameChar c = true := by
  simp only [isNameStart, isNameChar, Bool.or_eq_true] at h ⊢
  rcases h with h | h <;> simp [h]

theorem isNameStart_of_isLower {c : Char} (h : isLower c = true) : isNameStart c = true := by
  simp [isNameStart, isLetter, h]

theorem isNameChar_of_isDigit {c : Char} (h : isDigit c = true) : isNameChar c = true := by
  simp [isNameChar, h]

/-- Both cases of the six letters are letters of names. -/
theorem isNameChar_of_isHex {c : Char} (h : Hex.isDigit c = true) : isNameChar c = true := by
  simp only [Hex.isDigit, Hex.value?] at h
  simp only [isNameChar, isLetter, isLower, isDigit, Bool.or_eq_true, Bool.and_eq_true,
    decide_eq_true_eq]
  split at h
  · next hdigit => exact .inl (.inl (.inr hdigit))
  · split at h
    · next hlower =>
        exact .inl (.inl (.inl (.inl ⟨hlower.1, Char.le_trans hlower.2 (by decide)⟩)))
    · split at h
      · next hupper =>
          exact .inl (.inl (.inl (.inr ⟨hupper.1, Char.le_trans hupper.2 (by decide)⟩)))
      · cases h

/-- A name does not begin like a number. -/
theorem isDigit_of_isNameStart {c : Char} (h : isNameStart c = true) :
    isDigit c = false ∧ c ≠ '-' := by
  constructor
  · refine Bool.not_eq_true _ ▸ fun hdigit => ?_
    simp only [isNameStart, isLetter, isLower, isDigit, Bool.or_eq_true, Bool.and_eq_true,
      decide_eq_true_eq, beq_iff_eq] at h hdigit
    rcases h with (h | h) | rfl
    · exact absurd (Char.le_trans h.1 hdigit.2) (by decide)
    · exact absurd (Char.le_trans h.1 hdigit.2) (by decide)
    · exact absurd hdigit.2 (by decide)
  · rintro rfl
    cases h

/-! ### Between words -/

/-- Nothing is skipped in front of what begins with neither a blank nor a comment. -/
theorem solid_cons {x : Char} (hx : isBlank x = false ∧ x ≠ ';') (xs : List Char) :
    Solid (x :: xs) := by
  intro c hc
  cases hc
  exact hx

theorem solid_of_isNameChar {x : Char} (hx : isNameChar x = true) (xs : List Char) :
    Solid (x :: xs) := by
  refine solid_cons ⟨isBlank_of_isNameChar hx, ?_⟩ xs
  rintro rfl
  cases hx

/-- Begins with a line break, or is empty. -/
def AtBreak (rest : List Char) : Prop := ∀ c ∈ rest.head?, isLineBreak c = true

theorem AtBreak.solid {rest : List Char} (h : AtBreak rest) : Solid rest := by
  intro c hc
  rcases isLineBreak_cases (h c hc) with rfl | rfl <;> decide

theorem AtBreak.parted {rest : List Char} (h : AtBreak rest) : Parted rest := fun c hc =>
  isNameChar_of_isLineBreak (h c hc)

theorem LineBreak.atBreak {k : List Char} (hk : LineBreak k) (rest : List Char) :
    AtBreak (k ++ rest) := by
  intro c hc
  cases hk <;> cases hc <;> rfl

theorem skipped_blanks {b : List Char} (hb : Blanks b) (rest : List Char) :
    skipped (b ++ rest) = skipped rest := by
  unfold skipped
  rw [List.dropWhile_append_of_pos hb]

theorem skipped_blanks_solid {b rest : List Char} (hb : Blanks b) (hrest : Solid rest) :
    skipped (b ++ rest) = rest := by
  rw [skipped_blanks hb, skipped_of_solid hrest]

/-- What stands behind the last word of a line is skipped, but not the line break. -/
theorem skipped_trailing {t rest : List Char} (ht : Trailing t) (hrest : AtBreak rest) :
    skipped (t ++ rest) = rest := by
  cases ht with
  | blanks hb => exact skipped_blanks_solid hb hrest.solid
  | @comment b c hb hc =>
      rw [List.append_assoc, skipped_blanks hb, List.cons_append]
      have hstop : rest.dropWhile (fun x => !isLineBreak x) = rest := by
        cases rest with
        | nil => rfl
        | cons x xs =>
            rw [List.dropWhile_cons, hrest x rfl]
            rfl
      show (c ++ rest).dropWhile (fun x => !isLineBreak x) = rest
      rw [List.dropWhile_append_of_pos (List.all_eq_true.1 hc), hstop]

/-- A word is over where its line is, or where a blank or a comment follows. -/
theorem Trailing.parted {t rest : List Char} (ht : Trailing t) (hrest : Parted rest) :
    Parted (t ++ rest) := by
  intro c hc
  -- The first character is a blank, or with no blank the first one of what follows.
  have hblanks : ∀ b : List Char, Blanks b → ∀ r, Parted r → c ∈ (b ++ r).head? →
      isNameChar c = false := by
    intro b hb r hr hc
    cases b with
    | nil => exact hr c hc
    | cons x xs =>
        cases hc
        exact isNameChar_of_isBlank (hb c List.mem_cons_self)
  cases ht with
  | blanks hb => exact hblanks _ hb rest hrest hc
  | comment hb hcomment =>
      rw [List.append_assoc] at hc
      refine hblanks _ hb _ (fun c hc => ?_) hc
      cases hc
      decide

/-! ### Runs of characters -/

/-- A repetition of characters of a kind takes all of them that there are. -/
theorem chars_read {m : Mood} (hskips : m.skips = false) {p : Char → Bool} {w rest : List Char}
    (hw : ∀ c ∈ w, p c = true) (hrest : ∀ c ∈ rest.head?, p c = false) :
    (many (char p)).Reads m (w ++ rest) rest [] := by
  refine many_reads_tight hskips ?_
  induction w with
  | nil =>
      refine .stop ?_
      rw [next_of_tight hskips]
      exact char_fails hrest
  | cons x xs ih =>
      obtain ⟨hx, hxs⟩ := List.forall_mem_cons.1 hw
      refine .silent ?_ ?_ (ih hxs)
      · rw [next_of_tight hskips]
        exact char_reads hx _
      · rw [next_of_tight hskips]
        exact Nat.lt_succ_self _

/-! ### Names and mnemonics -/

/-- A name is read to its end, since what follows cannot belong to it. -/
theorem ident_reads {x : Char} {xs rest : List Char} (hx : isNameStart x = true)
    (hxs : ∀ c ∈ xs, isNameChar c = true) (hrest : Parted rest) :
    ident.Reads {} (x :: xs ++ rest) rest [.leaf .ident (x :: xs)] :=
  rule_reads_leaf rfl rfl (seq_reads (char_reads hx _) (chars_read rfl hxs hrest))

theorem name_reads (n : Name) {rest : List Char} (hrest : Parted rest) :
    ident.Reads {} (n.chars ++ rest) rest [.leaf .ident n.chars] :=
  ident_reads n.isStart (List.all_eq_true.1 n.isName) hrest

theorem ident_fails {text : List Char} (h : ∀ c ∈ text.head?, isNameStart c = false) :
    ident.Fails {} text :=
  rule_fails (seq_fails (char_fails h))

/-- In lower case, and not beginning like `end`. -/
def isLowerWord : List Char → Bool
  | x :: y :: ys =>
      isLower x && (y :: ys).all (fun c => isLower c || c == '_') && !(x == 'e' && y == 'n')
  | _ => false

theorem Mnemonic.isLowerWord_chars (m : Mnemonic) : isLowerWord m.chars = true := by
  rcases m with i | _ | j | _
  · cases i <;> decide
  · decide
  · cases j <;> decide
  · decide

/-- What reading a mnemonic needs to know: its letters, and that it is not taken for the word at the
end of a procedure. -/
theorem Mnemonic.chars_eq (m : Mnemonic) : ∃ x xs, m.chars = x :: xs ∧ isLower x = true ∧
    (∀ c ∈ xs, (isLower c || c == '_') = true) ∧ ∀ rest, ¬"end".toList <+: m.chars ++ rest := by
  have h := m.isLowerWord_chars
  -- Only the shape of the word matters from here on, not which of the mnemonics it is.
  generalize m.chars = w at h
  rcases w with _ | ⟨x, _ | ⟨y, ys⟩⟩
  · cases h
  · cases h
  · simp only [isLowerWord, Bool.and_eq_true, Bool.not_eq_true', Bool.and_eq_false_iff,
      beq_eq_false_iff_ne, List.all_eq_true] at h
    obtain ⟨⟨hx, hys⟩, hend⟩ := h
    refine ⟨x, y :: ys, rfl, hx, hys, ?_⟩
    rintro rest ⟨u, hu⟩
    replace hu : 'e' :: 'n' :: 'd' :: u = x :: y :: (ys ++ rest) := hu
    obtain ⟨hfirst, hothers⟩ := List.cons.inj hu
    exact hend.elim (fun h => h hfirst.symm) (fun h => h (List.cons.inj hothers).1.symm)

theorem mnemonic_reads (m : Mnemonic) {rest : List Char} (hrest : Parted rest) :
    mnemonic.Reads {} (m.chars ++ rest) rest [.leaf .mnemonic m.chars] := by
  obtain ⟨x, xs, heq, hx, hxs, -⟩ := m.chars_eq
  rw [heq]
  refine rule_reads_leaf rfl rfl (seq_reads (char_reads hx _) (chars_read rfl hxs ?_))
  intro c hc
  have hparted := hrest c hc
  simp only [isNameChar, isLetter, Bool.or_eq_false_iff] at hparted ⊢
  exact ⟨hparted.1.1.1.1, hparted.1.2⟩

/-! ### The word at the end -/

/-- The word at the end, in a rule or standing alone; the look behind it takes nothing. -/
theorem kwEnd_body_reads {m : Mood} (hskips : m.skips = false) {rest : List Char}
    (hrest : Parted rest) :
    (seq (text "end".toList) (absent (char fun c => isLetter c || isDigit c || c == '_'))).Reads m
      ("end".toList ++ rest) rest [] := by
  refine seq_reads_silent (text_reads _ rest) ?_
  rw [Mood.next, hskips]
  refine absent_reads (char_fails fun c hc => ?_)
  have hparted := hrest c hc
  simp only [isNameChar, Bool.or_eq_false_iff] at hparted ⊢
  exact hparted.1

theorem kwEnd_reads {rest : List Char} (hrest : Parted rest) :
    kwEnd.Reads {} ("end".toList ++ rest) rest [.leaf .kwEnd "end".toList] :=
  rule_reads_leaf rfl rfl (kwEnd_body_reads rfl hrest)

/-! ### Operands -/

section Operands

variable {text rest : List Char}

/-- Every hexadecimal digit is taken: the next character belongs to no name, so to no number. -/
theorem bytes_reads (d : HexDigits) (hrest : Parted rest) :
    bytes.Reads {} ('0' :: 'x' :: d.digits ++ rest) rest [.leaf .bytes ('0' :: 'x' :: d.digits)] := by
  refine rule_reads_leaf rfl rfl (seq_reads (text_reads "0x".toList (d.digits ++ rest)) ?_)
  refine chars_read rfl (List.all_eq_true.1 d.isHex) fun c hc => ?_
  refine Bool.not_eq_true _ ▸ fun hhex => ?_
  have hparted := hrest c hc
  rw [isNameChar_of_isHex hhex] at hparted
  cases hparted

theorem bytes_fails (h : ¬"0x".toList <+: text) : bytes.Fails {} text :=
  rule_fails (seq_fails (text_fails h))

theorem digits_read {m : Mood} (hskips : m.skips = false) {w : List Char} (hne : w ≠ [])
    (hw : ∀ c ∈ w, isDigit c = true) (hrest : Parted rest) :
    (oneOrMore (char isDigit)).Reads m (w ++ rest) rest [] := by
  cases w with
  | nil => exact absurd rfl hne
  | cons x xs =>
      obtain ⟨hx, hxs⟩ := List.forall_mem_cons.1 hw
      refine seq_reads_silent (char_reads hx (xs ++ rest)) ?_
      rw [Mood.next, hskips]
      refine chars_read hskips hxs fun c hc => ?_
      refine Bool.not_eq_true _ ▸ fun hdigit => ?_
      have hparted := hrest c hc
      rw [isNameChar_of_isDigit hdigit] at hparted
      cases hparted

theorem ofNat_digits (n : Nat) : Decimal.ofNat n ≠ [] ∧ ∀ c ∈ Decimal.ofNat n, isDigit c = true := by
  have hdigit : ∀ k < 10, isDigit (Decimal.digit k) = true := by decide
  induction n using Nat.strongRecOn with
  | ind n ih =>
      rw [Decimal.ofNat]
      split
      · next hlt => exact ⟨by simp, by simpa using hdigit n hlt⟩
      · next hlt =>
          refine ⟨by simp, fun c hc => ?_⟩
          rcases List.mem_append.1 hc with hc | hc
          · exact (ih (n / 10) (by omega)).2 c hc
          · rw [List.mem_singleton.1 hc]
            exact hdigit _ (Nat.mod_lt n (by decide))

/-- An integer is printed as a row of digits, perhaps behind a minus sign. -/
theorem ofInt_cases (z : Int) : ∃ ds, ds ≠ [] ∧ (∀ c ∈ ds, isDigit c = true) ∧
    (Decimal.ofInt z = ds ∨ Decimal.ofInt z = '-' :: ds) := by
  cases z with
  | ofNat n => exact ⟨_, (ofNat_digits n).1, (ofNat_digits n).2, .inl rfl⟩
  | negSucc n => exact ⟨_, (ofNat_digits (n + 1)).1, (ofNat_digits (n + 1)).2, .inr rfl⟩

/-- The sign is tried first, and a row of digits does not begin with it. -/
theorem int_reads (z : Int) (hrest : Parted rest) :
    int.Reads {} (Decimal.ofInt z ++ rest) rest [.leaf .int (Decimal.ofInt z)] := by
  obtain ⟨ds, hne, hdigits, heq⟩ := ofInt_cases z
  refine rule_reads_leaf rfl rfl ?_
  have hdigits' := digits_read (m := Mood.enter {} .atomic) rfl hne hdigits hrest
  rcases heq with heq | heq
  · rw [heq]
    refine seq_reads_silent (opt_reads_none (text_fails fun hprefix => ?_)) hdigits'
    cases ds with
    | nil => exact hne rfl
    | cons x xs =>
        have hx := hdigits x List.mem_cons_self
        rw [← (List.cons_prefix_cons.1 hprefix).1] at hx
        cases hx
  · rw [heq]
    exact seq_reads_silent (opt_reads (text_reads ['-'] (ds ++ rest))) hdigits'

theorem int_fails (h : ∀ c ∈ text.head?, isDigit c = false ∧ c ≠ '-') : int.Fails {} text := by
  refine rule_fails (seq_fails_second (opt_reads_none (text_fails fun hprefix => ?_)) ?_)
  · obtain ⟨xs, rfl⟩ := hprefix
    exact (h '-' rfl).2 rfl
  · exact seq_fails (char_fails fun c hc => (h c hc).1)

/-- What is between the quotes is read up to the closing one. -/
theorem inner_reads {cs w : List Char} (hw : Quoted cs w) (rest : List Char) :
    inner.Reads { skips := false } (w ++ '"' :: rest) ('"' :: rest) [.leaf .inner w] := by
  refine rule_reads_leaf rfl rfl (many_reads_tight rfl ?_)
  -- An escape takes two characters, whichever character it stands for.
  have hescape : ∀ (c : Char) (w : List Char), Reads (Mood.enter { skips := false } .atomic)
      (alt (char fun c => c != '"' && c != '\\') (seq (text ['\\']) (char fun _ => true)))
      ('\\' :: c :: w ++ '"' :: rest) (w ++ '"' :: rest) [] := by
    intro c w
    refine alt_reads_second (char_fails fun x hx => ?_)
      (seq_reads_silent (text_reads ['\\'] (c :: w ++ '"' :: rest)) (char_reads rfl _))
    cases hx
    rfl
  have hlt : ∀ (c : Char) (w : List Char),
      (w ++ '"' :: rest).length < ('\\' :: c :: w ++ '"' :: rest).length := fun c w =>
    Nat.lt_succ_of_lt (Nat.lt_succ_self _)
  induction hw with
  | nil =>
      refine .stop (alt_fails (char_fails fun c hc => ?_) (seq_fails (text_fails fun hprefix => ?_)))
      · cases hc
        rfl
      · cases (List.cons_prefix_cons.1 hprefix).1
  | @raw c cs w hquote hslash hw ih =>
      refine .silent (alt_reads (char_reads ?_ _)) (Nat.lt_succ_self _) ih
      simp [hquote, hslash]
  | escaped hc hw ih => exact .silent (hescape _ _) (hlt _ _) ih
  | lineFeed hw ih => exact .silent (hescape _ _) (hlt _ _) ih
  | tab hw ih => exact .silent (hescape _ _) (hlt _ _) ih

/-- A quoted text is read up to its closing quote, whatever stands behind that. -/
theorem string_reads {cs w : List Char} (hw : Quoted cs w) (rest : List Char) :
    string.Reads {} ('"' :: (w ++ ['"']) ++ rest) rest [.branch .string [.leaf .inner w]] := by
  have htext : '"' :: (w ++ ['"']) ++ rest = ['"'] ++ (w ++ '"' :: rest) := by simp
  rw [htext]
  refine rule_reads_branch rfl rfl (List.cons_ne_nil _ _)
    (seq_reads_silent (text_reads ['"'] _) ?_)
  exact seq_reads_alone (inner_reads hw rest) (text_reads ['"'] rest)

theorem string_fails (h : ∀ c ∈ text.head?, c ≠ '"') : string.Fails {} text := by
  refine rule_fails (seq_fails (text_fails fun hprefix => ?_))
  obtain ⟨xs, rfl⟩ := hprefix
  exact h '"' rfl rfl

/-- No operand stands where the line ends. -/
theorem operand_fails (h : AtBreak text) : operand.Fails {} text := by
  have hchar : ∀ c ∈ text.head?, c = '\n' ∨ c = '\r' := fun c hc => isLineBreak_cases (h c hc)
  refine alt_fails (bytes_fails fun hprefix => ?_) (alt_fails (int_fails fun c hc => ?_)
    (alt_fails (string_fails fun c hc => ?_) (ident_fails fun c hc => ?_)))
  · obtain ⟨xs, rfl⟩ := hprefix
    exact absurd (hchar '0' rfl) (by decide)
  · rcases hchar c hc with rfl | rfl <;> decide
  · rcases hchar c hc with rfl | rfl <;> decide
  · rcases hchar c hc with rfl | rfl <;> decide

end Operands

end Reentrant.Assembly
