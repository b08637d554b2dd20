import Reentrant.Assembly.Listing
import Reentrant.Proofs.Derivations
import Reentrant.Proofs.LineColumns

/-!
Where what is listed stands in the source. A match of a file is one match of the rule for files, and
each procedure in it has a name; so reading never does without them. The spans of a listing are
stretches of the source: a procedure's begins with the word `proc`, a label's with its name and an
instruction's with its mnemonic.
-/

namespace Reentrant.Assembly

open Reentrant.Assembly.Grammar Reentrant.Assembly.Cursor Reentrant.Assembly.Expr

/-! ### Stretches of a source -/

/-- The match is a stretch of the source that begins with a word. -/
def Node.Begins (source word : List Char) (n : Node) : Prop :=
  ∃ front behind back, source = front ++ (word ++ behind) ++ back ∧
    n.start = bytesOf front ∧ n.stop = bytesOf (front ++ (word ++ behind))

/-- The span is that of a stretch of the source that begins with a word: the bytes in front of its two
ends, the line feeds there, and the characters since the last of them. -/
def Located (source word : List Char) (span : Span) : Prop :=
  ∃ front behind back, source = front ++ (word ++ behind) ++ back ∧
    span =
      { start := bytesOf front
        stop := bytesOf (front ++ (word ++ behind))
        startLine := front.count '\n'
        startCol := (SyntaxError.lastLine front).length
        stopLine := (front ++ (word ++ behind)).count '\n'
        stopCol := (SyntaxError.lastLine (front ++ (word ++ behind))).length }

variable {source word text rest : List Char}

theorem Node.Begins.located {n : Node} (h : n.Begins source word) :
    Located source word (Span.between source n.start n.stop) := by
  obtain ⟨front, behind, back, rfl, hstart, hstop⟩ := h
  refine ⟨front, behind, back, rfl, ?_⟩
  have hfront : lineCol (front ++ (word ++ behind) ++ back) (bytesOf front) =
      (front.count '\n', (SyntaxError.lastLine front).length) := by
    rw [List.append_assoc]
    exact lineCol_eq front _
  rw [Span.between, hstart, hstop, hfront, lineCol_eq]

theorem Node.begins_of_suffix {mid : List Char} (htext : word ++ mid <:+ source) (hrest : rest <:+ mid)
    (r : Rule) (inside : List Node) :
    (Node.node r (left (bytesOf source) (word ++ mid)) (left (bytesOf source) rest).offset
      inside).Begins source word := by
  obtain ⟨front, rfl⟩ := htext
  obtain ⟨behind, rfl⟩ := hrest
  refine ⟨front, behind, rest, by simp only [List.append_assoc], offset_left front _, ?_⟩
  have hsource : front ++ (word ++ (behind ++ rest)) = front ++ (word ++ behind) ++ rest := by
    simp only [List.append_assoc]
  rw [hsource]
  exact offset_left _ rest

/-! ### What the rules keep -/

section Kept

variable {total : Nat} {ns : List Node}

/-- A rule keeps one match. -/
theorem kept_of_rule {r : Rule} {grain : Grain} {body : Expr}
    (h : (rule r grain body).Takes total {} text rest ns) :
    ∃ inside, ns = [.node r (left total text) (left total rest).offset inside] ∧
      body.Takes total (Mood.enter {} grain) text rest inside := by
  obtain ⟨inside, hbody, hns⟩ := h
  exact ⟨inside, hns, hbody⟩

/-- A rule takes the text of the match that it keeps. -/
theorem text_of_rule {r : Rule} {grain : Grain} {body : Expr} (htext : bytesOf text ≤ total)
    (h : (rule r grain body).Takes total {} text rest ns) :
    ∃ n : Node, ns = [n] ∧ n.rule = r ∧ text = n.text ++ rest := by
  obtain ⟨inside, rfl, hbody⟩ := kept_of_rule h
  obtain ⟨w, rfl⟩ := hbody.suffix
  exact ⟨_, rfl, rfl, congrArg (· ++ rest) (textTo_left w htext).symm⟩

/-- A line break keeps no match. -/
theorem newline_keeps (h : newline.Takes total {} text rest ns) : ns = [] := by
  rcases h with ⟨-, h⟩ | ⟨-, h⟩ | ⟨-, h⟩ <;> exact h

theorem newlines_keep (h : (many newline).Takes total {} (skipped text) rest ns) : ns = [] := by
  have hwhole : skipped text <:+ skipped text := List.suffix_rfl
  refine List.eq_nil_iff_forall_not_mem.2
    (Takes.forall_many (p := fun _ => False) (fun _ _ _ _ hnewline n hn => ?_) h hwhole)
  rw [newline_keeps hnewline] at hn
  exact List.not_mem_nil hn

theorem lineEnd_keeps (h : (oneOrMore newline).Takes total {} text rest ns) : ns = [] := by
  obtain ⟨mid, ns₁, ns₂, hfirst, hothers, rfl⟩ := h
  rw [newline_keeps hfirst, newlines_keep hothers]
  rfl

end Kept

section Placed

variable {ns : List Node} (htext : text <:+ source)

include htext

theorem label_takes (h : label.Takes (bytesOf source) {} text rest ns) :
    ∃ n, ns = [n] ∧ n.Begins source (Line.headText n) := by
  obtain ⟨inside, rfl, mid, ns₁, ns₂, hident, hcolon, rfl⟩ := kept_of_rule h
  have hrest : rest <:+ mid := hcolon.suffix.trans (skipped_suffix mid)
  obtain ⟨x, rfl, -, rfl⟩ := text_of_rule (bytesOf_le htext (Nat.le_refl _)) hident
  exact ⟨_, rfl, Node.begins_of_suffix htext hrest .label _⟩

/-- An instruction that begins at no blank and no comment begins with its mnemonic. -/
theorem instr_takes (hsolid : Solid text) (h : instr.Takes (bytesOf source) {} text rest ns) :
    ∃ n, ns = [n] ∧ n.Begins source (Line.headText n) := by
  obtain ⟨inside, rfl, mid, _, ns₂, ⟨hmid, rfl⟩, hbody, rfl⟩ := kept_of_rule h
  have hnext : Mood.next {} text = text := skipped_of_solid hsolid
  rw [Mood.enter, hmid, hnext] at hbody
  obtain ⟨mid, ns₁, ns₃, hmnemonic, hoperand, rfl⟩ := hbody
  have hrest : rest <:+ mid := Takes.suffix (e := opt operand) hoperand |>.trans (skipped_suffix mid)
  obtain ⟨x, rfl, -, rfl⟩ := text_of_rule (bytesOf_le htext (Nat.le_refl _)) hmnemonic
  exact ⟨_, rfl, Node.begins_of_suffix htext hrest .instr _⟩

theorem line_takes (hsolid : Solid text) (h : line.Takes (bytesOf source) {} text rest ns) :
    ∃ n, ns = [n] ∧ n.Begins source (Line.headText n) := by
  rcases h with h | h
  · exact label_takes htext h
  · exact instr_takes htext hsolid h

end Placed

/-- A match of a procedure: it begins with the word `proc`, its first part is a name, and its lines
begin with their own names and mnemonics. -/
structure Node.IsProc (source : List Char) (n : Node) : Prop where
  rule : n.rule = .proc
  begins : n.Begins source "proc".toList
  named : ∃ name others, n.children = name :: others ∧ name.rule = .ident
  lines : ∀ x ∈ n.children, x.rule = .label ∨ x.rule = .instr → x.Begins source (Line.headText x)

theorem lines_take {ns : List Node} (htext : skipped text <:+ source)
    (h : (many (seq line (oneOrMore newline))).Takes (bytesOf source) {} (skipped text) rest ns) :
    ∀ n ∈ ns, n.Begins source (Line.headText n) := by
  refine Takes.forall_many (fun text mid ns htext hline => ?_) h htext
  obtain ⟨mid, ns₁, ns₂, hline, hend, rfl⟩ := hline
  obtain ⟨n, rfl, hbegins⟩ := line_takes htext (solid_skipped text) hline
  rw [lineEnd_keeps hend]
  exact List.forall_mem_singleton.2 hbegins

theorem proc_takes {ns : List Node} (htext : text <:+ source)
    (h : proc.Takes (bytesOf source) {} text rest ns) : ∃ n, ns = [n] ∧ n.IsProc source := by
  obtain ⟨inside, rfl, mid, _, _, ⟨rfl, rfl⟩, hbody, rfl⟩ := kept_of_rule h
  have hrest : rest <:+ mid := Takes.suffix hbody |>.trans (skipped_suffix mid)
  have hmid : skipped mid <:+ source :=
    (skipped_suffix mid).trans ((List.suffix_append _ mid).trans htext)
  obtain ⟨mid₁, _, _, hident, ⟨mid₂, _, _, hend, ⟨mid₃, _, _, hlines, hkwEnd, rfl⟩, rfl⟩, rfl⟩ := hbody
  have hmid₁ : skipped mid₁ <:+ source :=
    (skipped_suffix mid₁).trans ((Takes.suffix hident).trans hmid)
  have hmid₂ : skipped mid₂ <:+ source :=
    (skipped_suffix mid₂).trans ((Takes.suffix hend).trans hmid₁)
  obtain ⟨name, rfl, hname, -⟩ := text_of_rule (bytesOf_le hmid (Nat.le_refl _)) hident
  obtain ⟨word, rfl, -⟩ := kept_of_rule hkwEnd
  rw [lineEnd_keeps hend, List.nil_append, List.singleton_append]
  refine ⟨_, rfl, rfl, Node.begins_of_suffix htext hrest .proc _, ⟨name, _, rfl, hname⟩, ?_⟩
  intro x hx hline
  rcases List.mem_cons.1 hx with rfl | hx
  · rw [hname] at hline
    simp at hline
  · rcases List.mem_append.1 hx with hx | hx
    · exact lines_take hmid₂ hlines x hx
    · obtain rfl := List.mem_singleton.1 hx
      simp [Node.rule] at hline

/-- A file is matched by the rule for files, once, and the procedures in it are matches of
procedures. -/
theorem file_takes {ns : List Node} (h : file.Takes (bytesOf source) {} source rest ns) :
    ∃ n, ns = [n] ∧ n.rule = .file ∧ ∀ x ∈ n.children, x.rule = .proc → x.IsProc source := by
  obtain ⟨inside, rfl, mid, _, _, ⟨hstart, rfl⟩, hbody, rfl⟩ := kept_of_rule h
  obtain rfl : source = mid := hstart
  have hmid : skipped source <:+ source := skipped_suffix source
  obtain ⟨mid₁, _, _, hfirst, ⟨mid₂, _, _, hprocs, hend, rfl⟩, rfl⟩ := hbody
  have hmid₁ : skipped mid₁ <:+ source :=
    (skipped_suffix mid₁).trans ((Takes.suffix hfirst).trans hmid)
  rw [newlines_keep hfirst, List.nil_append]
  obtain ⟨endOfInput, rfl, -⟩ := kept_of_rule hend
  refine ⟨_, rfl, rfl, fun x hx hproc => ?_⟩
  rcases List.mem_append.1 hx with hx | hx
  · refine Takes.forall_many (fun text mid ns htext hstep => ?_) hprocs hmid₁ x hx
    obtain ⟨mid', ns₁, ns₂, hp, hgap, rfl⟩ := hstep
    obtain ⟨n, rfl, hn⟩ := proc_takes htext hp
    rw [newlines_keep hgap]
    exact List.forall_mem_singleton.2 hn
  · obtain rfl := List.mem_singleton.1 hx
    simp [Node.rule] at hproc

/-- Matching a whole source gives one match of a file, and each procedure in it has a name. -/
theorem file_of_run {c : Cursor} {ns : List Node} {t : Attempts}
    (h : file.run {} ⟨source, 0⟩ {} = (some (c, ns), t)) :
    ∃ n, ns = [n] ∧ n.rule = .file ∧ ∀ x ∈ n.children, x.rule = .proc → x.IsProc source := by
  have hplace : (⟨source, 0⟩ : Cursor) = left (bytesOf source) source := by
    rw [left, Nat.sub_self]
  rw [hplace] at h
  obtain ⟨rest, -, htakes⟩ := takes_of_run (Nat.le_refl _) h
  exact file_takes htakes

/-! ### Listings -/

/-- The spans of a listing are those of the words that its parts begin with. -/
structure Listing.Placed (source : List Char) (l : Listing) : Prop where
  proc : Located source "proc".toList l.span
  label : ∀ name span, .label name span ∈ l.lines → Located source name span
  instr : ∀ mnemonic operand span, .instr mnemonic operand span ∈ l.lines →
    Located source mnemonic span

theorem Node.IsProc.placed {n : Node} (h : n.IsProc source) {l : Listing}
    (hl : Listing.ofNode? source n = some l) : l.Placed source := by
  rw [Listing.ofNode?, h.rule] at hl
  obtain rfl := Option.some.inj hl
  refine ⟨h.begins.located, fun name span hmem => ?_, fun mnemonic operand span hmem => ?_⟩
  · obtain ⟨x, hx, hline⟩ := List.mem_filterMap.1 hmem
    unfold Line.ofNode? at hline
    dsimp only at hline
    split at hline
    · next hrule =>
        cases hline
        exact (h.lines x hx (.inl hrule)).located
    · cases hline
    · cases hline
  · obtain ⟨x, hx, hline⟩ := List.mem_filterMap.1 hmem
    unfold Line.ofNode? at hline
    dsimp only at hline
    split at hline
    · cases hline
    · next hrule =>
        cases hline
        exact (h.lines x hx (.inr hrule)).located
    · cases hline

/-- Whatever is read is placed. -/
theorem placed_of_read {ls : List Listing} (h : Listing.read source = .ok ls) :
    ∀ l ∈ ls, l.Placed source := by
  unfold Listing.read at h
  split at h
  · cases h
  · next c ns t hrun =>
      cases h
      intro l hl
      obtain ⟨x, hx, hlisting⟩ := List.mem_filterMap.1 hl
      obtain ⟨n, rfl, -, hprocs⟩ := file_of_run hrun
      rw [List.flatMap_singleton] at hx
      have hrule : x.rule = .proc := by
        unfold Listing.ofNode? at hlisting
        split at hlisting
        · next hrule => exact hrule
        · cases hlisting
      exact (hprocs x hx hrule).placed hlisting

end Reentrant.Assembly
