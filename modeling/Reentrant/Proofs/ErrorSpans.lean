import Reentrant.Assembly.Assemble
import Reentrant.Proofs.PlacedListings
import Reentrant.Proofs.SourceMeaning

/-!
The spans of errors. What stops an assembly is a procedure whose name is taken, a label whose name is
taken, or an instruction without a meaning, and the span of the error is where that stands in the
source: on places between characters, in order, with lines and columns as they are counted there.
-/

namespace Reentrant.Assembly

variable {natives : List (String × RoutineId)}

/-! ### What an error is about -/

/-- The part of the listings that an error is about: its span and the word that it begins with. -/
inductive Offence (natives : List (String × RoutineId)) (ls : List Listing) :
    Problem → Span → List Char → Prop where
  | procedure {before after : List Listing} {l : Listing} (hls : ls = before ++ l :: after)
      (hearlier : l.name ∈ before.map (·.name)) :
      Offence natives ls (.duplicateProcedure (String.ofList l.name)) l.span "proc".toList
  | label {l : Listing} {before after : List Line} {name : List Char} {span : Span} (hl : l ∈ ls)
      (hlines : l.lines = before ++ .label name span :: after)
      (hearlier : ∃ first, .label name first ∈ before) :
      Offence natives ls (.duplicateLabel (String.ofList name) (String.ofList l.name)) span name
  | instruction {l : Listing} {labels : List (List Char × Nat)} {mnemonic : List Char}
      {operand : Option Operand} {span : Span} {problem : Problem} (hl : l ∈ ls)
      (hlabels : labelsFrom (String.ofList l.name) [] 0 l.lines = .ok labels)
      (hline : .instr mnemonic operand span ∈ l.lines)
      (hproblem : instruction natives labels (String.ofList mnemonic) operand = .error problem) :
      Offence natives ls problem span mnemonic

theorem map_eq_error_iff {ε α β : Type} {r : Except ε α} {f : α → β} {e : ε} :
    r.map f = .error e ↔ r = .error e := by
  cases r <;> simp [Except.map]

/-- Labels are refused at one whose name is known from before the lines or from an earlier one. -/
theorem repeated_of_labelsFrom {procedure : String} {known : List (List Char × Nat)} {k : Nat}
    {lines : List Line} {problem : Problem} {span : Span}
    (h : labelsFrom procedure known k lines = .error (problem, span)) :
    ∃ before name after, lines = before ++ .label name span :: after ∧
      problem = .duplicateLabel (String.ofList name) procedure ∧
      ((known.lookup name).isSome = true ∨ ∃ first, .label name first ∈ before) := by
  induction lines generalizing known k with
  | nil => cases h
  | cons line rest ih =>
      cases line with
      | instr mnemonic operand span' =>
          obtain ⟨before, name, after, rfl, hproblem, hknown | ⟨first, hfirst⟩⟩ := ih h
          · exact ⟨_ :: before, name, after, rfl, hproblem, .inl hknown⟩
          · exact ⟨_ :: before, name, after, rfl, hproblem, .inr ⟨first, .tail _ hfirst⟩⟩
      | label l span' =>
          rw [labelsFrom] at h
          split at h
          · next hknown =>
              cases h
              exact ⟨[], l, rest, rfl, rfl, .inl hknown⟩
          · obtain ⟨before, name, after, rfl, hproblem, hknown | ⟨first, hfirst⟩⟩ := ih h
            · refine ⟨.label l span' :: before, name, after, rfl, hproblem, ?_⟩
              by_cases hname : name = l
              · exact .inr ⟨span', hname ▸ .head _⟩
              · rw [List.lookup_cons, beq_false_of_ne hname] at hknown
                exact .inl hknown
            · exact ⟨_ :: before, name, after, rfl, hproblem, .inr ⟨first, .tail _ hfirst⟩⟩

/-- Code is refused at an instruction without a meaning. -/
theorem meaningless_of_codeOf {labels : List (List Char × Nat)} {lines : List Line}
    {problem : Problem} {span : Span} (h : codeOf natives labels lines = .error (problem, span)) :
    ∃ mnemonic operand, .instr mnemonic operand span ∈ lines ∧
      instruction natives labels (String.ofList mnemonic) operand = .error problem := by
  induction lines with
  | nil => cases h
  | cons line rest ih =>
      cases line with
      | label l span' =>
          obtain ⟨mnemonic, operand, hmem, hproblem⟩ := ih h
          exact ⟨mnemonic, operand, .tail _ hmem, hproblem⟩
      | instr mnemonic operand span' =>
          rw [codeOf] at h
          split at h
          · next hproblem =>
              cases h
              exact ⟨mnemonic, operand, .head _, hproblem⟩
          · obtain ⟨mnemonic, operand, hmem, hproblem⟩ := ih (map_eq_error_iff.1 h)
            exact ⟨mnemonic, operand, .tail _ hmem, hproblem⟩

theorem offence_of_program {ls : List Listing} {l : Listing} (hl : l ∈ ls) {problem : Problem}
    {span : Span} (h : l.program natives = .error (problem, span)) :
    ∃ word, Offence natives ls problem span word := by
  unfold Listing.program at h
  dsimp only at h
  split at h
  · next hlabels =>
      cases h
      obtain ⟨before, name, after, hlines, rfl, hknown | hearlier⟩ := repeated_of_labelsFrom hlabels
      · cases hknown
      · exact ⟨name, .label hl hlines hearlier⟩
  · next labels hlabels =>
      obtain ⟨mnemonic, operand, hline, hproblem⟩ := meaningless_of_codeOf (map_eq_error_iff.1 h)
      exact ⟨mnemonic, .instruction hl hlabels hline hproblem⟩

theorem name_of_program {l : Listing} {p : Program} (h : l.program natives = .ok p) :
    p.name = String.ofList l.name := by
  unfold Listing.program at h
  dsimp only at h
  split at h
  · cases h
  · obtain ⟨code, -, rfl⟩ := map_ok_iff.1 h
    rfl

/-- Programs are refused for an offence of one of the listings; `passed` are those in front. -/
theorem offence_of_programsFrom {before : List String} (passed : List Listing) {ls : List Listing}
    (hbefore : before ⊆ passed.map fun l => String.ofList l.name) {problem : Problem} {span : Span}
    (h : programsFrom natives before ls = .error (problem, span)) :
    ∃ word, Offence natives (passed ++ ls) problem span word := by
  induction ls generalizing before passed with
  | nil => cases h
  | cons l rest ih =>
      have hl : l ∈ passed ++ l :: rest := List.mem_append_right _ (.head _)
      rw [programsFrom] at h
      split at h
      · next e hprogram =>
          cases h
          exact offence_of_program hl hprogram
      · next p hprogram =>
          have hname := name_of_program hprogram
          split at h
          · next htaken =>
              cases h
              rw [List.contains_iff_mem] at htaken
              obtain ⟨first, hfirst, heq⟩ := List.mem_map.1 (hbefore htaken)
              have hearlier : l.name ∈ passed.map (·.name) :=
                List.mem_map.2 ⟨first, hfirst, String.ofList_injective (heq.trans hname)⟩
              rw [hname]
              exact ⟨_, .procedure rfl hearlier⟩
          · obtain ⟨word, hoffence⟩ := ih (passed ++ [l]) (by
              rw [List.map_append]
              refine List.cons_subset.2 ⟨List.mem_append_right _ ?_, fun x hx =>
                List.mem_append_left _ (hbefore hx)⟩
              exact List.mem_singleton.2 hname) (map_eq_error_iff.1 h)
            rw [List.append_assoc] at hoffence
            exact ⟨word, hoffence⟩

/-! ### Where it stands -/

theorem Offence.located {source : List Char} {ls : List Listing}
    (hplaced : ∀ l ∈ ls, l.Placed source) {problem : Problem} {span : Span} {word : List Char}
    (h : Offence natives ls problem span word) : Located source word span := by
  cases h with
  | procedure hls hearlier => exact (hplaced _ (hls ▸ List.mem_append_right _ (.head _))).proc
  | label hl hlines hearlier =>
      exact (hplaced _ hl).label _ _ (hlines ▸ List.mem_append_right _ (.head _))
  | instruction hl hlabels hline hproblem => exact (hplaced _ hl).instr _ _ _ hline

/-- The ends of a stretch lie between characters, in order. -/
theorem Located.inside {source : String} {word : List Char} {span : Span}
    (h : Located source.toList word span) :
    span.start ∈ boundaries source ∧ span.stop ∈ boundaries source ∧ span.start ≤ span.stop ∧
      span.stop ≤ source.utf8ByteSize ∧
      toLex (span.startLine, span.startCol) ≤ toLex (span.stopLine, span.stopCol) := by
  obtain ⟨front, behind, back, hsource, rfl⟩ := h
  rw [mem_boundaries_iff, mem_boundaries_iff, utf8ByteSize_eq, hsource]
  refine ⟨⟨front, _, List.append_assoc front _ back, rfl⟩, ⟨_, back, rfl, rfl⟩, ?_, ?_, ?_⟩
  · rw [bytesOf_append]
    exact Nat.le_add_right _ _
  · rw [bytesOf_append (front ++ (word ++ behind))]
    exact Nat.le_add_right _ _
  · have hmono := lineCol_mono front (word ++ behind) back
    rw [lineCol_eq (front ++ (word ++ behind)) back, List.append_assoc, lineCol_eq] at hmono
    exact hmono

/-- The spans of errors are right. A source that matches the grammar matches it as one file whose
procedures have names, so every error has a span. Its ends lie between characters and in order, and so
do their lines and columns; it is where the offending procedure, label or instruction stands, it
begins with the word `proc`, the label or the mnemonic, and its lines and columns count the line feeds
in front of its ends and the characters since the last of them. Lines and columns strictly increase
along the places between characters, so no two of these share them. -/
theorem error_spans (source : String) :
    (∀ c ns t, Grammar.file.run {} ⟨source.toList, 0⟩ {} = (some (c, ns), t) →
      ∃ n, ns = [n] ∧ n.rule = .file ∧ ∀ x ∈ n.children, x.rule = .proc →
        ∃ name others, x.children = name :: others ∧ name.rule = .ident) ∧
    (∀ natives problem span, assemble natives source = .error (.build problem span) →
      span.start ∈ boundaries source ∧ span.stop ∈ boundaries source ∧ span.start ≤ span.stop ∧
      span.stop ≤ source.utf8ByteSize ∧
      toLex (span.startLine, span.startCol) ≤ toLex (span.stopLine, span.stopCol) ∧
      ∃ ls word, Listing.read source.toList = .ok ls ∧ Offence natives ls problem span word ∧
        Located source.toList word span) ∧
    StrictMonoOn (fun offset => toLex (lineCol source.toList offset)) (boundaries source) ∧
    Set.InjOn (lineCol source.toList) (boundaries source) := by
  refine ⟨fun c ns t hrun => ?_, fun natives problem span h => ?_, lineCol_strictMonoOn source,
    lineCol_injOn source⟩
  · obtain ⟨n, hns, hfile, hprocs⟩ := file_of_run hrun
    exact ⟨n, hns, hfile, fun x hx hproc => (hprocs x hx hproc).named⟩
  · unfold assemble at h
    split at h
    · cases h
    · next ls hls =>
        split at h
        · next hprograms =>
            cases h
            obtain ⟨word, hoffence⟩ := offence_of_programsFrom [] (List.nil_subset _)
              hprograms
            have hlocated := hoffence.located (placed_of_read hls)
            obtain ⟨hstart, hstop, hle, hbound, hlex⟩ := hlocated.inside
            exact ⟨hstart, hstop, hle, hbound, hlex, ls, word, hls, hoffence, hlocated⟩
        · cases h

/-- An unknown routine behind a comment with a wide character, a lone carriage return, and a string over
two lines. -/
theorem error_spans_unknownRoutine :
    ∃ ls word,
      Listing.read "; é\r\n\rproc main\n\tpush \"é\n\"\nnative nope\nend".toList = .ok ls ∧
        Offence [] ls (.unknownRoutine "nope") ⟨29, 40, 4, 0, 4, 11⟩ word ∧
        Located "; é\r\n\rproc main\n\tpush \"é\n\"\nnative nope\nend".toList word
          ⟨29, 40, 4, 0, 4, 11⟩ := by
  obtain ⟨-, herrors, -⟩ := error_spans "; é\r\n\rproc main\n\tpush \"é\n\"\nnative nope\nend"
  obtain ⟨-, -, -, -, -, hlocated⟩ := herrors [] (.unknownRoutine "nope") ⟨29, 40, 4, 0, 4, 11⟩ rfl
  exact hlocated

end Reentrant.Assembly
