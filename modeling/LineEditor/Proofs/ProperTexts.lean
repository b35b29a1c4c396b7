import LineEditor.Proofs.Texts

/-!
# Proper texts

A text is proper if it is not longer than the window may be, if it is known of no empty last line
that it lacks a newline, and if its lines are of a kind that cutting at newlines and joining give.
Every edit that a command plans leaves a proper text proper, for the plan counts the lines first.
-/

namespace LineEditor

namespace Window

theorem mem_reviseRows {changes : List (Nat × List Bytes)} {rows : List Row} {shift : Nat} {row : Row}
    (h : row ∈ reviseRows rows shift changes) :
    row ∈ rows ∨ ∃ c ∈ changes, ∃ line ∈ c.2, row = .plain line := by
  induction changes generalizing rows shift with
  | nil => exact .inl h
  | cons c rest ih =>
    rcases ih h with h | ⟨c', hc', hline⟩
    · rcases Sequence.mem_splice h with h | h
      · exact .inl h
      · obtain ⟨line, hline, rfl⟩ := List.mem_map.mp h
        exact .inr ⟨c, List.mem_cons_self, line, hline, rfl⟩
    · exact .inr ⟨c', List.mem_cons_of_mem c hc', hline⟩

theorem length_reviseRows {changes : List (Nat × List Bytes)} {rows : List Row} {shift : Nat}
    (hfit : ∀ c ∈ changes, 1 ≤ c.1 ∧ c.1 + shift ≤ rows.length ∧ c.2 ≠ []) :
    (reviseRows rows shift changes).length =
      rows.length + (changes.map fun c => c.2.length - 1).sum := by
  induction changes generalizing rows shift with
  | nil => rfl
  | cons c rest ih =>
    obtain ⟨⟨h₁, hn, hl⟩, hrest⟩ := List.forall_mem_cons.mp hfit
    have hpos : 1 ≤ c.2.length := List.length_pos_iff.mpr hl
    have hlen : (Sequence.splice rows (c.1 + shift - 1) 1 (c.2.map Row.plain)).length =
        rows.length - 1 + c.2.length := by
      rw [Sequence.length_splice _ _ (by omega), List.length_map]
    unfold reviseRows
    rw [ih, hlen, List.map_cons, List.sum_cons]
    · omega
    · intro c' hc'
      obtain ⟨hc₁, hc, hcl⟩ := hrest c' hc'
      rw [hlen]
      exact ⟨hc₁, by omega, hcl⟩

end Window

/-- Lines that cutting at newlines and joining give. -/
structure LineKind (C : Bytes → Prop) : Prop where
  piece : ∀ s, ∀ piece ∈ Bytes.splitOn Bytes.newline s, C piece
  joined : ∀ (spaced : Bool) lines, (∀ l ∈ lines, C l) →
    C (List.intercalate (if spaced then [32] else []) lines)

theorem lineKind_any : LineKind fun _ => True := ⟨fun _ _ _ => trivial, fun _ _ _ => trivial⟩

theorem lineKind_newline : LineKind fun line => Bytes.newline ∉ line where
  piece _ _ h := Bytes.not_mem_of_mem_splitOn h
  joined spaced lines h := by
    have hsep : Bytes.newline ∉ (if spaced then [32] else [] : Bytes) := by cases spaced <;> decide
    generalize (if spaced then [32] else [] : Bytes) = sep at hsep ⊢
    induction lines with
    | nil => exact List.not_mem_nil
    | cons a lines ih =>
      obtain ⟨ha, hrest⟩ := List.forall_mem_cons.mp h
      cases lines with
      | nil => simpa using ha
      | cons b lines =>
        rw [List.intercalate_cons_cons, List.mem_append, List.mem_append, not_or, not_or]
        exact ⟨⟨ha, hsep⟩, ih hrest⟩

/-- What is asked of a text, and of the note that its last line has no newline. -/
structure ProperText (C : Bytes → Prop) (limits : Limits) (texts : List Bytes) (unended : Bool) :
    Prop where
  size_le : texts.length ≤ limits.lines
  last_ne_nil : unended = true → ∀ last, texts.getLast? = some last → last ≠ []
  lines : ∀ line ∈ texts, C line

theorem ProperText.nil (C : Bytes → Prop) (limits : Limits) (unended : Bool) :
    ProperText C limits [] unended :=
  ⟨Nat.zero_le _, fun _ _ h => (by cases h), fun _ h => (by cases h)⟩

/-- The edit leaves no more than `limit` lines, and all of them are of the kind. -/
def Edit.Keeps (C : Bytes → Prop) (limit : Nat) (rows : List Row) (change : Edit) : Prop :=
  (change.rows rows).length ≤ limit ∧ ∀ row ∈ change.rows rows, C row.text

def Plan.Keeps (C : Bytes → Prop) (limit : Nat) (rows : List Row) : Plan → Prop
  | .edit change _ _ => change.Keeps C limit rows
  | _ => True

/-- The plan is not to edit anything. -/
def Plan.Looks : Plan → Prop
  | .edit _ _ _ => False
  | _ => True

theorem Plan.Looks.keeps {C : Bytes → Prop} {limit : Nat} {rows : List Row} {plan : Plan}
    (h : plan.Looks) : plan.Keeps C limit rows := by
  cases plan with
  | edit change shape print => exact h.elim
  | _ => exact trivial

section
variable {C : Bytes → Prop} {limits : Limits} {rows : List Row} {unended : Bool}

/-- Other rows may come, if they are few enough and of the kind, and if the last row stays wherever it
is known to lack its newline. -/
theorem ProperText.of_last (h : ProperText C limits (rows.map Row.text) unended) {rows' : List Row}
    {unended' : Bool} (hsize : rows'.length ≤ limits.lines) (hlines : ∀ row ∈ rows', C row.text)
    (hlast : unended' = true → unended = true ∧ rows'.getLast? = rows.getLast?) :
    ProperText C limits (rows'.map Row.text) unended' where
  size_le := by simpa using hsize
  last_ne_nil hset last hl := by
    obtain ⟨hold, hsame⟩ := hlast hset
    rw [List.getLast?_map, hsame, ← List.getLast?_map] at hl
    exact h.last_ne_nil hold last hl
  lines line hline := by
    obtain ⟨row, hrow, rfl⟩ := List.mem_map.mp hline
    exact hlines row hrow

theorem ProperText.edit {w w' : Window} {p p' : Pool} {change : Edit}
    (h : ProperText C limits ((p.rows w.lines).map Row.text) w.flags.noFinalNewline)
    (hfit : change.Fits w.dol) (hkeeps : change.Keeps C limits.lines (p.rows w.lines))
    (hrun : change.perform w p = .ok (w', p')) :
    ProperText C limits ((change.rows (p.rows w.lines)).map Row.text) w'.flags.noFinalNewline :=
  h.of_last hkeeps.1 hkeeps.2 (change.perform_last hfit hrun (Pool.length_rows _ _))

end

/-! ## Plans -/

theorem linesAdded_eq {changes : List (Nat × List Bytes)} (hc : ∀ c ∈ changes, c.2 ≠ []) :
    View.linesAdded changes = .ok (changes.map fun c => c.2.length - 1).sum := by
  have hmap : changes.mapM (fun c => difference c.2.length 1) =
      .ok (changes.map fun c => c.2.length - 1) :=
    mapM_ok fun c hmem => difference_of_le (List.length_pos_iff.mpr (hc c hmem))
  unfold View.linesAdded
  rw [hmap]
  show Except.ok _ = _
  rw [List.sum_eq_foldl]

namespace View

section
variable {C : Bytes → Prop} {v : View} {range : LineRange}

theorem length_rows_view (v : View) : (v.pool.rows v.window.lines).length = v.window.dol :=
  Pool.length_rows _ _

theorem planGoto_looks (hv : v.Readable) (n : Nat) (print : Option PrintStyle) :
    Query.Yields (v.planGoto n print) Plan.Looks := by
  unfold planGoto
  cases print with
  | none => exact .pure trivial
  | some style => exact (Query.Yields.lift (hv.render n style)).bind fun _ _ => .pure trivial

theorem planGoto_keeps (hv : v.Readable) (n : Nat) (print : Option PrintStyle) {rows : List Row}
    {limit : Nat} : Query.Yields (v.planGoto n print) fun plan => plan.Keeps C limit rows :=
  (planGoto_looks hv n print).mono fun _ => Plan.Looks.keeps

theorem planPrint_looks (hv : v.Readable) (hr : range.Within v.window.dol) (style : PrintStyle)
    (tail : List Char) : Query.Yields (v.planPrint style range tail) Plan.Looks := by
  unfold planPrint
  refine (Query.Yields.liftExcept (noTail_reads _ tail)).bind fun _ _ => ?_
  refine (Query.Yields.difference (Nat.le_succ_of_le hr.le)).bind fun _ _ => ?_
  refine Query.checkInterrupt_yields.bind fun _ _ => ?_
  exact (Query.Yields.lift (hv.shownLines range.start range.stop)).bind fun _ _ => .pure trivial

theorem planLineNumber_looks (tail : List Char) :
    Query.Yields (planLineNumber range tail) Plan.Looks := by
  unfold planLineNumber
  exact (Query.Yields.liftExcept (noTail_reads _ tail)).bind fun _ _ => .pure trivial

theorem planLabel_looks (tail : List Char) : Query.Yields (planLabel range tail) Plan.Looks := by
  unfold planLabel
  split
  · exact .throw rfl
  · split
    · exact .pure trivial
    · exact .throw rfl
  · exact .throw rfl

/-- What is allowed in a directory does not edit. -/
theorem plan_looks (hv : v.Readable) (hr : range.Within v.window.dol) {cmd : Option LineCommand}
    (hall : (cmd.map Command.line).all Mode.directory.allows = true) (tail : List Char) :
    Query.Yields (v.plan cmd range tail) Plan.Looks := by
  unfold plan
  cases cmd with
  | none => exact planGoto_looks hv _ _
  | some c =>
    cases c with
    | print style => exact planPrint_looks hv hr style tail
    | lineNumber => exact planLineNumber_looks tail
    | label => exact planLabel_looks tail
    | _ => cases hall

section
variable (hr : range.Within v.window.dol) (h₁ : 1 ≤ range.start)
  (hlines : ∀ row ∈ v.pool.rows v.window.lines, C row.text)
include hr hlines

section
variable (hsize : v.window.dol ≤ v.limits.lines)
include h₁ hsize

theorem planDelete_keeps (tail : List Char) : Query.Yields (planDelete range tail) fun plan =>
    plan.Keeps C v.limits.lines (v.pool.rows v.window.lines) := by
  have hlen := v.length_rows_view
  have hle := hr.le
  have hstop := hr.stop_le
  unfold planDelete
  refine (Query.Yields.liftExcept (printSuffix_reads _ tail)).bind fun _ _ => .pure ⟨?_, ?_⟩
  · show (Sequence.splice _ (range.start - 1) (range.stop - range.start + 1) []).length ≤ _
    rw [Sequence.length_splice _ _ (by omega), List.length_nil]
    omega
  · exact fun row hrow => hlines row ((Sequence.mem_splice hrow).resolve_right List.not_mem_nil)

theorem planJoin_keeps (hC : LineKind C) (hv : v.Readable) (spaced : Bool) (tail : List Char) :
    Query.Yields (v.planJoin spaced range tail) fun plan =>
      plan.Keeps C v.limits.lines (v.pool.rows v.window.lines) := by
  have hlen := v.length_rows_view
  have hle := hr.le
  have hstop := hr.stop_le
  unfold planJoin
  refine (Query.Yields.liftExcept (printSuffix_reads _ tail)).bind fun print _ => ?_
  split
  · exact planGoto_keeps hv _ print
  · rw [hv.texts range.start range.stop]
    refine (Query.Yields.lift (Succeeds.ok_iff.mpr rfl)).bind fun texts htexts => ?_
    have hjoined : C (List.intercalate (if spaced then [32] else []) texts) := by
      refine hC.joined spaced texts fun line hline => ?_
      rw [← htexts] at hline
      obtain ⟨row, hrow, rfl⟩ := List.mem_map.mp hline
      exact hlines row (List.map_subset _ (v.window.lines.removed_subset _ _) hrow)
    generalize List.intercalate _ texts = joined at hjoined
    simp only
    split
    · exact .throw rfl
    · refine .pure ⟨?_, fun row hrow => ?_⟩
      · show (Sequence.splice _ (range.start - 1) (range.stop - range.start + 1) _).length ≤ _
        rw [Sequence.length_splice _ _ (by omega), List.length_map, List.length_singleton]
        omega
      · rcases Sequence.mem_splice hrow with hrow | hrow
        · exact hlines row hrow
        · rw [List.mem_singleton.mp hrow]
          exact hjoined

theorem planMove_keeps (hv : v.Readable) (tail : List Char) :
    Query.Yields (v.planMove range tail) fun plan =>
      plan.Keeps C v.limits.lines (v.pool.rows v.window.lines) := by
  unfold planMove
  refine (destination_yields hv .move tail).bind fun d _ => ?_
  obtain ⟨dest, print⟩ := d
  dsimp only
  split
  · exact .throw rfl
  · split
    · exact planGoto_keeps hv _ print
    · -- a move leaves the same rows in another order
      have hperm := Sequence.move_perm (v.pool.rows v.window.lines) h₁ hr.le dest
      refine .pure ⟨?_, fun row hrow => hlines row (hperm.mem_iff.mp hrow)⟩
      show (Sequence.move _ range.start range.stop dest).length ≤ _
      rw [hperm.length_eq, v.length_rows_view]
      exact hsize

end

theorem planCopy_keeps (hv : v.Readable) (tail : List Char) :
    Query.Yields (v.planCopy range tail) fun plan =>
      plan.Keeps C v.limits.lines (v.pool.rows v.window.lines) := by
  have hlen := v.length_rows_view
  unfold planCopy
  refine (destination_yields hv .copy tail).bind fun d hd => ?_
  refine (Query.Yields.difference hr.le).bind fun behind hbehind => ?_
  refine (Query.Yields.liftExcept (v.checkCapacity_reads _)).bind fun _ hroom => ?_
  refine .pure ⟨?_, fun row hrow => ?_⟩
  · show (Sequence.splice _ d.1 0 _).length ≤ _
    rw [Sequence.length_splice _ _ (by omega), List.length_map, Sequence.run, List.length_take]
    omega
  · rcases Sequence.mem_splice hrow with hrow | hrow
    · exact hlines row hrow
    · obtain ⟨row', hrow', rfl⟩ := List.mem_map.mp hrow
      exact hlines row' (Sequence.mem_run hrow')

include h₁

theorem planSubstitute_keeps (hC : LineKind C) (hv : v.Readable) (tail : List Char) :
    Query.Yields (v.planSubstitute range tail) fun plan =>
      plan.Keeps C v.limits.lines (v.pool.rows v.window.lines) := by
  have hlen := v.length_rows_view
  unfold planSubstitute
  refine (parse_yields v tail).bind fun request hm => ?_
  refine Query.checkInterrupt_yields.bind fun _ _ => ?_
  rw [hv.texts range.start range.stop]
  refine (Query.Yields.lift (Succeeds.ok_iff.mpr rfl)).bind fun texts htexts => ?_
  refine (SubstituteRequest.reviseAll_yields hm _ _).bind fun changes hc => ?_
  simp only
  split
  · exact .throw rfl
  · have hne (c : Nat × List Bytes) (hmem : c ∈ changes) : c.2 ≠ [] := by
      obtain ⟨line, -, hrew⟩ := hc.2 c hmem
      exact hrew.ne_nil
    rw [linesAdded_eq hne]
    refine (Query.Yields.lift (Succeeds.ok_iff.mpr rfl)).bind fun extra hextra => ?_
    refine (Query.Yields.liftExcept (v.checkCapacity_reads _)).bind fun _ hroom => ?_
    subst htexts
    -- as many lines are added as the plan asked room for
    refine .pure ⟨?_, fun row hrow => ?_⟩
    · show (Window.reviseRows _ 0 changes).length ≤ _
      rw [Window.length_reviseRows fun c hmem => ?_, hlen, hextra]
      · exact hroom
      · obtain ⟨line, hline, -⟩ := hc.2 c hmem
        obtain ⟨hs, ht, -⟩ := numbered_row h₁ hline
        exact ⟨Nat.le_trans h₁ hs, hlen ▸ Nat.le_trans ht hr.stop_le, hne c hmem⟩
    · rcases Window.mem_reviseRows hrow with hrow | ⟨c, hmem, line, hline, rfl⟩
      · exact hlines row hrow
      · obtain ⟨text, -, new, -, hpieces⟩ := hc.2 c hmem
        rw [hpieces] at hline
        exact hC.piece new line hline

end

/-- What a command is planned to do leaves room, and lines of the kind. -/
theorem plan_keeps (hC : LineKind C) (hv : v.Readable) (hr : range.Within v.window.dol)
    (hlines : ∀ row ∈ v.pool.rows v.window.lines, C row.text)
    (hsize : v.window.dol ≤ v.limits.lines) {cmd : Option LineCommand}
    (hz : 0 < range.start ∨ (cmd.map Command.line).any Command.allowsZero) (tail : List Char) :
    Query.Yields (v.plan cmd range tail) fun plan =>
      plan.Keeps C v.limits.lines (v.pool.rows v.window.lines) := by
  unfold plan
  cases cmd with
  | none => exact planGoto_keeps hv _ _
  | some c =>
    have h₁ (hc : Command.allowsZero (.line c) = false) : 0 < range.start := by simpa [hc] using hz
    cases c with
    | print style => exact (planPrint_looks hv hr style tail).mono fun _ => Plan.Looks.keeps
    | lineNumber => exact (planLineNumber_looks tail).mono fun _ => Plan.Looks.keeps
    | delete => exact planDelete_keeps hr (h₁ rfl) hlines hsize tail
    | join spaced => exact planJoin_keeps hr (h₁ rfl) hlines hsize hC hv spaced tail
    | move => exact planMove_keeps hr (h₁ rfl) hlines hsize hv tail
    | copy => exact planCopy_keeps hr hlines hv tail
    | label => exact (planLabel_looks tail).mono fun _ => Plan.Looks.keeps
    | substitute => exact planSubstitute_keeps hr (h₁ rfl) hlines hC hv tail

end

end View

end LineEditor
