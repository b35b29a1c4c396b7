import LineEditor.Proofs.Substitution

/-!
# Plans

Planning finds every error there is: what a plan then does fits the window.
-/

namespace LineEditor

/-- The edit turns lines, from top to bottom, into pieces that carry their tokens. -/
def Edit.Spares (rows : List Row) : Edit → Prop
  | .revise changes => (changes.map Prod.fst).Pairwise (· < ·) ∧
      ∀ c ∈ changes, ∃ row, rows[c.1 - 1]? = some row ∧ Rewrites row.text c.2
  | _ => False

/-- What a plan does fits a window with `dol` lines. -/
def Plan.Fits (dol : Nat) : Plan → Prop
  | .look (some n) _ => 1 ≤ n ∧ n ≤ dol
  | .look none _ => True
  | .label _ _ => True
  | .edit change _ _ => change.Fits dol

/-- Whatever a plan does, no token is lost or added. -/
def Plan.Spares (rows : List Row) : Plan → Prop
  | .edit change _ _ => change.Spares rows
  | _ => True

namespace View

section
variable {v : View} {range : LineRange}

theorem planGoto_yields (hv : v.Readable) {n : Nat} (h₁ : 1 ≤ n) (hn : n ≤ v.window.dol)
    (print : Option PrintStyle) (rows : List Row) :
    Query.Yields (v.planGoto n print) fun plan => plan.Fits v.window.dol ∧ plan.Spares rows := by
  unfold planGoto
  cases print with
  | none => exact .pure ⟨⟨h₁, hn⟩, trivial⟩
  | some style =>
    exact (Query.Yields.lift (hv.render n style)).bind fun _ _ => .pure ⟨⟨h₁, hn⟩, trivial⟩

theorem planPrint_yields (hv : v.Readable) (h₁ : 1 ≤ range.stop) (hr : range.Within v.window.dol)
    (style : PrintStyle) (tail : List Char) (rows : List Row) :
    Query.Yields (v.planPrint style range tail) fun plan =>
      plan.Fits v.window.dol ∧ plan.Spares rows := by
  unfold planPrint
  refine (Query.Yields.liftExcept (noTail_reads _ tail)).bind fun _ _ => ?_
  refine (Query.Yields.difference (Nat.le_succ_of_le hr.le)).bind fun _ _ => ?_
  refine Query.checkInterrupt_yields.bind fun _ _ => ?_
  refine (Query.Yields.lift (hv.shownLines range.start range.stop)).bind fun _ _ => ?_
  exact .pure ⟨⟨h₁, hr.stop_le⟩, trivial⟩

theorem planLineNumber_yields (tail : List Char) (size : Nat) (rows : List Row) :
    Query.Yields (planLineNumber range tail) fun plan => plan.Fits size ∧ plan.Spares rows := by
  unfold planLineNumber
  exact (Query.Yields.liftExcept (noTail_reads _ tail)).bind fun _ _ => .pure ⟨trivial, trivial⟩

theorem planDelete_yields {size : Nat} (h₁ : 1 ≤ range.start) (hr : range.Within size)
    (tail : List Char) : Query.Yields (planDelete range tail) fun plan => plan.Fits size := by
  unfold planDelete
  exact (Query.Yields.liftExcept (printSuffix_reads _ tail)).bind fun _ _ =>
    .pure ⟨h₁, hr.le, hr.stop_le⟩

theorem planJoin_yields (hv : v.Readable) (h₁ : 1 ≤ range.start) (hr : range.Within v.window.dol)
    (spaced : Bool) (tail : List Char) :
    Query.Yields (v.planJoin spaced range tail) fun plan => plan.Fits v.window.dol := by
  unfold planJoin
  refine (Query.Yields.liftExcept (printSuffix_reads _ tail)).bind fun print _ => ?_
  split
  · exact (planGoto_yields hv h₁ (Nat.le_trans hr.le hr.stop_le) print []).mono fun _ hp => hp.1
  · rw [hv.texts range.start range.stop]
    refine (Query.Yields.lift (Succeeds.ok_iff.mpr rfl)).bind fun texts _ => ?_
    generalize List.intercalate _ texts = joined
    simp only
    split
    · exact .throw rfl
    · exact .pure ⟨h₁, hr.le, hr.stop_le⟩

theorem destination_yields (hv : v.Readable) (c : LineCommand) (tail : List Char) :
    Query.Yields (v.destination c tail) fun d => d.1 ≤ v.window.dol := by
  unfold destination
  rw [Address.lift_read]
  refine (Query.Yields.liftExcept (Address.parse_reads _)).bind fun found _ => ?_
  cases found with
  | none => exact .throw rfl
  | some found =>
    refine (Query.Yields.liftExcept (printSuffix_reads _ _)).bind fun print _ => ?_
    exact (address_yields hv _ _).bind fun n hn => .pure hn

theorem planMove_yields (hv : v.Readable) (h₁ : 1 ≤ range.start) (hr : range.Within v.window.dol)
    (tail : List Char) :
    Query.Yields (v.planMove range tail) fun plan => plan.Fits v.window.dol := by
  unfold planMove
  refine (destination_yields hv .move tail).bind fun d hd => ?_
  obtain ⟨dest, print⟩ := d
  simp only [Bool.and_eq_true, decide_eq_true_eq]
  split
  · exact .throw rfl
  · rename_i hout
    split
    · exact (planGoto_yields hv (Nat.le_trans h₁ hr.le) hr.stop_le print []).mono fun _ hp => hp.1
    · exact .pure ⟨h₁, hr.le, hr.stop_le, hd, hout⟩

theorem planCopy_yields (hv : v.Readable) (h₁ : 1 ≤ range.start) (hr : range.Within v.window.dol)
    (tail : List Char) :
    Query.Yields (v.planCopy range tail) fun plan => plan.Fits v.window.dol := by
  unfold planCopy
  refine (destination_yields hv .copy tail).bind fun d hd => ?_
  refine (Query.Yields.difference hr.le).bind fun _ _ => ?_
  refine (Query.Yields.liftExcept (v.checkCapacity_reads _)).bind fun _ _ => ?_
  exact .pure ⟨h₁, hr.le, hr.stop_le, hd⟩

theorem planLabel_yields (tail : List Char) (size : Nat) (rows : List Row) :
    Query.Yields (planLabel range tail) fun plan => plan.Fits size ∧ plan.Spares rows := by
  unfold planLabel
  split
  · exact .throw rfl
  · split
    · exact .pure ⟨trivial, trivial⟩
    · exact .throw rfl
  · exact .throw rfl

theorem parse_yields (v : View) (tail : List Char) :
    Query.Yields (SubstituteRequest.parse v tail) fun request => request.matcher.Bounded := by
  unfold SubstituteRequest.parse
  simp only [Delimited.lift_readFirst, Delimited.read_bind]
  refine (Query.Yields.liftExcept (Delimited.first_reads tail)).bind fun d _ => ?_
  obtain ⟨delim, pattern⟩ := d
  simp only
  split
  · exact .throw rfl
  · refine (Query.Yields.liftExcept (SubstituteRequest.flags_reads _)).bind fun flags _ => ?_
    refine (Query.resolve_yields _).bind fun source _ => ?_
    have htemplate (body : List Char) :
        Query.Yields (SubstituteRequest.resolveTemplate body) fun _ => True := by
      unfold SubstituteRequest.resolveTemplate
      split
      · refine Query.Yields.get.bind fun r _ => ?_
        split
        · exact .pure trivial
        · exact .throw rfl
      · exact .pure trivial
    refine (htemplate _).bind fun template _ => ?_
    refine (Query.Yields.liftExcept (v.window.compile_reads _ _)).bind fun matcher hm => ?_
    split
    · exact .throw rfl
    · refine (Query.Yields.modify ?_).bind fun _ _ => Query.Yields.pure hm
      exact fun _ => rfl

/-- Lines of the window, numbered as they are read. -/
theorem numbered_row {start stop n : Nat} (h₁ : 1 ≤ start) {text : Bytes}
    (hmem : (n, text) ∈ (((v.pool.rows (v.window.lines.removed (start - 1) (stop + 1 - start))).map
      Row.text).zipIdx start).map fun x => (x.2, x.1)) :
    start ≤ n ∧ n ≤ stop ∧
      ∃ row, (v.pool.rows v.window.lines)[n - 1]? = some row ∧ row.text = text := by
  obtain ⟨⟨read, k⟩, hk, hpair⟩ := List.mem_map.mp hmem
  cases hpair
  obtain ⟨hle, hget⟩ := List.mk_mem_zipIdx_iff_le_and_getElem?_sub.mp hk
  rw [List.getElem?_map] at hget
  obtain ⟨row, hrow, htext⟩ := Option.map_eq_some_iff.mp hget
  have hplace : start - 1 + (k - start) = k - 1 := by omega
  rw [Pool.rows, LineMap.removed, List.map_take, List.map_drop, List.getElem?_take] at hrow
  split at hrow
  · rw [List.getElem?_drop, hplace] at hrow
    exact ⟨hle, by omega, row, hrow, htext⟩
  · cases hrow

theorem linesAdded_succeeds {changes : List (Nat × List Bytes)} (hc : ∀ c ∈ changes, c.2 ≠ []) :
    Succeeds (linesAdded changes) fun _ => True := by
  unfold linesAdded
  simp only [Succeeds.bind_iff, Succeeds.pure_iff]
  refine (succeeds_mapM fun c hmem => ?_).mono fun _ _ => trivial
  rw [difference_of_le (List.length_pos_iff.mpr (hc c hmem))]
  exact Succeeds.ok_iff.mpr trivial

theorem planSubstitute_yields (hv : v.Readable) (h₁ : 1 ≤ range.start)
    (hr : range.Within v.window.dol) (tail : List Char) :
    Query.Yields (v.planSubstitute range tail) fun plan =>
      plan.Fits v.window.dol ∧ plan.Spares (v.pool.rows v.window.lines) := by
  unfold planSubstitute
  refine (parse_yields v tail).bind fun request hm => ?_
  refine Query.checkInterrupt_yields.bind fun _ _ => ?_
  rw [hv.texts range.start range.stop]
  refine (Query.Yields.lift (Succeeds.ok_iff.mpr rfl)).bind fun texts htexts => ?_
  refine (SubstituteRequest.reviseAll_yields hm _ _).bind fun changes hc => ?_
  simp only
  split
  · exact .throw rfl
  · have hadded : Succeeds (linesAdded changes) fun _ => True := by
      refine linesAdded_succeeds fun c hmem => ?_
      obtain ⟨line, -, hrew⟩ := hc.2 c hmem
      exact hrew.ne_nil
    refine (Query.Yields.lift hadded).bind fun extra _ => ?_
    refine (Query.Yields.liftExcept (v.checkCapacity_reads _)).bind fun _ _ => ?_
    subst htexts
    refine .pure ⟨fun c hmem => ?_, ?_, fun c hmem => ?_⟩
    · obtain ⟨line, hline, hrew⟩ := hc.2 c hmem
      obtain ⟨hs, ht, -⟩ := numbered_row h₁ hline
      exact ⟨Nat.le_trans h₁ hs, Nat.le_trans ht hr.stop_le, hrew.ne_nil⟩
    · refine List.Pairwise.sublist hc.1 ?_
      rw [List.map_map]
      show (List.map Prod.snd _).Pairwise _
      rw [List.zipIdx_map_snd]
      exact List.pairwise_lt_range'
    · obtain ⟨line, hline, hrew⟩ := hc.2 c hmem
      obtain ⟨-, -, row, hrow, rfl⟩ := numbered_row h₁ hline
      exact ⟨row, hrow, hrew⟩

/-- A plan suits its window: it fits, and where lines are not edited it keeps their tokens. -/
structure Suits (v : View) (cmd : Option LineCommand) (plan : Plan) : Prop where
  fits : plan.Fits v.window.dol
  spares : v.window.mode ≠ .normal → (cmd.map Command.line).all v.window.mode.allows = true →
    plan.Spares (v.pool.rows v.window.lines)

/-- Only the number of a line is told of the place before the first. -/
theorem plan_yields (hv : v.Readable) {cmd : Option LineCommand} (hr : range.Within v.window.dol)
    (hz : 0 < range.start ∨ (cmd.map Command.line).any Command.allowsZero) (tail : List Char) :
    Query.Yields (v.plan cmd range tail) fun plan => v.Suits cmd plan := by
  have hstop (h₁ : 0 < range.start) : 1 ≤ range.stop := Nat.le_trans h₁ hr.le
  have hkeep {plan : Plan} (hp : plan.Fits v.window.dol ∧ plan.Spares (v.pool.rows v.window.lines)) :
      v.Suits cmd plan :=
    ⟨hp.1, fun _ _ => hp.2⟩
  unfold plan
  cases cmd with
  | none =>
    have h₁ : 0 < range.start := by simpa using hz
    exact (planGoto_yields hv (hstop h₁) hr.stop_le _ _).mono fun _ hp => hkeep hp
  | some c =>
    have h₁ (hc : Command.allowsZero (.line c) = false) : 0 < range.start := by simpa [hc] using hz
    have hedit {plan : Plan} (hbrowse : Mode.browse.allows (.line c) = false)
        (hdirectory : Mode.directory.allows (.line c) = false) (hp : plan.Fits v.window.dol) :
        v.Suits (some c) plan :=
      ⟨hp, fun hmode hall => absurd (Mode.eq_normal_of_allows hall hbrowse hdirectory) hmode⟩
    cases c with
    | print style =>
      exact (planPrint_yields hv (hstop (h₁ rfl)) hr style tail _).mono fun _ hp => hkeep hp
    | lineNumber => exact (planLineNumber_yields tail _ _).mono fun _ hp => hkeep hp
    | delete => exact (planDelete_yields (h₁ rfl) hr tail).mono fun _ hp => hedit rfl rfl hp
    | join spaced => exact (planJoin_yields hv (h₁ rfl) hr spaced tail).mono fun _ hp => hedit rfl rfl hp
    | move => exact (planMove_yields hv (h₁ rfl) hr tail).mono fun _ hp => hedit rfl rfl hp
    | copy => exact (planCopy_yields hv (h₁ rfl) hr tail).mono fun _ hp => hedit rfl rfl hp
    | label => exact (planLabel_yields tail _ _).mono fun _ hp => hkeep hp
    | substitute => exact (planSubstitute_yields hv (h₁ rfl) hr tail).mono fun _ hp => hkeep hp

end

end View

end LineEditor
