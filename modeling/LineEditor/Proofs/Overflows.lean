import LineEditor.Proofs.Counts
import LineEditor.Proofs.Gathering

/-!
# How high counts go

Between calls a line has no more references than a window and a record have lines. While a record is
made there are more: the lines of the window are shared before those of the old record are given
back. So a limit on lines that leaves room for a window and a record does not yet leave room for
every count on the way, as a window shows that has one line over and over.
-/

namespace LineEditor

/-! ## One line over and over -/

/-- A pool with one line, to which there are `n` references. -/
def Pool.one (text : Bytes) (n : Nat) : Pool := ⟨#[some ⟨text, n⟩], [], 1, by simp⟩

namespace Pool

section
variable {text : Bytes} {n : Nat}

theorem stored?_one (text : Bytes) (n : Nat) : (one text n).stored? 0 = some ⟨text, n⟩ := rfl

theorem retainAll_one [CountLimit] (k : Nat) (h : CountLimit.Holds (n + k)) :
    (one text n).retainAll (List.replicate k 0) = .ok (one text (n + k)) := by
  induction k generalizing n with
  | zero => rfl
  | succ k ih =>
    have hone : CountLimit.Holds (n + 1) := h.mono (by omega)
    rw [List.replicate_succ, retainAll_cons (retain_of_holds (stored?_one text n) hone)]
    have hrest := ih (n := n + 1) (h.mono (by omega))
    rw [Nat.add_assoc, Nat.add_comm 1 k] at hrest
    exact hrest

/-- Where there are more references than can be counted, one of them is the first too many. -/
theorem retainAll_one_full [CountLimit] (k : Nat) (hn : CountLimit.Holds n)
    (hfull : ¬CountLimit.Holds (n + k)) :
    (one text n).retainAll (List.replicate k 0) = .error (.countFull 0) := by
  induction k generalizing n with
  | zero => exact absurd hn hfull
  | succ k ih =>
    rw [List.replicate_succ]
    by_cases hone : CountLimit.Holds (n + 1)
    · rw [retainAll_cons (retain_of_holds (stored?_one text n) hone)]
      exact ih (n := n + 1) hone fun hk => hfull (hk.mono (by omega))
    · have hretain : (one text n).retain 0 = .error (.countFull 0) := if_neg hone
      simp only [retainAll, retainEach, hretain]

theorem releaseAll_one (k : Nat) (h : k < n) :
    (one text n).releaseAll (List.replicate k 0) = .ok (one text (n - k), 0) := by
  induction k generalizing n with
  | zero => rfl
  | succ k ih =>
    have hfirst := release_of_more (stored?_one text n) (show 1 < n by omega)
    have hrest := ih (n := n - 1) (by omega)
    rw [Nat.sub_sub, Nat.add_comm 1 k] at hrest
    exact releaseAll_cons hfirst hrest

end

end Pool

namespace Engine

/-- An engine whose window has one line `n` times, and whose record has it `m` times. -/
def repeating (limits : Limits) (text : Bytes) (n m : Nat) : Engine :=
  { Engine.new limits with
    pool := .one text (n + m)
    session.current :=
      { Window.empty 1 .none with
        dot := n
        lines := List.replicate n (.plain 0)
        flags.changed := true
        flags.hasUndo := true }
    session.undo.record := some ⟨1, m, .none, List.replicate m (.plain 0), false⟩ }

section
variable {limits : Limits} {text : Bytes} {n m : Nat}

theorem repeating_dol (limits : Limits) (text : Bytes) (n m : Nat) :
    (repeating limits text n m).window.dol = n := List.length_replicate

theorem handles_replicate (n : Nat) :
    LineMap.handles (List.replicate n (.plain 0)) = List.replicate n 0 := List.map_replicate

/-- The lines of the window are shared, and then those of the old record are given back. -/
theorem capture_repeating [CountLimit] (hne : m < n) :
    (repeating limits text n m).session.undo.capture (repeating limits text n m).window
        (repeating limits text n m).pool = (do
      let (lines, p) ← LineMap.share (List.replicate n (.plain 0)) (.one text (n + m))
      let (p, _) ← p.releaseAll (List.replicate m 0)
      return (⟨some (UndoSlot.recordOf (repeating limits text n m).window lines), 0⟩,
        (repeating limits text n m).window, p)) := by
  have hother : LineMap.sameLines (List.replicate m (.plain 0)) (List.replicate n (.plain 0)) = false := by
    unfold LineMap.sameLines
    rw [handles_replicate, handles_replicate, beq_eq_false_iff_ne]
    exact fun heq => Nat.ne_of_lt hne (by simpa using congrArg List.length heq)
  have hrelease (p : Pool) : UndoSlot.releaseRecord (some ⟨1, m, .none, List.replicate m (.plain 0),
      false⟩) p = Prod.fst <$> p.releaseAll (List.replicate m 0) := by
    rw [← handles_replicate]
    rfl
  unfold UndoSlot.capture
  show (if ((1 : Nat) = 1 && LineMap.sameLines (List.replicate m (.plain 0))
    (List.replicate n (.plain 0))) = true then _ else _) = _
  rw [hother, Bool.and_false, if_neg Bool.false_ne_true]
  show (LineMap.share (List.replicate n (.plain 0)) (.one text (n + m)) >>= fun r =>
    UndoSlot.releaseRecord (some ⟨1, m, .none, List.replicate m (.plain 0), false⟩) r.2 >>= _) = _
  refine bind_congr fun (lines, p) => ?_
  rw [hrelease, map_eq_pure_bind, bind_assoc]
  rfl

theorem share_replicate [CountLimit] (k : Nat) : LineMap.share (List.replicate n (.plain 0)) (.one text k) =
    (do return (List.replicate n (.plain 0), ← (Pool.one text k).retainAll (List.replicate n 0))) := by
  unfold LineMap.share
  rw [handles_replicate, LineMap.clearMarks, List.map_replicate]
  rfl

theorem snapshot_repeating [CountLimit] (hne : m < n) (hroom : CountLimit.Holds (n + m + n)) :
    EditM.snapshot.run.run (repeating limits text n m) = .ok (.ok (), repeating limits text n n) := by
  have hcapture : (repeating limits text n m).session.undo.capture (repeating limits text n m).window
      (repeating limits text n m).pool = .ok ((repeating limits text n n).session.undo,
        (repeating limits text n m).window, .one text (n + n)) := by
    rw [capture_repeating hne, share_replicate, Pool.retainAll_one n hroom]
    show (Pool.releaseAll (.one text (n + m + n)) (List.replicate m 0) >>= _) = _
    rw [Pool.releaseAll_one m (by omega), show n + m + n - m = n + n by omega]
    rfl
  unfold EditM.snapshot
  rw [run_get_bind, hcapture]
  rfl

/-- Where the references cannot be counted, they are too many before any are given back. -/
theorem snapshot_repeating_full [CountLimit] (hne : m < n) (hroom : CountLimit.Holds (n + m))
    (hfull : ¬CountLimit.Holds (n + m + n)) :
    EditM.snapshot.run.run (repeating limits text n m) = .error (.countFull 0) := by
  unfold EditM.snapshot
  rw [run_get_bind, capture_repeating hne, share_replicate, Pool.retainAll_one_full n hroom hfull]
  rfl

theorem splice_replicate (n : Nat) : LineMap.splice (List.replicate n (.plain 0)) n 0
    (List.replicate n (.plain 0)) = List.replicate (n + n) (.plain 0) := by
  unfold LineMap.splice
  rw [List.take_replicate, Nat.min_self, List.drop_replicate, Nat.add_zero, Nat.sub_self,
    List.replicate_zero, List.append_nil, List.replicate_append_replicate]

theorem unmark_removed_replicate (hpos : 0 < n) :
    (LineMap.removed (List.replicate n (.plain 0)) (1 - 1) (n - 1 + 1)).map Entry.unmark =
      List.replicate n (.plain 0) := by
  unfold LineMap.removed
  rw [Nat.sub_add_cancel hpos, Nat.sub_self, List.drop_zero, List.take_replicate, Nat.min_self,
    List.map_replicate]
  rfl

theorem remap_none (rule : Nat → Option Nat) : Labels.none.remap rule = .none := by
  unfold Labels.remap Labels.none
  rw [Vector.map_replicate]
  rfl

theorem splice_repeating : ((repeating limits text n m).window.splice n 0
    (List.replicate n (.plain 0))).setDot (n + n) = (repeating limits text (n + n) m).window := by
  unfold Window.splice Window.setDot repeating Engine.window
  simp only [splice_replicate, Window.empty, remap_none, WindowFlags.none, Bool.false_and]

theorem copyLines_repeating [CountLimit] (hpos : 0 < n) (hroom : CountLimit.Holds (n + m + n)) :
    (repeating limits text n m).window.copyLines (.one text (n + m)) 1 n n =
      .ok ((repeating limits text (n + n) m).window, .one text (n + m + n)) := by
  have hinside : ¬((1 : Nat) = 0 || n < 1 || n < n) = true := by
    simp only [Bool.or_eq_true, decide_eq_true_eq]
    omega
  have hcopies : ((repeating limits text n m).window.lines.removed (1 - 1) (n - 1 + 1)).map
      Entry.unmark = List.replicate n (.plain 0) := unmark_removed_replicate hpos
  have hexchange : (repeating limits text n m).window.exchange (.one text (n + m + n)) n 0
      (List.replicate n (.plain 0)) =
      .ok ((repeating limits text n m).window.splice n 0 (List.replicate n (.plain 0)),
        .one text (n + m + n), 0) := by
    rw [Window.exchange_eq, repeating_dol, if_neg (show ¬n < n + 0 from Nat.lt_irrefl n)]
    rfl
  unfold Window.copyLines
  rw [repeating_dol, if_neg hinside, hcopies]
  show (Pool.retainAll (.one text (n + m)) (LineMap.handles (List.replicate n (.plain 0))) >>= _) = _
  rw [handles_replicate, Pool.retainAll_one n hroom]
  show ((repeating limits text n m).window.exchange (.one text (n + m + n)) n 0 _ >>= _) = _
  rw [hexchange]
  show Except.ok (((repeating limits text n m).window.splice n 0 _).setDot
    (n + (List.replicate n (Entry.plain 0)).length), Pool.one text (n + m + n)) = _
  rw [List.length_replicate, splice_repeating]

theorem edit_repeating [CountLimit] (hpos : 0 < n) (hroom : CountLimit.Holds (n + m + n)) :
    (EditM.edit (.copy 1 n n)).run.run (repeating limits text n m) =
      .ok (.ok (), repeating limits text (n + n) m) := by
  have hperform : (Edit.copy 1 n n).perform (repeating limits text n m).window
      (repeating limits text n m).pool = _ := copyLines_repeating hpos hroom
  unfold EditM.edit EditM.onWindow
  rw [bind_assoc, run_get_bind]
  dsimp only
  rw [hperform, show n + m + n = n + n + m by omega]
  rfl

/-- A command for the whole text. -/
theorem located_repeating (c : LineCommand) (tail : List Char) (hpos : 0 < n)
    (hc : ∀ r, effectiveRange n n false (some (.line c)) (some r) = .ok r) :
    (repeating limits text n m).located ⟨some (.line c), .whole, tail⟩ =
      some (⟨1, n, 2⟩, (repeating limits text n m).begun (some (.line c))) := by
  have hdol : (repeating limits text n m).view.window.dol = n := repeating_dol limits text n m
  have hrange : (repeating limits text n m).view.range .whole = pure (some ⟨1, n, 2⟩) := by
    unfold View.range View.ordered
    rw [hdol, show min n 1 = 1 by omega, if_neg (by omega)]
  refine located_eq_some.mpr ⟨(repeating limits text n m).remembered, ?_, rfl⟩
  unfold View.locate
  rw [hrange, pure_bind, hdol, show (repeating limits text n m).view.window.dot = n from rfl, hc]
  rfl

theorem plan_repeating (hpos : 0 < n) (hlines : n + n ≤ limits.lines) (hmost : n ≤ Number.maxOffset) :
    Ends ((repeating limits text n m).view.plan (some .copy) ⟨1, n, 2⟩ ['$'])
      (repeating limits text n m).remembered fun answer r =>
        answer = .ok (.edit (.copy 1 n n) true none) ∧ r = (repeating limits text n m).remembered := by
  have hparse : Address.parse (Unicode.trimStart ['$']) = .ok (some (⟨.dol, 0⟩, [])) := by decide +kernel
  have hprint : printSuffix LineCommand.copy.letter [] = .ok none := by decide
  have hdol : (repeating limits text n m).view.window.dol = n := repeating_dol limits text n m
  unfold View.plan View.planCopy View.destination
  rw [Address.lift_read, bind_assoc, ends_bind, ends_liftExcept, hparse, Post.after_ok]
  dsimp only
  rw [bind_assoc, ends_bind, ends_liftExcept, hprint, Post.after_ok, bind_assoc]
  have hlast := @View.address_edge (repeating limits text n m).view false (fun _ => hdol.symm ▸ hmost)
    n (repeating limits text n m).remembered
  refine hlast.sure_then ?_
  rintro _ _ ⟨rfl, rfl⟩
  rw [pure_bind]
  dsimp only
  rw [ends_difference hpos, show n - 1 + 1 = n by omega]
  unfold View.checkCapacity
  rw [ends_check, hdol]
  refine ⟨fun hfull => absurd hlines (Nat.not_le.mpr hfull), fun _ => ends_pure.mpr ⟨?_, rfl⟩⟩
  rfl

/-- A command that is not run for each of some lines records the window before its edit. -/
theorem run_runLine_edit [CountLimit] {e : Engine} {c : LineCommand} {range : LineRange}
    {tail : List Char} {change : Edit} {shape : Bool}
    (hplan : (e.view.plan (some c) range tail).run.run e.remembered =
      .ok (.ok (.edit change shape none), e.remembered)) :
    (EditM.runLine false (some c) range tail).run.run e = (do
      EditM.snapshot
      EditM.edit change
      return Report.ofEdit shape [] : EditM Report).run.run e := by
  unfold EditM.runLine
  rw [run_bind, EditM.run_query, hplan]
  rfl

theorem perform_line [CountLimit] {e : Engine} {line : List Char} {x : EditM Report}
    (hline : (EditM.dispatch line).run.run e = (.done <$> x).run.run e)
    (storage : Storage σ) (disk : σ) : e.perform (.line storage disk line) = e.after x := by
  unfold Engine.perform Engine.after Engine.run
  dsimp only
  rw [EditM.dispatchOn_eq_concluded, hline, run_map]
  cases x.run.run e with
  | error b => rfl
  | ok r =>
    obtain ⟨answer, e'⟩ := r
    cases answer <;> rfl

section
variable [CountLimit] {σ : Type} (storage : Storage σ) (disk : σ)

/-- The copies of all lines come behind them. -/
theorem perform_repeating (hne : m < n) (hlines : n + n ≤ limits.lines)
    (hmost : n ≤ Number.maxOffset) (hroom : CountLimit.Holds (n + n + n)) :
    (repeating limits text n m).perform (.line storage disk ['%', 't', '$']) =
      .ok (repeating limits text (n + n) n) := by
  have hpos := Nat.zero_lt_of_lt hne
  have hasks : (repeating limits text n m).asks ['%', 't', '$'] =
      some ⟨some (.line .copy), .whole, ['$']⟩ := rfl
  have hlocated : (repeating limits text n m).located ⟨some (.line .copy), .whole, ['$']⟩ =
      some (⟨1, n, 2⟩, repeating limits text n m) :=
    located_repeating .copy ['$'] hpos fun _ => rfl
  obtain ⟨⟨_, _⟩, hplan, rfl, rfl⟩ := @plan_repeating limits text n m hpos hlines hmost
  rw [perform_line (EditM.run_dispatch_located hasks hlocated rfl), Engine.after, Engine.run,
    run_runLine_edit hplan, run_bind, snapshot_repeating hne (hroom.mono (by omega))]
  show ((EditM.edit (.copy 1 n n) >>= _).run.run (repeating limits text n n) >>= _) = _
  rw [run_bind, edit_repeating hpos hroom]
  rfl

/-- Nothing can be changed where there is no room for the lines of a new record. -/
theorem perform_repeating_full (hne : m < n) (hroom : CountLimit.Holds (n + m))
    (hfull : ¬CountLimit.Holds (n + m + n)) :
    (repeating limits text n m).perform (.line storage disk ['%', 'd']) = .error (.countFull 0) := by
  have hasks : (repeating limits text n m).asks ['%', 'd'] =
      some ⟨some (.line .delete), .whole, []⟩ := rfl
  have hlocated : (repeating limits text n m).located ⟨some (.line .delete), .whole, []⟩ =
      some (⟨1, n, 2⟩, repeating limits text n m) :=
    located_repeating .delete [] (Nat.zero_lt_of_lt hne) fun _ => rfl
  rw [perform_line (EditM.run_dispatch_located hasks hlocated rfl), Engine.after, Engine.run,
    run_runLine_edit rfl, run_bind, snapshot_repeating_full hne hroom hfull]
  rfl

/-- By induction on the commands that are left, each of which copies twice as many lines as the one
before. -/
theorem performAll_repeating (k : Nat) (hne : m < n) (hfit : 2 ^ (k + 1) * n ≤ limits.lines)
    (hmost : limits.lines ≤ Number.maxOffset)
    (hroom : CountLimit.Holds (2 * limits.lines)) :
    (repeating limits text n m).performAll (List.replicate (k + 1) (.line storage disk ['%', 't', '$'])) =
      .ok (repeating limits text (2 ^ (k + 1) * n) (2 ^ k * n)) := by
  induction k generalizing n m with
  | zero =>
    have htwice : 2 ^ (0 + 1) * n = n + n := by omega
    rw [htwice] at hfit ⊢
    have hfirst : (repeating limits text n m).perform (.line storage disk ['%', 't', '$']) = _ :=
      perform_repeating storage disk hne hfit (by omega) (hroom.mono (by omega))
    rw [zero_add, List.replicate_one, pow_zero, Nat.one_mul]
    unfold performAll
    rw [hfirst]
    rfl
  | succ k ih =>
    have hpow (j : Nat) : 2 ^ (j + 1) * n = 2 ^ j * (n + n) := by rw [pow_succ, Nat.mul_assoc, Nat.two_mul]
    have hdouble : n + n ≤ limits.lines :=
      Nat.le_trans (Nat.le_mul_of_pos_left _ (Nat.two_pow_pos (k + 1))) (hpow (k + 1) ▸ hfit)
    have hfirst : (repeating limits text n m).perform (.line storage disk ['%', 't', '$']) = _ :=
      perform_repeating storage disk hne hdouble (by omega) (hroom.mono (by omega))
    rw [List.replicate_succ]
    unfold performAll
    rw [hfirst, hpow, hpow]
    exact ih (by omega) (hpow (k + 1) ▸ hfit)

/-- In the end there is no room for the references of a new record. -/
theorem performAll_repeating_full (k : Nat) {e : Engine} {calls : List Call}
    (hrun : e.performAll calls = .ok (repeating limits text n m)) (hne : m < n)
    (hfit : 2 ^ (k + 1) * n ≤ limits.lines) (hmost : limits.lines ≤ Number.maxOffset)
    (hroom : CountLimit.Holds (2 * limits.lines))
    (hfull : ¬CountLimit.Holds (2 ^ (k + 1) * n + 2 ^ k * n + 2 ^ (k + 1) * n)) :
    e.performAll (calls ++ (List.replicate (k + 1) (.line storage disk ['%', 't', '$']) ++
      [.line storage disk ['%', 'd']])) = .error (.countFull 0) := by
  have hless : 2 ^ k * n < 2 ^ (k + 1) * n :=
    Nat.mul_lt_mul_of_pos_right (Nat.pow_lt_pow_right Nat.one_lt_two k.lt_succ_self)
      (Nat.zero_lt_of_lt hne)
  have hlast : (repeating limits text (2 ^ (k + 1) * n) (2 ^ k * n)).perform
      (.line storage disk ['%', 'd']) = .error (.countFull 0) :=
    perform_repeating_full storage disk hless (hroom.mono (by omega)) hfull
  rw [performAll_append, hrun]
  show (repeating limits text n m).performAll (_ ++ _) = _
  rw [performAll_append, performAll_repeating storage disk k hne hfit hmost hroom]
  show ((repeating limits text _ _).perform _ >>= _) = _
  rw [hlast]
  rfl

end

end

/-- A stored line is of one window: no other window names it, and no record of another one. A window
and a record have no more lines than the limit, which bounds the references to the line after each
call. On the way there may be references to the lines of one more window, so if three times the limit
can be counted in 32 bits, no count is ever too high. -/
theorem lines_unshared (limits : Limits) (calls : List Call) :
    ∃ e, (Engine.new limits).performAll calls = .ok e ∧
      (∀ w ∈ e.windows, ∀ w' ∈ e.windows, ∀ x, e.Names w.id x → e.Names w'.id x → w = w') ∧
      (∀ x, e.pool.refs x ≤ 2 * limits.lines) ∧
      (3 * limits.lines < 2 ^ 32 → @performAll .bits32 (Engine.new limits) calls = .ok e) := by
  obtain ⟨e, hrun, -⟩ := (steady_new limits).performAll calls
  have h := (Reachable.new limits).performAll hrun
  refine ⟨e, hrun, fun w hw w' hw' x hx hx' => ?_, fun x => ?_, fun hlimit => ?_⟩
  · exact h.shelved.eq_of_id_eq hw' hw (h.owned.keeps_private x _ _ hx hx')
  · rw [← limits_performAll hrun]
    exact h.owned.refs_le h.proper x
  · have hmost : @CountLimit.Holds .bits32 (3 * limits.lines) := by
      rintro most ⟨⟩
      exact Nat.le_pred_of_lt hlimit
    exact (@performAll_bounded .bits32 limits hmost [] calls _ rfl).trans hrun

/-- A line is copied twice; its window has it three times, its record twice, and the window on top
has it not. -/
theorem lines_unshared_copies : ∃ e, (Engine.new ⟨1, 3, 100⟩).performAll
      [.insertBulk 0 [97], .line FileTree.storage .empty ['t', '1'],
        .line FileTree.storage .empty ['t', '1'], .pushWindow .none, .insertBulk 0 [98]] = .ok e ∧
    e.Names 1 0 ∧ e.Names 2 1 ∧ ¬ e.Names 2 0 ∧ e.pool.refs 0 = 5 ∧ e.pool.refs 0 ≤ 6 ∧
    @performAll .bits32 (Engine.new ⟨1, 3, 100⟩)
      [.insertBulk 0 [97], .line FileTree.storage .empty ['t', '1'],
        .line FileTree.storage .empty ['t', '1'], .pushWindow .none, .insertBulk 0 [98]] = .ok e := by
  obtain ⟨e, hstart, hapart, hcount, hfits⟩ := lines_unshared ⟨1, 3, 100⟩
    [.insertBulk 0 [97], .line FileTree.storage .empty ['t', '1'],
      .line FileTree.storage .empty ['t', '1'], .pushWindow .none, .insertBulk 0 [98]]
  have hvalues : ((Engine.new ⟨1, 3, 100⟩).performAll
      [.insertBulk 0 [97], .line FileTree.storage .empty ['t', '1'],
        .line FileTree.storage .empty ['t', '1'], .pushWindow .none, .insertBulk 0 [98]]).map
      (fun e => (e.windows.map fun w => (w.id, w.lines.handles), e.pool.refs 0)) =
      .ok ([(1, [0, 0, 0]), (2, [1])], 5) := by decide +kernel
  rw [hstart] at hvalues
  obtain ⟨hwindows, hrefs⟩ := Prod.mk.inj (Except.ok.inj hvalues)
  have hmem {n : Nat} {handles : List Handle} (h : (n, handles) ∈ [(1, [0, 0, 0]), (2, [1])]) :
      ∃ w ∈ e.windows, w.id = n ∧ w.lines.handles = handles := by
    rw [← hwindows] at h
    obtain ⟨w, hw, heq⟩ := List.mem_map.mp h
    exact ⟨w, hw, Prod.mk.inj heq⟩
  obtain ⟨w, hw, hid, hlines⟩ := hmem List.mem_cons_self
  obtain ⟨w', hw', hid', hlines'⟩ := hmem (List.mem_cons_of_mem _ List.mem_cons_self)
  have hnames : e.Names 1 0 := .inl ⟨w, hw, hid, by rw [hlines]; decide⟩
  refine ⟨e, hstart, hnames, .inl ⟨w', hw', hid', by rw [hlines']; decide⟩, fun hboth => ?_, hrefs,
    hcount 0, hfits (by decide)⟩
  have hsame := hapart w hw w' hw' 0 (hid ▸ hnames) (hid' ▸ hboth)
  rw [hsame, hid'] at hid
  cases hid

/-- A line is copied until the window has it seven times two to the 28th, which is all that the limit
allows, and the record half as often. There is no room for the references of a new record. -/
theorem counts_overflow : 7 * 2 ^ 28 < 2 ^ 31 ∧
    @performAll .bits32 (Engine.new ⟨1, 7 * 2 ^ 28, 100⟩)
      (.insertBulk 0 [97, 10] ::
        [['%', 't', '$'], ['1', 't', '$'], ['%', 't', '$'], ['1', 't', '$']].map
          (.line FileTree.storage .empty) ++
        (List.replicate 28 (.line FileTree.storage .empty ['%', 't', '$']) ++
          [.line FileTree.storage .empty ['%', 'd']])) = .error (.countFull 0) := by
  have hholds {k : Nat} : @CountLimit.Holds .bits32 k ↔ k ≤ 2 ^ 32 - 1 :=
    ⟨fun h => h _ rfl, fun h most hm => Option.some.inj hm ▸ h⟩
  have hstart : @performAll .bits32 (Engine.new ⟨1, 7 * 2 ^ 28, 100⟩) (.insertBulk 0 [97, 10] ::
      [['%', 't', '$'], ['1', 't', '$'], ['%', 't', '$'], ['1', 't', '$']].map
        (.line FileTree.storage .empty)) = .ok (repeating ⟨1, 7 * 2 ^ 28, 100⟩ [97] 7 6) := by
    decide +kernel
  exact ⟨by decide, @performAll_repeating_full ⟨1, 7 * 2 ^ 28, 100⟩ [97] 7 6 .bits32 _ FileTree.storage
    .empty 27 _ _ hstart (by decide) (by decide) (by decide) (hholds.mpr (by decide))
    (mt hholds.mp (by decide))⟩

end Engine

end LineEditor
