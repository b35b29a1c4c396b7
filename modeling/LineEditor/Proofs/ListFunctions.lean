import LineEditor.Proofs.Located

/-!
# Deleting, joining, moving and copying

A command that deletes, joins, moves or copies lines computes a list of lines from another, and a
place in it. The functions are given here on lists, without windows, pools or labels; the main
statement is that in a window for editing the commands do just that, or fail with the error of the
function and leave the lines as they are.
-/

namespace LineEditor

namespace Sequence

/-- Lines that are moved next to where they are stay there. -/
theorem move_beside {α : Type} (l : List α) {start stop after : Nat} (h₁ : 1 ≤ start)
    (hs : start ≤ stop) (hstop : stop ≤ l.length) (hbeside : after = stop ∨ after + 1 = start) :
    move l start stop after = l := by
  have hplace : (if stop ≤ after then after - (stop - start + 1) else after) = start - 1 := by
    split <;> omega
  have hfront : (l.take (start - 1)).length = start - 1 := List.length_take_of_le (by omega)
  unfold move
  dsimp only
  rw [hplace, List.take_left' hfront, List.drop_left' hfront, List.append_assoc,
    run_append_drop l h₁ hs, List.take_append_drop]

end Sequence

/-- The functions of lists that commands compute. Lines are moved or copied behind line `after`. -/
inductive ListFunction where
  | delete
  | join (spaced : Bool)
  | move (after : Nat)
  | copy (after : Nat)
  deriving Repr, DecidableEq

namespace ListFunction

/-- The list with lines `start` to `stop` deleted, joined, moved or copied, and the line that is
current afterwards. -/
def compute (limits : Limits) (l : List Bytes) (start stop : Nat) :
    ListFunction → Except EditError (List Bytes × Nat)
  | delete => .ok (l.take (start - 1) ++ l.drop stop, min start (l.length - (stop - start + 1)))
  | join spaced =>
    let joined := List.intercalate (if spaced then [32] else []) (Sequence.run l start stop)
    if start = stop then .ok (l, start)
    else if limits.lineLength < joined.length then .error (.resultTooLong limits.lineLength)
    else .ok (l.take (start - 1) ++ [joined] ++ l.drop stop, start)
  | move after =>
    if start ≤ after ∧ after < stop then .error .destinationInRange
    else .ok (Sequence.move l start stop after,
      if stop ≤ after then after else after + (stop - start + 1))
  | copy after =>
    if limits.lines < l.length + (stop - start + 1) then .error (.tooManyLines limits.lines)
    else .ok (l.take after ++ Sequence.run l start stop ++ l.drop after,
      after + (stop - start + 1))

/-- The function that a command stands for, when what follows its letter is read. -/
def read? (v : View) (tail : List Char) : LineCommand → Option (Query ListFunction)
  | .delete => some (do
    let _ ← liftExcept (printSuffix LineCommand.delete.letter tail)
    return delete)
  | .join spaced => some (do
    let _ ← liftExcept (printSuffix (LineCommand.join spaced).letter tail)
    return join spaced)
  | .move => some (do
    let found ← v.destination .move tail
    return move found.1)
  | .copy => some (do
    let found ← v.destination .copy tail
    return copy found.1)
  | _ => none

end ListFunction

/-- The lines and dot of the window are those that came out of `lines`; or the answer is the error
that came out, and the lines are as they were. -/
def Engine.Gives (lines : List Bytes) (outcome : Except EditError (List Bytes × Nat)) :
    Post Engine Report
  | answer, e => match outcome with
    | .ok (new, dot) => (∃ report, answer = .ok report) ∧
      e.window.texts e.pool 1 e.window.dol = .ok new ∧ e.window.dot = dot
    | .error err => answer = .error err ∧ e.window.texts e.pool 1 e.window.dol = .ok lines

/-! ## Where dot is after an edit -/

namespace Window

section
variable {w w' : Window} {p p' : Pool} {start stop after : Nat}

theorem deleteLines_dot (h : w.deleteLines p start stop = .ok (w', p')) :
    w'.dot = min start (w.dol - (stop - start + 1)) := by
  obtain ⟨hfit, rfl⟩ := deleteLines_eq_ok h
  exact congrArg (min start) (dol_splice [] hfit)

theorem replaceLines_dot {lines : List Bytes} (hne : lines ≠ [])
    (h : w.replaceLines p start stop lines = .ok (w', p')) : w'.dot = start - 1 + lines.length := by
  obtain ⟨new, -, -, -, rfl⟩ := replaceLines_eq_ok hne h
  rfl

theorem copyLines_dot (h : w.copyLines p start stop after = .ok (w', p')) :
    w'.dot = after + (stop - start + 1) := by
  obtain ⟨⟨h₁, hs, hstop⟩, -, rfl⟩ := copyLines_eq_ok h
  exact congrArg (after + ·) (Sequence.length_run w.lines h₁ hs hstop)

theorem moveLines_dot (h : w.moveLines start stop after = .ok w') :
    w'.dot = if stop ≤ after then after else after + (stop - start + 1) := by
  rw [moveLines_eq_ok h]
  rfl

end

end Window

namespace EditM

section
variable {e : Engine} {range : LineRange} {tail : List Char}

/-! ## What carrying out a plan gives -/

theorem carryOut_edit_gives (h : e.Ready) {change : Edit} (hfit : change.Fits e.window.dol)
    (shape : Bool) (print : Option PrintStyle) {new : List Bytes} {dot : Nat} (lines : List Bytes)
    (hnew : (change.rows (e.pool.rows e.window.lines)).map Row.text = new)
    (hdot : ∀ {w w' : Window} {p p' : Pool}, w.lines = e.window.lines →
      change.perform w p = .ok (w', p') → w'.dot = dot) :
    Ends (carryOut false (.edit change shape print)) e (Engine.Gives lines (.ok (new, dot))) := by
  refine (carryOut_edit_ends h hfit shape print).of_sure fun report e' hre => ⟨⟨report, rfl⟩, ?_, ?_⟩
  · rw [hre.held.texts_eq, Pool.texts, hre.rows_eq, hnew]
  · obtain ⟨p, w, hrun, hwindow⟩ := hre.performed
    have hnote : w.noteEdit.dot = w.dot := by rw [Window.noteEdit_eq]
    rw [hwindow, hnote]
    refine hdot ?_ hrun
    rfl

theorem carryOut_look_gives (h : e.Ready) {n : Nat} (hn : n ≤ e.window.dol) (output : List String)
    (lines : List Bytes) : Ends (carryOut false (.look (some n) output)) e
      (Engine.Gives lines (.ok (e.pool.texts e.window.lines, n))) := by
  refine (carryOut_look_eq hn output).of_sure fun report e' heq => ⟨⟨report, rfl⟩, ?_, ?_⟩
  · subst heq
    exact h.toSteady.toHeld.texts_eq
  · rw [heq]
    rfl

/-- To go to a line is to look at it, and to print it if that is asked for. -/
theorem planGoto_ends {v : View} (hv : v.Readable) (n : Nat) (print : Option PrintStyle) (r : Recall) :
    Ends (v.planGoto n print) r (.sure fun plan r' => r' = r ∧ ∃ output, plan = .look (some n) output) := by
  unfold View.planGoto
  cases print with
  | none => exact ends_pure.mpr ⟨rfl, _, rfl⟩
  | some style =>
    rw [ends_bind, ends_lift]
    exact (hv.render n style).mono fun output _ => ends_pure.mpr ⟨rfl, output, rfl⟩

/-! ## Each command computes its function -/

/-- A plan, when it is carried out, gives what the function computes; an error found is that of the
function. -/
def Plans (e : Engine) (range : LineRange) (f : ListFunction) : Post Recall Plan
  | .ok plan, r => Ends (carryOut false plan) (e.withRecall r)
    (Engine.Gives (e.pool.texts e.window.lines)
      (f.compute e.limits (e.pool.texts e.window.lines) range.start range.stop))
  | .error err, _ =>
    f.compute e.limits (e.pool.texts e.window.lines) range.start range.stop = .error err

theorem plans_ok {e : Engine} {range : LineRange} {f : ListFunction} {plan : Plan} {r : Recall}
    {outcome : List Bytes × Nat} (hcompute : f.compute e.limits (e.pool.texts e.window.lines)
      range.start range.stop = .ok outcome)
    (hdone : Ends (carryOut false plan) (e.withRecall r)
      (Engine.Gives (e.pool.texts e.window.lines) (.ok outcome))) :
    Plans e range f (.ok plan) r := by
  unfold Plans
  rw [hcompute]
  exact hdone

/-- The command gives what the function does that was read. -/
def Computes (e : Engine) (range : LineRange) (reading : Query ListFunction) : Post Engine Report :=
  fun answer e' => ∃ found r, reading.run.run e.remembered = .ok (found, r) ∧
    Engine.Gives (e.pool.texts e.window.lines) (found.bind fun f =>
      f.compute e.limits (e.pool.texts e.window.lines) range.start range.stop) answer e'

/-- First a command is read, and then planned. -/
theorem runLine_computes_of (h : e.Held) {c : LineCommand} {read : Query α} {f : α → ListFunction}
    {P : α → Prop} {plan : α → Query Plan} (hplan : e.view.plan (some c) range tail = read >>= plan)
    (hread : read.Yields P) (hdone : ∀ a, P a → ∀ r, Ends (plan a) r (Plans e range (f a))) :
    Ends (runLine false (some c) range tail) e
      (Computes e range (read >>= fun a => pure (f a))) := by
  obtain ⟨⟨found, r⟩, hrun, -, hfound⟩ := hread e.remembered
  have hends : Ends read e.remembered fun answer r' => answer = found ∧ r' = r :=
    ⟨_, hrun, rfl, rfl⟩
  have hreading : (read >>= fun a => pure (f a)).run.run e.remembered =
      .ok (found.map f, r) := by
    rw [run_bind, hrun]
    cases found with
    | ok a => rfl
    | error err => rfl
  unfold runLine
  rw [ends_bind, ends_query, hplan]
  refine hends.then ?_ ?_
  · rintro a _ ⟨rfl, rfl⟩
    refine (hdone a hfound _).mono fun answer r' hp => ?_
    cases answer with
    | ok plan => exact hp.mono fun _ _ hg => ⟨_, _, hreading, hg⟩
    | error err =>
      refine ⟨_, _, hreading, ?_⟩
      have herr : (f a).compute e.limits _ range.start range.stop = .error err := hp
      show Engine.Gives _ ((f a).compute _ _ _ _) _ _
      rw [herr]
      exact ⟨rfl, h.texts_eq⟩
  · rintro err _ ⟨rfl, rfl⟩
    exact ⟨_, _, hreading, rfl, h.texts_eq⟩

section
variable (h : e.Ready) (h₁ : 1 ≤ range.start) (hr : range.Within e.window.dol)
include h h₁ hr

theorem delete_plans (print : Option PrintStyle) (r : Recall) :
    Ends (pure (.edit (.delete range.start range.stop) true print)) r (Plans e range .delete) := by
  have hfit : (Edit.delete range.start range.stop).Fits e.window.dol := ⟨h₁, hr.le, hr.stop_le⟩
  have hend : range.start - 1 + (range.stop - range.start + 1) = range.stop := by
    have := hr.le
    omega
  refine ends_pure.mpr (carryOut_edit_gives (h.withRecall r) hfit true print _ ?_ ?_)
  · show (Sequence.splice _ _ _ []).map Row.text = _
    rw [Sequence.map_splice, Sequence.splice, hend, List.map_nil, List.append_nil]
    rfl
  · intro w w' p p' hlines hrun
    rw [Window.deleteLines_dot hrun, Window.dol, hlines, Pool.length_texts]
    rfl

theorem join_plans (spaced : Bool) (print : Option PrintStyle) (r : Recall) :
    Ends (if range.start = range.stop then e.view.planGoto range.start print
      else do
        let texts ← e.view.window.texts e.view.pool range.start range.stop
        let joined := List.intercalate (if spaced then [32] else []) texts
        if e.view.limits.lineLength < joined.length then
          throw (.resultTooLong e.view.limits.lineLength)
        return .edit (.replace range.start range.stop [joined]) true print)
      r (Plans e range (.join spaced)) := by
  have hheld := h.toSteady.toHeld
  have hend : range.start - 1 + (range.stop - range.start + 1) = range.stop := by
    have := hr.le
    omega
  by_cases hone : range.start = range.stop
  · rw [if_pos hone]
    refine (planGoto_ends hheld.readable range.start print r).of_sure ?_
    rintro _ _ ⟨rfl, output, rfl⟩
    have hin : range.start ≤ e.window.dol := Nat.le_trans hr.le hr.stop_le
    refine plans_ok (if_pos hone) (carryOut_look_gives (h.withRecall _) hin output _)
  · have htexts : e.view.window.texts e.view.pool range.start range.stop = _ :=
      hheld.texts_run hr.le
    rw [if_neg hone, ends_bind, ends_lift, htexts, Succeeds.ok_iff, Post.after_ok]
    dsimp only
    generalize hjoined : List.intercalate _ (Sequence.run _ _ _) = joined
    have hcompute : (ListFunction.join spaced).compute e.limits (e.pool.texts e.window.lines)
        range.start range.stop = if e.limits.lineLength < joined.length then
          .error (.resultTooLong e.limits.lineLength)
        else .ok ((e.pool.texts e.window.lines).take (range.start - 1) ++ [joined] ++
          (e.pool.texts e.window.lines).drop range.stop, range.start) := by
      rw [← hjoined]
      exact if_neg hone
    split
    · rename_i hlong
      exact ends_throw.mpr (hcompute.trans (if_pos hlong))
    · rename_i hfits
      have hfit : (Edit.replace range.start range.stop [joined]).Fits e.window.dol :=
        ⟨h₁, hr.le, hr.stop_le⟩
      refine ends_pure.mpr (plans_ok (hcompute.trans (if_neg hfits))
        (carryOut_edit_gives (h.withRecall r) hfit true print _ ?_ ?_))
      · show (Sequence.splice _ _ _ _).map Row.text = _
        rw [Sequence.map_splice, Sequence.splice, hend, Row.map_text_plain]
        rfl
      · intro w w' p p' _ hrun
        have hdot := Window.replaceLines_dot (List.cons_ne_nil joined []) hrun
        rw [hdot, List.length_singleton]
        omega

theorem move_plans {after : Nat} (hafter : after ≤ e.window.dol) (print : Option PrintStyle)
    (r : Recall) : Ends (do
        if range.start ≤ after && after < range.stop then throw .destinationInRange
        if after = range.stop || after + 1 = range.start then e.view.planGoto range.stop print
        else return .edit (.move range.start range.stop after) true print)
      r (Plans e range (.move after)) := by
  have hheld := h.toSteady.toHeld
  have hs := hr.le
  have hlen : (e.pool.texts e.window.lines).length = e.window.dol := Pool.length_texts _ _
  simp only [Bool.and_eq_true, Bool.or_eq_true, decide_eq_true_eq]
  split
  · rename_i hin
    exact ends_throw.mpr (if_pos hin)
  · rename_i hout
    have hcompute : (ListFunction.move after).compute e.limits (e.pool.texts e.window.lines)
        range.start range.stop = .ok (Sequence.move (e.pool.texts e.window.lines) range.start
          range.stop after, if range.stop ≤ after then after
            else after + (range.stop - range.start + 1)) := if_neg hout
    split
    · rename_i hbeside
      have hdot : (if range.stop ≤ after then after else after + (range.stop - range.start + 1)) =
          range.stop := by
        split <;> omega
      rw [Sequence.move_beside _ h₁ hs (by rw [hlen]; exact hr.stop_le) hbeside, hdot] at hcompute
      refine (planGoto_ends hheld.readable range.stop print r).of_sure ?_
      rintro _ _ ⟨rfl, output, rfl⟩
      exact plans_ok hcompute (carryOut_look_gives (h.withRecall _) hr.stop_le output _)
    · have hfit : (Edit.move range.start range.stop after).Fits e.window.dol :=
        ⟨h₁, hs, hr.stop_le, hafter, hout⟩
      refine ends_pure.mpr (plans_ok hcompute
        (carryOut_edit_gives (h.withRecall r) hfit true print _ ?_ ?_))
      · exact Sequence.map_move Row.text _ _ _ _
      · intro w w' p p' _ hrun
        obtain ⟨w₁, hmove, heq⟩ := bind_eq_ok.mp hrun
        cases heq
        exact Window.moveLines_dot hmove

theorem copy_plans {after : Nat} (hafter : after ≤ e.window.dol) (print : Option PrintStyle)
    (r : Recall) : Ends (do
        let behind ← difference range.stop range.start
        liftExcept (e.view.checkCapacity (behind + 1))
        return .edit (.copy range.start range.stop after) true print)
      r (Plans e range (.copy after)) := by
  have hlen : (e.pool.texts e.window.lines).length = e.window.dol := Pool.length_texts _ _
  have hcompute : (ListFunction.copy after).compute e.limits (e.pool.texts e.window.lines)
      range.start range.stop = if e.limits.lines < e.window.dol + (range.stop - range.start + 1) then
        .error (.tooManyLines e.limits.lines)
      else .ok ((e.pool.texts e.window.lines).take after ++
        Sequence.run (e.pool.texts e.window.lines) range.start range.stop ++
        (e.pool.texts e.window.lines).drop after, after + (range.stop - range.start + 1)) := by
    rw [← hlen]
    rfl
  rw [ends_difference hr.le]
  refine ends_check.mpr ⟨fun hfull => hcompute.trans (if_pos hfull), fun hroom => ?_⟩
  have hfit : (Edit.copy range.start range.stop after).Fits e.window.dol :=
    ⟨h₁, hr.le, hr.stop_le, hafter⟩
  refine ends_pure.mpr (plans_ok (hcompute.trans (if_neg hroom))
    (carryOut_edit_gives (h.withRecall r) hfit true print _ ?_ ?_))
  · show (Sequence.splice _ _ _ _).map Row.text = _
    rw [Sequence.map_splice, List.map_map, Sequence.map_run]
    rfl
  · intro w w' p p' _ hrun
    exact Window.copyLines_dot hrun

end

theorem runLine_computes (h : e.Ready) (h₁ : 1 ≤ range.start) (hr : range.Within e.window.dol)
    {c : LineCommand} {reading : Query ListFunction}
    (hread : ListFunction.read? e.view tail c = some reading) :
    Ends (runLine false (some c) range tail) e (Computes e range reading) := by
  have hheld := h.toSteady.toHeld
  cases c with
  | delete =>
    obtain rfl := Option.some.inj hread
    exact runLine_computes_of hheld rfl (.liftExcept (printSuffix_reads _ tail)) fun print _ =>
      delete_plans h h₁ hr print
  | join spaced =>
    obtain rfl := Option.some.inj hread
    exact runLine_computes_of hheld rfl (.liftExcept (printSuffix_reads _ tail)) fun print _ =>
      join_plans h h₁ hr spaced print
  | move =>
    obtain rfl := Option.some.inj hread
    exact runLine_computes_of hheld rfl (View.destination_yields hheld.readable .move tail)
      fun found hfound => move_plans h h₁ hr hfound found.2
  | copy =>
    obtain rfl := Option.some.inj hread
    exact runLine_computes_of hheld rfl (View.destination_yields hheld.readable .copy tail)
      fun found hfound => copy_plans h h₁ hr hfound found.2
  | _ => cases hread

end

end EditM

namespace Engine

/-- In a window for editing, the lines of a command that deletes, joins, moves or copies are what its
function computes of them; where the function has an error, that is the answer, and no line is
changed. -/
theorem Reachable.computes_list {e e₁ : Engine} (h : e.Reachable) (hmode : e.window.mode = .normal)
    {line : List Char} {q : Request} {range : LineRange} {c : LineCommand}
    {reading : Query ListFunction} (hq : e.asks line = some q)
    (hloc : e.located q = some (range, e₁)) (hc : q.command = some (.line c))
    (hread : ListFunction.read? e₁.view q.tail c = some reading) (s : Storage σ) (disk : σ) :
    (1 ≤ range.start ∧ range.start ≤ range.stop ∧ range.stop ≤ e.window.dol) ∧
      ∃ lines found r answer e', e.window.texts e.pool 1 e.window.dol = .ok lines ∧
        reading.run.run e₁.remembered = .ok (found, r) ∧
        e.dispatchOn s line disk = .ok (answer, e', disk) ∧
        Gives lines (found.bind fun f => f.compute e.limits lines range.start range.stop) answer e' := by
  have hidle : e.Idle := ⟨h.steady, (asks_eq_some.mp hq).1⟩
  have hready : e₁.Ready := hidle.ready_located (by rw [hc]; rfl) hloc
  obtain ⟨hpool, hlimits, hlines, -⟩ := located_same hloc
  have hzero : q.command.any Command.allowsZero = false := by
    rw [hc]
    cases c with
    | lineNumber => cases hread
    | _ => rfl
  obtain ⟨h₁, hr₁⟩ := hidle.located_within hloc hzero
  have hall : q.command.all e.window.mode.allows = true := by
    rw [hc, hmode]
    rfl
  obtain ⟨answer, e', hrun, found, r, hfound, hgives⟩ := EditM.dispatchOn_located hq hloc hall
    (by rw [hc]; rfl) (EditM.runLine_computes hready h₁ hr₁ hread) s disk
  have hstop : range.stop ≤ e.window.dol := by
    rw [Window.dol, ← hlines]
    exact hr₁.stop_le
  rw [hpool, hlimits, hlines] at hgives
  exact ⟨⟨h₁, hr₁.le, hstop⟩, _, found, r, answer, e', hidle.toHeld.texts_eq, hfound, hrun, hgives⟩

/-- The last two of three lines go before the first. -/
theorem computes_list_move : ∃ e answer e',
    (Engine.new ⟨1, 10, 100⟩).perform (.insertBulk 0 [97, 10, 98, 10, 99, 10]) = .ok e ∧
      e.dispatchOn FileTree.storage ['2', ',', '3', 'm', '0'] .empty = .ok (answer, e', .empty) ∧
        Gives [[97], [98], [99]] (.ok ([[98], [99], [97]], 2)) answer e' := by
  have hall : ((Engine.new ⟨1, 10, 100⟩).perform (.insertBulk 0 [97, 10, 98, 10, 99, 10]) >>=
      fun e => pure (e.window.mode = .normal &&
        e.window.texts e.pool 1 e.window.dol = .ok [[97], [98], [99]] &&
        (e.asks ['2', ',', '3', 'm', '0']).any fun q => q.command = some (.line .move) &&
          (e.located q).any fun x => x.1 = ⟨2, 3, 2⟩ &&
            (ListFunction.read? x.2.view q.tail .move).any fun reading =>
              (reading.run.run x.2.remembered).map Prod.fst = .ok (.ok (.move 0)))) = .ok true := by
    decide +kernel
  obtain ⟨e, hnew, hall⟩ := bind_eq_ok.mp hall
  have hvalues := Except.ok.inj hall
  simp only [Bool.and_eq_true, decide_eq_true_eq, Option.any_eq_true] at hvalues
  obtain ⟨⟨hmode, htexts⟩, q, hq, hc, ⟨range, e₁⟩, hloc, rfl, reading, hread, hmove⟩ := hvalues
  obtain ⟨-, lines, found, r, answer, e', hlines, hfound, hrun, hgives⟩ :=
    Reachable.computes_list (.call _ (.new _) hnew) hmode hq hloc hc hread FileTree.storage .empty
  obtain rfl := Except.ok.inj (htexts.symm.trans hlines)
  rw [hfound] at hmove
  obtain rfl := Except.ok.inj hmove
  exact ⟨e, answer, e', hnew, hrun, hgives⟩

end Engine

end LineEditor
