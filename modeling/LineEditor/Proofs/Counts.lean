import LineEditor.Proofs.Ceilings
import LineEditor.Proofs.Owners

/-!
# Counts of references

A reference is counted when lines are shared with a record and when they are copied. What is counted
then are lines of the window, so no count grows by more than the window has lines. Where counts are
bounded and there is room for that, all goes as it does where they are not.
-/

namespace LineEditor

/-! ## Actions that agree -/

namespace EditM

/-- Wherever `I` holds, the actions do the same. -/
def Agrees (I : Engine → Prop) (x y : EditM α) : Prop := ∀ e, I e → x.run.run e = y.run.run e

namespace Agrees

section
variable {I : Engine → Prop} {x y : EditM α}

protected theorem refl (x : EditM α) : Agrees I x x := fun _ _ => rfl

/-- The actions go on alike if the first steps keep what makes them agree. -/
protected theorem bind {f g : α → EditM β} (h : Agrees I x y) (hy : Maintains I y)
    (hf : ∀ a, Agrees I (f a) (g a)) : Agrees I (x >>= f) (y >>= g) := by
  intro e he
  rw [run_bind_congr (h e he) f]
  exact ((hy e he).mono fun _ e' he' a _ => hf a e' he').bind_congr

theorem bind_first (h : Agrees I x y) (f : α → EditM β) : Agrees I (x >>= f) (y >>= f) :=
  fun e he => run_bind_congr (h e he) f

theorem bind_rest {f g : α → EditM β} (hx : Maintains I x) (hf : ∀ a, Agrees I (f a) (g a)) :
    Agrees I (x >>= f) (x >>= g) :=
  (Agrees.refl x).bind hx hf

protected theorem attempt (h : Agrees I x y) : Agrees I (attempt x) (attempt y) := by
  intro e he
  rw [run_attempt, run_attempt, h e he]

theorem onWindow {f g : Window → Pool → Except Breach (Window × Pool)}
    (h : ∀ e, I e → f e.window e.pool = g e.window e.pool) :
    Agrees I (onWindow f) (onWindow g) := by
  intro e he
  unfold EditM.onWindow
  rw [run_get_bind, run_get_bind, h e he]

end

end Agrees

end EditM

/-! ## Room for references -/

section
variable [CountLimit]

theorem Pool.retainAll_bounded (handles : List Handle) {p : Pool}
    (hroom : ∀ x, CountLimit.Holds (p.refs x + handles.count x)) :
    p.retainAll handles = @Pool.retainAll .unbounded p handles := by
  induction handles generalizing p with
  | nil => rfl
  | cons h rest ih =>
    cases hs : p.stored? h with
    | none =>
      have hgone [CountLimit] : p.retain h = .error (.reclaimed .retain h) := by
        unfold Pool.retain
        split
        · rename_i hs'
          cases hs.symm.trans hs'
        · rfl
      simp only [retainAll, retainEach, hgone]
    | some line =>
      have hrefs : p.refs h = line.refs := by simp [Pool.refs, hs]
      have hnext := hroom h
      rw [hrefs, List.count_cons_self] at hnext
      have hone : CountLimit.Holds (line.refs + 1) := hnext.mono (by omega)
      rw [retainAll_cons (retain_of_holds hs hone), @retainAll_cons .unbounded _ _ _ _ (retain_of_stored hs)]
      refine ih fun x => ?_
      have hx := hroom x
      rw [refs_recount hs]
      by_cases hxh : x = h
      · subst hxh
        rw [hrefs, List.count_cons_self] at hx
        rw [if_pos rfl]
        exact hx.mono (by omega)
      · rw [List.count_cons_of_ne (Ne.symm hxh)] at hx
        rwa [if_neg hxh]

theorem LineMap.share_bounded {m : LineMap} {p : Pool}
    (hroom : ∀ x, CountLimit.Holds (p.refs x + m.handles.count x)) :
    m.share p = @LineMap.share .unbounded m p := by
  unfold LineMap.share
  rw [Pool.retainAll_bounded _ hroom]

section
variable {w : Window} {p : Pool}
  (hroom : ∀ x, CountLimit.Holds (p.refs x + w.lines.handles.count x))
include hroom

theorem UndoSlot.capture_bounded (u : UndoSlot) : u.capture w p = @UndoSlot.capture .unbounded u w p := by
  unfold UndoSlot.capture
  simp only [LineMap.share_bounded hroom]

theorem Window.copyLines_bounded (start stop after : Nat) :
    w.copyLines p start stop after = @Window.copyLines .unbounded w p start stop after := by
  have hcopies : ∀ x, CountLimit.Holds (p.refs x +
      (((w.lines.removed (start - 1) (stop - start + 1)).map Entry.unmark).map Entry.handle).count x) := by
    intro x
    refine (hroom x).mono (Nat.add_le_add_left ?_ _)
    rw [List.map_map]
    exact (((List.take_sublist _ _).trans (List.drop_sublist _ _)).map _).count_le x
  unfold Window.copyLines
  simp only [Pool.retainAll_bounded _ hcopies]

theorem Edit.perform_bounded (change : Edit) :
    change.perform w p = @Edit.perform .unbounded w p change := by
  cases change with
  | copy start stop after => exact Window.copyLines_bounded hroom start stop after
  | _ => rfl

end

/-- There is room to count the lines of the window once more. -/
def Engine.HasRoom (e : Engine) : Prop :=
  ∀ x, CountLimit.Holds (e.pool.refs x + e.window.lines.handles.count x)

/-! ## Commands with room -/

namespace EditM

section
variable {I : Engine → Prop} {t : Terms} (hI : Engine.LineWork I t) (hroom : ∀ e, I e → e.HasRoom)
include hI hroom

omit hI in
theorem agrees_snapshot : Agrees I snapshot (@snapshot .unbounded) := by
  intro e he
  unfold snapshot
  rw [run_get_bind, run_get_bind, UndoSlot.capture_bounded (hroom e he)]

omit hI in
theorem agrees_edit (change : Edit) : Agrees I (edit change) (@edit .unbounded change) := by
  unfold edit
  exact .bind_first (.onWindow fun e he => Edit.perform_bounded (hroom e he) change) _

theorem agrees_snapshot_edit (change : Edit) (rest : EditM β) : Agrees I (do
      snapshot
      edit change
      rest) (do
      @snapshot .unbounded
      @edit .unbounded change
      rest) := by
  exact (agrees_snapshot hroom).bind (maintains_snapshot hI.toLocal) fun _ =>
    (agrees_edit hroom change).bind_first _

theorem agrees_carryOut (inGlobal : Bool) (plan : Plan) :
    Agrees I (carryOut inGlobal plan) (@carryOut .unbounded inGlobal plan) := by
  cases plan with
  | edit change shape print =>
    unfold carryOut
    cases inGlobal with
    | true => exact (agrees_edit hroom change).bind_first _
    | false => exact agrees_snapshot_edit hI hroom change _
  | _ => exact .refl _

theorem agrees_runLine (inGlobal : Bool) (cmd : Option LineCommand) (range : LineRange)
    (tail : List Char) :
    Agrees I (runLine inGlobal cmd range tail) (@runLine .unbounded inGlobal cmd range tail) := by
  unfold runLine
  exact .bind_rest (maintains_query hI.toLocal fun v => v.plan_traces cmd range tail) fun plan =>
    agrees_carryOut hI hroom inGlobal plan

theorem agrees_runSubcommand (text : List Char) :
    Agrees I (runSubcommand text) (@runSubcommand .unbounded text) := by
  unfold runSubcommand
  rw [CommandLine.lift_read]
  refine .bind_rest (.liftExcept _) fun line => .bind_rest (.liftExcept _) fun cmd => ?_
  refine .bind_rest .get fun e => .bind_rest (.liftExcept _) fun _ => ?_
  refine .bind_rest (.liftExcept _) fun lineCmd => ?_
  exact .bind_rest (maintains_query hI.toLocal fun v => v.locate_traces true cmd line.range) fun range =>
    agrees_runLine hI hroom true lineCmd range line.tail

theorem agrees_visit (text : List Char) (n : Nat) (last : Option Nat) :
    Agrees I (visit text n last) (@visit .unbounded text n last) := by
  unfold visit
  refine .bind_rest (maintains_clearMark hI n) fun _ => .bind_rest (maintains_goto hI.toLocal n) fun _ => ?_
  exact (agrees_runSubcommand hI hroom text).attempt.bind_first _

theorem agrees_visitMarked (text : List Char) (fuel n : Nat) (last : Option Nat) :
    Agrees I (visitMarked text fuel n last) (@visitMarked .unbounded text fuel n last) := by
  -- on the number of visits that may come
  induction fuel generalizing n last with
  | zero => exact .refl _
  | succ fuel ih =>
    unfold visitMarked
    refine .bind_rest .get fun e => ?_
    cases e.window.lines.nextMarked? n with
    | none => exact .refl _
    | some k =>
      refine (agrees_visit hI hroom text k last).bind (maintains_visit hI text k last) fun report => ?_
      exact .bind_rest .get fun e₁ => (ih _ _).bind_first _

theorem agrees_runGlobal (inverted : Bool) (range : LineRange) (tail : List Char) :
    Agrees I (runGlobal inverted range tail) (@runGlobal .unbounded inverted range tail) := by
  unfold runGlobal
  refine .bind_rest (maintains_query hI.toLocal fun v => v.globalRequest_traces inverted range tail)
    fun request => ?_
  refine .bind_rest (.modify fun e h => hI.mark h (LineMap.clearMarks_markRun _ _ _)) fun _ => ?_
  refine (agrees_snapshot hroom).bind (maintains_snapshot hI.toLocal) fun _ => ?_
  exact .bind_rest .get fun e => (agrees_visitMarked hI hroom _ _ _ _).attempt.bind_first _

theorem agrees_commitEntry (entry : TextEntry) :
    Agrees I (commitEntry entry) (@commitEntry .unbounded entry) := by
  have hput : Agrees I (do
      snapshot
      edit (entryEdit entry)
      return Report.ofEdit true []) _ := agrees_snapshot_edit hI hroom (entryEdit entry) _
  unfold commitEntry
  refine .bind_rest .get fun e => ?_
  dsimp only
  split
  · exact .refl _
  · refine .bind_rest (.lift _) fun removed => ?_
    split
    · exact .refl _
    · split
      · exact .bind_rest (maintains_checkCapacity _) fun _ => hput
      · exact hput

theorem agrees_typeLine (entry : TextEntry) (text : List Char) :
    Agrees I (typeLine entry text) (@typeLine .unbounded entry text) := by
  unfold typeLine
  split
  · exact .bind_rest (.modify fun e h => hI.untype h) fun _ => agrees_commitEntry hI hroom entry
  · exact .refl _

theorem agrees_insertFile (path : List Char) (place : Nat) (bytes : Bytes) :
    Agrees I (insertFile path place bytes) (@insertFile .unbounded path place bytes) := by
  unfold insertFile
  refine .bind_rest (maintains_checkCapacity _) fun _ => ?_
  refine .bind_rest (maintains_note hI.toLocal fun _ => ⟨rfl, rfl, rfl, rfl, rfl⟩) fun _ => ?_
  split
  · exact .refl _
  · exact (agrees_snapshot hroom).bind_first _

end

end EditM

end

/-! ## Lines of input -/

namespace EditM

/-- What becomes of a line of input, once its command has come to an answer. -/
def concluded (s : Storage σ) (disk : σ) :
    Except EditError Progress × Engine → Except Breach (Except EditError Report × Engine × σ)
  | (.error err, e) => return (.error err, e, disk)
  | (.ok progress, e) => do
    let (rest, disk) := progress.complete s disk
    let (answer, e) ← e.run rest
    return (answer, e, disk)

theorem dispatchOn_eq_concluded [CountLimit] (s : Storage σ) (line : List Char) (e : Engine) (disk : σ) :
    e.dispatchOn s line disk = (dispatch line).run.run e >>= concluded s disk := by
  unfold Engine.dispatchOn Engine.run
  refine bind_congr fun (answer, e₁) => ?_
  cases answer <;> rfl

/-- Whatever the file system answers, the two come to the same. -/
def Concurs (I : Engine → Prop) (x y : EditM Progress) : Prop :=
  ∀ (σ : Type) (s : Storage σ) (disk : σ) (e : Engine), I e →
    x.run.run e >>= concluded s disk = y.run.run e >>= concluded s disk

namespace Concurs

section
variable {I : Engine → Prop}

theorem of_agrees {x y : EditM Progress} (h : Agrees I x y) : Concurs I x y :=
  fun _ s disk e he => congrArg (· >>= concluded s disk) (h e he)

theorem done {x y : EditM Report} (h : Agrees I x y) : Concurs I (.done <$> x) (.done <$> y) :=
  of_agrees fun e he => by rw [run_map, run_map, h e he]

protected theorem bind {x : EditM α} {f g : α → EditM Progress} (hx : Maintains I x)
    (hf : ∀ a, Concurs I (f a) (g a)) : Concurs I (x >>= f) (x >>= g) := by
  intro σ s disk e he
  rw [run_bind, run_bind]
  cases hrun : x.run.run e with
  | error b => rfl
  | ok r =>
    obtain ⟨answer, e₁⟩ := r
    cases answer with
    | error err => rfl
    | ok a => exact hf a σ s disk e₁ (hx e he _ _ hrun)

end

end Concurs

section
variable [CountLimit] {I : Engine → Prop} {t : Terms} (hI : Engine.Kept I t)
  (hroom : ∀ e, I e → e.HasRoom)
include hI hroom

theorem concurs_runRead (range : LineRange) (tail : List Char) :
    Concurs I (runRead range tail) (@runRead .unbounded range tail) := by
  have hinsert (path : List Char) (answer : Except String Bytes) : Agrees I (do
      insertFile path range.stop (← liftExcept (ofStorage path answer))) _ :=
    .bind_rest (.liftExcept _) fun bytes =>
      agrees_insertFile hI.toLineWork hroom path range.stop bytes
  unfold runRead
  refine .bind (maintains_targetFile tail) fun path σ s disk e he => ?_
  have hrun := hinsert path (s.read disk path) e he
  exact congrArg (fun r => r >>= fun r => pure (r.1, r.2, disk)) hrun

theorem concurs_runCommand (cmd : Option Command) (range : LineRange) (tail : List Char) :
    Concurs I (runCommand cmd range tail) (@runCommand .unbounded cmd range tail) := by
  have hline := agrees_runLine hI.toLineWork hroom false
  unfold runCommand
  cases cmd with
  | none => exact .done (hline none range tail)
  | some cmd =>
    cases cmd with
    | line c => exact .done (hline (some c) range tail)
    | global inverted => exact .done (agrees_runGlobal hI.toLineWork hroom inverted range tail)
    | read => exact concurs_runRead hI hroom range tail
    | _ => exact .of_agrees (.refl _)

theorem concurs_execute (text : List Char) : Concurs I (execute text) (@execute .unbounded text) := by
  unfold execute
  rw [CommandLine.lift_read]
  refine .bind (.liftExcept _) fun line => .bind (.liftExcept _) fun cmd => ?_
  have hrest : Concurs I (do
      liftExcept (checkMode (← get).window.mode cmd)
      let range ← query fun v => v.locate false cmd line.range
      runCommand cmd range line.tail) (do
      liftExcept (checkMode (← get).window.mode cmd)
      let range ← query fun v => v.locate false cmd line.range
      @runCommand .unbounded cmd range line.tail) := by
    refine .bind .get fun e => .bind (.liftExcept _) fun _ => ?_
    refine .bind (maintains_query hI.toLocal fun v => v.locate_traces false cmd line.range) fun range => ?_
    exact concurs_runCommand hI hroom cmd range line.tail
  split
  · exact .bind (.modify fun e h => hI.arm h false) fun _ => hrest
  · exact hrest

theorem concurs_dispatch (line : List Char) :
    Concurs I (dispatch line) (@dispatch .unbounded line) := by
  unfold dispatch
  refine .bind .get fun e => ?_
  cases e.entry with
  | some entry => exact .done (agrees_typeLine hI.toLineWork hroom entry _)
  | none => exact concurs_execute hI hroom _

end

end EditM

/-! ## Runs with room -/

namespace Engine

section
variable {I I' : Engine → Prop} {t : Terms}

theorem Kept.and (hI : Kept I freeTerms) (hI' : Kept I' t) : Kept (fun e => I e ∧ I' e) t where
  held h := hI.held h.1
  remember h r hr := ⟨hI.remember h.1 r hr, hI'.remember h.2 r hr⟩
  begin h hb after replace := ⟨hI.begin h.1 hb after replace, hI'.begin h.2 hb after replace⟩
  untype h := ⟨hI.untype h.1, hI'.untype h.2⟩
  note h _ hw := ⟨hI.note h.1 hw, hI'.note h.2 hw⟩
  mark h _ hl := ⟨hI.mark h.1 hl, hI'.mark h.2 hl⟩
  record h _ _ hr := ⟨hI.record h.1 hr, hI'.record h.2 hr⟩
  plan h := hI'.plan h.2
  edit h _ hfit hallow _ _ hrun := ⟨hI.edit h.1 hfit trivial hrun, hI'.edit h.2 hfit hallow hrun⟩
  type h _ hentry _ htext := ⟨hI.type h.1 hentry trivial, hI'.type h.2 hentry htext⟩
  commit h := hI'.commit h.2
  read h hb _ _ _ _ hrun hr hflags :=
    ⟨hI.read h.1 hb hrun hr hflags, hI'.read h.2 hb hrun hr hflags⟩
  arm h armed := ⟨hI.arm h.1 armed, hI'.arm h.2 armed⟩
  interrupt h := ⟨hI.interrupt h.1, hI'.interrupt h.2⟩
  save h := ⟨hI.save h.1, hI'.save h.2⟩
  undo h _ hr hid := ⟨hI.undo h.1 hr hid, hI'.undo h.2 hr hid⟩
  switch h _ _ hs := ⟨hI.switch h.1 hs, hI'.switch h.2 hs⟩
  start h _ h₁ hn hs := ⟨hI.start h.1 h₁ hn hs, hI'.start h.2 h₁ hn hs⟩
  move h _ h₁ hn hs := ⟨hI.move h.1 h₁ hn hs, hI'.move h.2 h₁ hn hs⟩
  close h _ _ _ hs ha hk := ⟨hI.close h.1 hs ha hk, hI'.close h.2 hs ha hk⟩
  plain := hI'.plain
  push h _ hopens := ⟨hI.push h.1 trivial, hI'.push h.2 hopens⟩
  replace h _ _ hd _ hopens := ⟨hI.replace h.1 hd trivial, hI'.replace h.2 hd hopens⟩
  pop h _ _ hd _ _ hb := ⟨hI.pop h.1 hd hb, hI'.pop h.2 hd hb⟩
  receptive h := hI'.receptive h.2
  bulk h ht _ _ _ _ hrun hr hflags :=
    ⟨hI.bulk h.1 trivial hrun hr hflags, hI'.bulk h.2 ht hrun hr hflags⟩
  listing h ht _ hl _ _ _ hrun hr hflags :=
    ⟨hI.listing h.1 trivial trivial hrun hr hflags, hI'.listing h.2 ht hl hrun hr hflags⟩
  update h := hI'.update h.2

end

/-- In a session with room, all texts fit, and each line is of one window. -/
def Roomy (limits : Limits) (e : Engine) : Prop :=
  (e.Owned ∧ e.Proper fun _ => True) ∧ e.limits = limits

theorem kept_roomy (limits : Limits) : Kept (Roomy limits) (properTerms fun _ => True) :=
  (kept_owned.and (kept_proper lineKind_any)).limited limits

theorem roomy_of_run {limits : Limits} {calls : List Call} {e : Engine}
    (hrun : (Engine.new limits).performAll calls = .ok e) : Roomy limits e :=
  have h := (Reachable.new limits).performAll hrun
  ⟨⟨h.owned, h.proper⟩, limits_performAll hrun⟩

section
variable [CountLimit] {limits : Limits} (hmost : CountLimit.Holds (3 * limits.lines))
include hmost

/-- No line has more references than two for each line of a text, and a window names it no more often
than it has lines. -/
theorem Roomy.hasRoom {e : Engine} (h : Roomy limits e) : e.HasRoom := by
  obtain ⟨⟨howned, hproper⟩, hlimits⟩ := h
  intro x
  have hrefs := howned.refs_le hproper x
  have hcount : e.window.lines.handles.count x ≤ e.limits.lines :=
    List.count_le_length.trans ((Nat.le_of_eq (List.length_map _)).trans hproper.dol_le)
  rw [hlimits] at hrefs hcount
  exact hmost.mono (by omega)

theorem Roomy.perform_bounded {e : Engine} (h : Roomy limits e) (c : Call) :
    e.perform c = @Engine.perform .unbounded e c := by
  cases c with
  | line storage disk text =>
    simp only [Engine.perform]
    rw [EditM.dispatchOn_eq_concluded, @EditM.dispatchOn_eq_concluded _ .unbounded]
    rw [EditM.concurs_dispatch (kept_roomy limits) (fun e he => Roomy.hasRoom hmost he) text _ storage disk e h]
  | _ => rfl

/-- A run with bounded counts is the run without. -/
theorem performAll_bounded (calls calls' : List Call) {e : Engine}
    (hrun : @Engine.performAll .unbounded (Engine.new limits) calls = .ok e) :
    e.performAll calls' = @Engine.performAll .unbounded e calls' := by
  -- on the calls that are left
  induction calls' generalizing calls e with
  | nil => rfl
  | cons c calls' ih =>
    have h := (Reachable.new limits).performAll hrun
    obtain ⟨e₁, hfirst, -⟩ := h.steady.perform c
    have hrun₁ : @Engine.performAll .unbounded (Engine.new limits) (calls ++ [c]) = .ok e₁ := by
      rw [@performAll_append .unbounded, hrun]
      exact congrArg (· >>= pure) hfirst
    unfold Engine.performAll
    rw [Roomy.perform_bounded hmost (roomy_of_run hrun) c, hfirst]
    exact ih (calls ++ [c]) hrun₁

end

end Engine

end LineEditor
