import LineEditor.Proofs.Neighbours

/-!
# Warnings of unsaved edits

A session or a window with unsaved edits is not given up at once: the first `q` or `e` is refused, and
the engine takes note of the warning. The note is kept while nothing but `q` and `e` is typed and the
same session stays current, so when edits are given up the warning for them can be found in the
history of the engine.
-/

namespace LineEditor

/-- The windows differ in nothing but the patterns they remember. -/
def Window.Stands (w w' : Window) : Prop :=
  w' = { w with lastSearch := w'.lastSearch, lastReplacement := w'.lastReplacement }

theorem Window.Stands.trans {w w' w'' : Window} (h : w.Stands w') (h' : w'.Stands w'') :
    w.Stands w'' := by
  unfold Stands at *
  rw [h] at h'
  exact h'

theorem Window.Stands.lines_eq {w w' : Window} (h : w.Stands w') : w'.lines = w.lines := by
  unfold Stands at h
  rw [h]

namespace Engine

/-- The same session is current, and no line of any window was edited. There may be more windows. -/
structure Untouched (e e' : Engine) : Prop where
  slot_eq : e'.slot = e.slot
  sessions : ∀ n s, e.table.get? n = some s → ∃ s', e'.table.get? n = some s' ∧
    ∀ w ∈ s.windows, ∃ w' ∈ s'.windows, w.Stands w' ∧
      ∃ rows, e.pool.readRows w.lines = .ok rows ∧ e'.pool.readRows w'.lines = .ok rows

section
variable {e e' e'' : Engine}

theorem Untouched.trans (h : e.Untouched e') (h' : e'.Untouched e'') : e.Untouched e'' where
  slot_eq := h'.slot_eq.trans h.slot_eq
  sessions n s hs := by
    obtain ⟨s', hs', hwindows⟩ := h.sessions n s hs
    obtain ⟨s'', hs'', hwindows'⟩ := h'.sessions n s' hs'
    refine ⟨s'', hs'', fun w hw => ?_⟩
    obtain ⟨w', hw', hstands, rows, hrows, hrows'⟩ := hwindows w hw
    obtain ⟨w'', hw'', hstands', rows', hsame, hrows''⟩ := hwindows' w' hw'
    rw [hrows'] at hsame
    cases hsame
    exact ⟨w'', hw'', hstands.trans hstands', rows, hrows, hrows''⟩

/-- The current session has windows as before, perhaps with more of them, and the others are the
same. -/
theorem Held.untouched (h : e.Held) (h' : e'.Held) (hslot : e'.slot = e.slot)
    (hothers : e'.others = e.others)
    (hwindows : ∀ w ∈ e.session.windows, ∃ w' ∈ e'.session.windows, w.Stands w')
    (hk : e.pool.Keeps e'.pool ((e.window.lines.contents + e.elsewhere).map Prod.fst)) :
    e.Untouched e' where
  slot_eq := hslot
  sessions n s hs := by
    have hrows {w w' : Window} (hw : w ∈ e.windows) (hw' : w' ∈ e'.windows) (hstands : w.Stands w')
        (hheld : w.lines.contents ⊆ e.window.lines.contents + e.elsewhere) :
        ∃ rows, e.pool.readRows w.lines = .ok rows ∧ e'.pool.readRows w'.lines = .ok rows := by
      refine ⟨_, h.readRows_window hw, ?_⟩
      rw [h'.readRows_window hw', hstands.lines_eq, Pool.rows_keeps hk hheld]
    by_cases hn : n = e.slot
    · rw [hn, h.table_get?] at hs
      cases hs
      refine ⟨e'.session, by rw [hn, ← hslot, h'.table_get?], fun w hw => ?_⟩
      obtain ⟨w', hw', hstands⟩ := hwindows w hw
      refine ⟨w', hw', hstands, hrows (h.mem_windows_session hw) (h'.mem_windows_session hw') hstands ?_⟩
      intro c hc
      rcases mem_session_windows.mp hw with hw | rfl
      · have hmem := below_contents_subset (List.mem_reverse.mpr hw) hc
        exact Multiset.mem_add.mpr (.inr hmem)
      · exact Multiset.mem_add.mpr (.inl hc)
    · have hs' : e'.table.get? n = some s := by
        rw [e'.table_get?_of_ne (hslot ▸ hn), hothers, ← e.table_get?_of_ne hn]
        exact hs
      refine ⟨s, hs', fun w hw => ⟨w, hw, rfl, ?_⟩⟩
      refine hrows (Engine.mem_windows.mpr ⟨n, s, hs, hw⟩) (Engine.mem_windows.mpr ⟨n, s, hs', hw⟩) rfl ?_
      intro c hc
      have hmem := session_contents_subset hn hs (Session.window_contents_subset hw hc)
      exact Multiset.mem_add.mpr (.inr (Multiset.mem_add.mpr (.inr hmem)))

theorem Held.untouched_noted (h : e.Held) (r : Recall) (armed stop : Bool) :
    e.Untouched { e.withRecall r with quitArmed := armed, interrupted := stop } := by
  refine h.untouched ⟨h.vacant, h.accounts⟩ rfl rfl (fun w hw => ?_) (.refl _ _)
  rcases mem_session_windows.mp hw with hw | rfl
  · exact ⟨w, below_mem_session hw, rfl⟩
  · exact ⟨_, window_mem_session _, rfl⟩

theorem Held.untouched_refl (h : e.Held) : e.Untouched e :=
  h.untouched_noted e.remembered e.quitArmed e.interrupted

theorem Held.untouched_begun (h : e.Held) (cmd : Option Command) (r : Recall) :
    e.Untouched ((e.begun cmd).withRecall r) := by
  rw [begun_eq]
  exact h.untouched_noted r _ r.interrupted

theorem Held.untouched_pushed (h : e.Held) (hc : (e.pushed .none).Confined e') : e.Untouched e' := by
  refine h.untouched hc.toHeld hc.slot_eq hc.others_eq (fun w hw => ⟨w, ?_, rfl⟩) ?_
  · refine below_mem_session ?_
    rw [show e'.session.below = e.window :: e.session.below from hc.below_eq]
    exact List.mem_cons.mpr (mem_session_windows.mp hw).symm
  · have hkeeps := hc.keeps
    rwa [elsewhere_pushed] at hkeeps

/-! ## Commands -/

theorem keepsWarning_of_worksInPlace {cmd : Option Command} (h : EditM.worksInPlace cmd = true) :
    EditM.keepsWarning cmd = false := by
  cases cmd with
  | none => rfl
  | some cmd =>
    cases cmd with
    | quit => cases h
    | edit => cases h
    | _ => rfl

section
variable {cmd : Option Command} {range : LineRange} {tail : List Char} {x : Traffic}
  {answer : Except EditError Report}

/-- If a warning stands after a command, the command gave it, or it stood before and the command left
all windows alone. -/
theorem Effect.armed (h : e.Held) (hcalm : EditM.keepsWarning cmd = false → e.quitArmed = false)
    (heff : e.Effect cmd range tail x answer e') (ha : e'.quitArmed = true) :
    e.Untouched e' ∧
      ((answer = .error .unsavedChanges ∧ Relinquishes cmd tail) ∨ e.quitArmed = true) := by
  have hnot (hk : EditM.keepsWarning cmd = false) : e.quitArmed ≠ true := by
    rw [hcalm hk]
    exact Bool.false_ne_true
  cases heff with
  | refused => exact ⟨h.untouched_refl, .inr ha⟩
  | worked hcmd hin =>
    rw [hin.armed_eq] at ha
    exact absurd ha (hnot (keepsWarning_of_worksInPlace hcmd))
  | undone _ _ => exact absurd ha (hnot rfl)
  | wrote _ => exact absurd ha (hnot rfl)
  | told => exact ⟨h.untouched_refl, .inr ha⟩
  | warned hrel _ => exact ⟨h.untouched_noted e.remembered true e.interrupted, .inl ⟨rfl, hrel⟩⟩
  | failed => exact absurd ha Bool.false_ne_true
  | quit _ => exact absurd ha Bool.false_ne_true
  | closed _ _ _ _ => exact absurd ha Bool.false_ne_true
  | switched _ => exact absurd ha Bool.false_ne_true
  | started _ _ _ => exact absurd ha Bool.false_ne_true
  | moved _ _ _ => exact absurd ha (hnot rfl)
  | popped _ _ => exact absurd ha (hnot rfl)
  | replaced _ _ _ _ hc _ =>
    rw [hc.armed_eq] at ha
    exact absurd ha Bool.false_ne_true
  | pushed _ hc _ =>
    rw [hc.armed_eq] at ha
    exact ⟨h.untouched_pushed hc, .inr ha⟩

/-- A session with unsaved edits is closed only if a warning stands. -/
theorem Effect.armed_of_quit {report : Report}
    (heff : e.Effect (some .quit) range tail x (.ok report) e') (hc : e.session.hasChanges = true) :
    e.quitArmed = true := by
  cases heff with
  | worked hcmd _ => cases hcmd
  | quit hguard => exact hguard hc
  | closed hguard _ _ _ => exact hguard hc

/-- A window with unsaved edits is replaced only if a warning stands. -/
theorem Effect.armed_of_edit (h : e.Held) (heff : e.Effect (some .edit) range tail x answer e')
    (hc : e.window.flags.changed = true) (hgone : ∀ w ∈ e'.windows, w.id ≠ e.window.id) :
    e.quitArmed = true := by
  have hstays {n : Nat} (hs : e'.table.get? n = some e.session) : e.quitArmed = true :=
    absurd rfl (hgone e.window (Engine.mem_windows.mpr ⟨n, e.session, hs, e.window_mem_session⟩))
  cases heff with
  | refused => exact hstays h.table_get?
  | worked hcmd _ => cases hcmd
  | told => exact hstays h.table_get?
  | warned _ _ => exact hstays (n := e.slot) h.table_get?
  | failed => exact hstays (n := e.slot) h.table_get?
  | switched hs =>
    refine hstays (n := e.slot) ?_
    rw [table_switched (e := e.disarmed) hs]
    exact h.table_get?
  | started _ _ hs => exact hstays (get?_started (e := e.disarmed) hs h.table_get?)
  | replaced hguard _ _ _ _ _ => exact hguard hc
  | pushed _ hp _ =>
    have hbelow : e.window ∈ e'.session.below := by
      rw [show e'.session.below = e.window :: e.session.below from hp.below_eq]
      exact List.mem_cons_self
    exact absurd rfl (hgone _ (hp.toHeld.mem_windows_session (below_mem_session hbelow)))

end

end

end Engine

/-! ## Lines -/

namespace Turn

/-- The line is refused as long as edits are unsaved. -/
def Warns (t : Turn) : Prop :=
  t.answer = .error .unsavedChanges ∧ ∃ q, t.request = some q ∧ Relinquishes q.command q.tail

/-- The line is no text, and asks for nothing but `q` and `e`: it may be one that cannot be read. -/
def Waits (t : Turn) : Prop :=
  t.before.entry = none ∧ ∀ q, t.request = some q → q.command = some .quit ∨ q.command = some .edit

/-- The line gives up unsaved edits: `q` does so with a session, `e` with a window. -/
def Abandons (t : Turn) : Prop :=
  ∃ q, t.request = some q ∧
    ((q.command = some .quit ∧ t.before.session.hasChanges = true ∧ ∃ report, t.answer = .ok report) ∨
    (q.command = some .edit ∧ t.before.window.flags.changed = true ∧
      ∀ w ∈ t.after.windows, w.id ≠ t.before.window.id))

end Turn

namespace EditM

theorem command_of_keepsWarning {cmd : Option Command} (h : keepsWarning cmd = true) :
    cmd = some .quit ∨ cmd = some .edit := by
  cases cmd with
  | none => cases h
  | some cmd =>
    cases cmd with
    | quit => exact .inl rfl
    | edit => exact .inr rfl
    | _ => cases h

end EditM

namespace Engine

section
variable {e : Engine} {line : List Char} {q : Request}

theorem untyped_of_asks (h : e.asks line = some q) : e.entry = none := (asks_eq_some.mp h).1

theorem armed_begun {cmd : Option Command} {r : Recall} :
    ((e.begun cmd).withRecall r).quitArmed = true ↔
      e.quitArmed = true ∧ EditM.keepsWarning cmd = true := by
  rw [begun_eq]
  exact Bool.and_eq_true_iff

theorem hasChanges_begun (e : Engine) (cmd : Option Command) (r : Recall) :
    ((e.begun cmd).withRecall r).session.hasChanges = e.session.hasChanges := by
  rw [begun_eq]
  unfold Session.hasChanges Session.windows
  rw [List.any_append, List.any_append]
  rfl

end

end Engine

namespace Turn

section
variable {t : Turn}

theorem Ran.armed (h : t.Ran) (hs : t.before.Steady) (ha : t.after.quitArmed = true) :
    t.before.Untouched t.after ∧ (t.Warns ∨ (t.before.quitArmed = true ∧ t.Waits)) := by
  have hheld := hs.toHeld
  have hwaits {q : Request} (hq : t.before.asks t.line = some q)
      (hk : EditM.keepsWarning q.command = true) : t.Waits := by
    refine ⟨Engine.untyped_of_asks hq, fun q' hq' => ?_⟩
    cases hq.symm.trans hq'
    exact EditM.command_of_keepsWarning hk
  have hturns := h.turns hs
  obtain ⟨storage, disk, before, line, answer, after⟩ := t
  generalize Turn.traffic _ = x at hturns
  dsimp only at *
  cases hturns with
  | typed _ htyping hin =>
    obtain ⟨entry, hentry⟩ := Option.isSome_iff_exists.mp htyping
    rw [hin.armed_eq] at ha
    exact absurd ha (Bool.eq_false_iff.mp (hs.entry entry hentry).calm)
  | unread hasks hentry =>
    refine ⟨hheld.untouched_refl, .inr ⟨ha, hentry, fun q hq => ?_⟩⟩
    cases hasks.symm.trans hq
  | refused r hq =>
    obtain ⟨hold, hk⟩ := Engine.armed_begun.mp ha
    exact ⟨hheld.untouched_begun _ r, .inr ⟨hold, hwaits hq hk⟩⟩
  | @ran q _ _ _ _ r hq _ heff =>
    have hcalm (hk : EditM.keepsWarning q.command = false) :
        ((before.begun q.command).withRecall r).quitArmed = false := by
      rw [← Bool.not_eq_true, Engine.armed_begun, hk]
      exact fun hboth => Bool.false_ne_true hboth.2
    obtain ⟨huntouched, hcause⟩ := heff.armed (hheld.begun _ r) hcalm ha
    refine ⟨(hheld.untouched_begun _ r).trans huntouched, hcause.imp ?_ fun hold => ?_⟩
    · exact fun ⟨hanswer, hrel⟩ => ⟨hanswer, q, hq, hrel⟩
    · obtain ⟨hold, hk⟩ := Engine.armed_begun.mp hold
      exact ⟨hold, hwaits hq hk⟩

theorem Ran.armed_of_abandons (h : t.Ran) (hs : t.before.Steady) (ha : t.Abandons) :
    t.before.quitArmed = true := by
  have hheld := hs.toHeld
  obtain ⟨q, hq, hcase⟩ := ha
  have hturns := h.turns hs
  obtain ⟨storage, disk, before, line, answer, after⟩ := t
  generalize Turn.traffic _ = x at hturns
  dsimp only at *
  cases hturns with
  | typed hasks _ _ => cases hasks.symm.trans hq
  | unread hasks _ => cases hasks.symm.trans hq
  | @refused q' _ _ r _ =>
    rcases hcase with ⟨-, -, report, hok⟩ | ⟨-, -, hgone⟩
    · cases hok
    · have hid : ((before.begun q'.command).withRecall r).window.id = before.window.id := by
        rw [Engine.begun_eq]
        rfl
      have hstays := (hheld.begun q'.command r).mem_windows_session (Engine.window_mem_session _)
      exact absurd hid (hgone _ hstays)
  | @ran q' _ _ _ _ r hq' _ heff =>
    cases hq'.symm.trans hq
    rcases hcase with ⟨hcmd, hchanges, report, rfl⟩ | ⟨hcmd, hchanged, hgone⟩
    · rw [hcmd] at heff
      rw [← Engine.hasChanges_begun before (some .quit) r] at hchanges
      exact (Engine.armed_begun.mp (heff.armed_of_quit hchanges)).1
    · rw [hcmd] at heff
      have hwindow : ((before.begun (some .edit)).withRecall r).window.id = before.window.id := rfl
      rw [← hwindow] at hgone
      exact (Engine.armed_begun.mp (heff.armed_of_edit (hheld.begun _ r) hchanged hgone)).1

end

end Turn

/-! ## Histories -/

namespace History

section
variable {turns : List Turn} {e : Engine}

/-- A warning that stands was given by some line, and since then nothing was asked for but `q` and
`e`. -/
theorem warned (h : History turns e) (ha : e.quitArmed = true) :
    ∃ between w earlier, turns = between ++ w :: earlier ∧ w.Warns ∧ w.before.Untouched e ∧
      ∀ b ∈ between, b.Waits ∧ w.before.Untouched b.before := by
  induction h with
  | new limits => cases ha
  | @interrupt _ e h ih =>
    obtain ⟨between, w, earlier, hsplit, hwarns, huntouched, hwaits⟩ := ih ha
    refine ⟨between, w, earlier, hsplit, hwarns, huntouched.trans ?_, hwaits⟩
    exact h.reachable.steady.toHeld.untouched_noted e.remembered e.quitArmed true
  | line t h hran ih =>
    obtain ⟨hsame, hwarns | ⟨hold, hwaits⟩⟩ := hran.armed h.reachable.steady ha
    · exact ⟨[], t, _, rfl, hwarns, hsame, by simp⟩
    · obtain ⟨between, w, earlier, rfl, hwarns, huntouched, hbetween⟩ := ih hold
      refine ⟨t :: between, w, earlier, rfl, hwarns, huntouched.trans hsame, ?_⟩
      rw [List.forall_mem_cons]
      exact ⟨⟨hwaits, huntouched⟩, hbetween⟩

/-- Unsaved edits are never given up without a warning. Where `q` closes a session or leaves the last
one with unsaved edits, or `e` replaces a window with unsaved edits, an earlier line in the same
session was `q` or `e` with a path and was refused for them; since then nothing was asked for but `q`
and `e`, and no line of any window was edited. -/
theorem abandons_after_warning (h : History turns e) {t : Turn} {earlier : List Turn}
    (hsuffix : t :: earlier <:+ turns) (ha : t.Abandons) :
    ∃ between w before, earlier = between ++ w :: before ∧ w.Warns ∧ w.before.Untouched t.before ∧
      ∀ b ∈ between, b.Waits ∧ w.before.Untouched b.before := by
  obtain ⟨hbefore, hran⟩ := h.before_of_suffix hsuffix
  exact hbefore.warned (hran.armed_of_abandons hbefore.reachable.steady ha)

/-- A file is read into the first window, and `q` typed twice. -/
theorem abandons_after_warning_twice : ∃ read warned quit : Turn,
    read.line = ['r', ' ', 'f'] ∧ warned.line = ['q'] ∧ quit.line = ['q'] ∧
      History [quit, warned, read] quit.after ∧ quit.Abandons ∧ warned.Warns := by
  have hall : ((Engine.new ⟨1, 10, 100⟩).dispatchOn FileTree.storage ['r', ' ', 'f']
        ⟨[([[102]], .file [97, 10])]⟩ >>= fun r₁ =>
      r₁.2.1.dispatchOn FileTree.storage ['q'] .empty >>= fun r₂ =>
        r₂.2.1.dispatchOn FileTree.storage ['q'] .empty >>= fun r₃ =>
          return (r₁.1, r₃.1, r₂.2.1.session.hasChanges, r₂.2.1.asks ['q'])) =
      .ok (.ok (.ofEdit true ["2"]), .ok { Report.clean with quit := true }, true,
        some ⟨some .quit, .default, []⟩) := by decide +kernel
  obtain ⟨⟨answer₁, e₁, disk₁⟩, h₁, hall⟩ := bind_eq_ok.mp hall
  obtain ⟨⟨answer₂, e₂, disk₂⟩, h₂, hall⟩ := bind_eq_ok.mp hall
  obtain ⟨⟨answer₃, e₃, disk₃⟩, h₃, hall⟩ := bind_eq_ok.mp hall
  have hvalues := Except.ok.inj hall
  simp only [Prod.mk.injEq] at hvalues
  obtain ⟨rfl, rfl, hchanges, hasks⟩ := hvalues
  have hturns : History [⟨FileTree.storage, .empty, e₂, ['q'], _, e₃⟩,
      ⟨FileTree.storage, .empty, e₁, ['q'], answer₂, e₂⟩,
      ⟨FileTree.storage, _, .new ⟨1, 10, 100⟩, ['r', ' ', 'f'], _, e₁⟩] e₃ :=
    .line _ (.line _ (.line _ (.new _) ⟨_, h₁⟩) ⟨_, h₂⟩) ⟨_, h₃⟩
  have habandons : Turn.Abandons ⟨FileTree.storage, .empty, e₂, ['q'],
      .ok { Report.clean with quit := true }, e₃⟩ :=
    ⟨_, hasks, .inl ⟨rfl, hchanges, _, rfl⟩⟩
  obtain ⟨between, w, before, hsplit, hwarns, -⟩ :=
    hturns.abandons_after_warning (List.suffix_refl _) habandons
  refine ⟨_, _, _, rfl, rfl, rfl, hturns, habandons, ?_⟩
  -- the line that gave the warning was not the first one
  cases between with
  | nil =>
    cases hsplit
    exact hwarns
  | cons t between =>
    cases between with
    | nil =>
      cases hsplit
      cases hwarns.1
    | cons t' between => simp at hsplit

end

end History

end LineEditor
