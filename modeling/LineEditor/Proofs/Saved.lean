import LineEditor.Proofs.Neighbours

/-!
# Texts that are saved

A document of which no edit is noted has the text that was loaded into its window or written from it
last. An undo is not noted as an edit, so it can give such a document another text; until the next
file is loaded or written, that is the only way.
-/

namespace LineEditor

/-- The text that a command loaded into its window or wrote from it; `whole` tells whether the command
was for all lines. -/
def storedText (answer : Except EditError Report) (cmd : Option Command) (whole : Bool) :
    Traffic → Option Bytes
  | .load _ (.ok (.file bytes)) => if answer.isOk && cmd = some .edit then some bytes else none
  | .write _ bytes append _ =>
    if answer.isOk && cmd = some .write && whole && !append then some bytes else none
  | _ => none

theorem storedText_of_ne {answer : Except EditError Report} {cmd : Option Command} {whole : Bool}
    {x : Traffic} (he : cmd ≠ some .edit) (hw : cmd ≠ some .write) :
    storedText answer cmd whole x = none := by
  cases x with
  | load path loaded =>
    cases loaded with
    | error text => rfl
    | ok loaded => cases loaded <;> simp [storedText, he]
  | write path bytes append count => simp [storedText, hw]
  | _ => rfl

theorem storedText_error {err : EditError} {cmd : Option Command} {whole : Bool} {x : Traffic} :
    storedText (.error err) cmd whole x = none := by
  cases x with
  | load path loaded =>
    cases loaded with
    | error text => rfl
    | ok loaded => cases loaded <;> rfl
  | _ => rfl

theorem storedText_of_worksInPlace {answer : Except EditError Report} {cmd : Option Command}
    {whole : Bool} {x : Traffic} (h : EditM.worksInPlace cmd = true) :
    storedText answer cmd whole x = none := by
  refine storedText_of_ne ?_ ?_
  all_goals
    rintro rfl
    cases h

/-- The text that a line loaded or wrote, given what came of it. -/
def Engine.stores (e : Engine) (line : List Char) (x : Traffic) (answer : Except EditError Report) :
    Option Bytes := do
  let q ← e.asks line
  let range ← e.rangeOf q
  storedText answer q.command (range.spans e.window) x

namespace Turn

/-- The text that the line stored or loaded for the window with number `n`. The window that a file is
loaded into is the current one afterwards, and so is the one that is written. -/
def storedIn (n : Nat) (t : Turn) : Option Bytes :=
  if t.after.window.id = n then t.before.stores t.line t.traffic t.answer else none

/-- The line undoes edits of a document of which none are noted, and its text is another one. -/
def Slips (n : Nat) (t : Turn) : Prop :=
  (∃ q, t.request = some q ∧ q.command = some .undo) ∧ t.before.window.Unmodified ∧
    t.after.window.id = n ∧ t.after.pool.blob t.after.window ≠ t.before.pool.blob t.before.window

/-- The text that was loaded into a window or written from it last. -/
def lastStored (n : Nat) (turns : List Turn) : Bytes := (turns.findSome? (storedIn n)).getD []

/-- The lines that came after that. -/
def sinceStored (n : Nat) (turns : List Turn) : List Turn :=
  turns.takeWhile fun t => (t.storedIn n).isNone

end Turn

namespace Engine

/-- The window has the text that a window with its number had before, of which no edit was noted. -/
def Retains (e e' : Engine) (w : Window) : Prop :=
  ∃ w₀ ∈ e.windows, w₀.id = w.id ∧ w₀.Unmodified ∧ e'.pool.blob w = e.pool.blob w₀

section
variable {e e' e'' : Engine} {w : Window}

theorem Held.retains_window (h : e.Held) (hid : e.window.id = w.id) (hu : e.window.Unmodified)
    (hblob : e'.pool.blob w = e.pool.blob e.window) : e.Retains e' w :=
  ⟨e.window, h.mem_windows_session e.window_mem_session, hid, hu, hblob⟩

theorem retains_same {n : Nat} {s : Session} (hs : e.table.get? n = some s) (hw : w ∈ s.windows)
    (hu : w.Unmodified) (hrows : e'.pool.rows w.lines = e.pool.rows w.lines) : e.Retains e' w := by
  refine ⟨w, Engine.mem_windows.mpr ⟨n, s, hs, hw⟩, rfl, hu, Pool.blob_congr ?_ rfl⟩
  unfold Pool.texts
  rw [hrows]

theorem Held.retains_below (h : e.Held) (hw : w ∈ e.session.below) (hu : w.Unmodified)
    (hk : e.pool.Keeps e'.pool (e.session.beneath.map Prod.fst)) : e.Retains e' w := by
  refine retains_same h.table_get? (below_mem_session hw) hu (Pool.rows_keeps hk ?_)
  exact Session.subset_sum (f := fun w : Window => w.lines.contents) hw

theorem retains_other {n : Nat} {s : Session} (hn : n ≠ e.slot) (hs : e.table.get? n = some s)
    (hw : w ∈ s.windows) (hu : w.Unmodified)
    (hk : e.pool.Keeps e'.pool (e.others.contents.map Prod.fst)) : e.Retains e' w := by
  refine retains_same hs hw hu (Pool.rows_keeps hk fun c hc => ?_)
  exact session_contents_subset hn hs (Session.window_contents_subset hw hc)

/-- Only the current window can have another text. -/
theorem Leaves.retains {closing : Prop} (h : e.Held) (hl : e.Leaves e' closing)
    (hw : w ∈ e'.windows) (hu : w.Unmodified) : e.Retains e' w ∨ w = e'.window := by
  obtain ⟨n, s, hs, hmem⟩ := Engine.mem_windows.mp hw
  rcases hl.origin n s hs with ⟨hn, hold⟩ | hcomes
  · exact .inl (retains_other hn hold hmem hu hl.keeps)
  · cases hcomes w hmem with
    | below hbelow =>
      rcases hl.below with ⟨-, hgone⟩ | ⟨hk, -⟩
      · obtain ⟨hn, hold⟩ := hgone n s hs
        exact .inl (retains_other hn hold hmem hu hl.keeps)
      · exact .inl (h.retains_below hbelow hu hk)
    | kept hid hl' hf hk =>
      refine .inl (h.retains_window hid.symm (hu.of_eq ?_ ?_ ?_) (Pool.blob_congr ?_ ?_))
      · rw [hf]
      · rw [hf]
      · rw [hf]
      · unfold Pool.texts
        rw [hl', Pool.rows_keeps hk fun _ hc => hc]
      · rw [hf]
    | current heq _ => exact .inr heq

/-! ## Commands -/

/-- A document shows the bytes that were loaded, as a listing is none. -/
theorem storedText_shown {loaded : Loaded} {path : List Char} {report : Report} {whole : Bool}
    (hu : e.window.Unmodified) (hshown : loaded.ShownIn e) :
    storedText (.ok report) (some .edit) whole (.load path (.ok loaded)) =
      some (e.pool.blob e.window) := by
  cases loaded with
  | file bytes =>
    have hd : e.Displays bytes := hshown
    have hblob : e.pool.blob e.window = bytes := by
      unfold Pool.blob
      rw [hd.texts_eq, hd.flags_eq, Bool.not_not, Blob.join_split]
    rw [hblob]
    rfl
  | directory entries =>
    have hd : e.window.flags.directory = true := hshown
    have hmode := hu.mode_eq
    unfold Window.mode at hmode
    rw [if_pos hd] at hmode
    cases hmode

/-- What a command brings about in the window that is current afterwards: it has the text that was
stored or loaded, or none was and it has an old text, or is new and empty, or an undo gave it another
text. -/
theorem Effect.current (h : e.Held) {cmd : Option Command} {range : LineRange} {tail : List Char}
    {x : Traffic} {answer : Except EditError Report} (heff : e.Effect cmd range tail x answer e')
    (hu : e'.window.Unmodified) :
    storedText answer cmd (range.spans e.window) x = some (e'.pool.blob e'.window) ∨
      storedText answer cmd (range.spans e.window) x = none ∧
        (e.Retains e' e'.window ∨ (e.nextWindow ≤ e'.window.id ∧ e'.pool.blob e'.window = []) ∨
          (cmd = some .undo ∧ e.window.Unmodified ∧
            e'.pool.blob e'.window ≠ e.pool.blob e.window)) := by
  have hsame : e.window.Unmodified → e.Retains e e.window := fun hu => h.retains_window rfl hu rfl
  cases heff with
  | refused => exact .inr ⟨storedText_error, .inl (hsame hu)⟩
  | worked hcmd hin =>
    obtain ⟨hu₀, hblob⟩ := hin.unsaved hu
    exact .inr ⟨storedText_of_worksInPlace hcmd, .inl (h.retains_window hin.id_eq.symm hu₀ hblob)⟩
  | @undone _ _ _ _ r hr _ =>
    have hu₀ : e.window.Unmodified := hu.of_eq rfl rfl rfl
    refine .inr ⟨storedText_of_ne (by decide) (by decide), ?_⟩
    by_cases hblob : (e.undone r).pool.blob (e.undone r).window = e.pool.blob e.window
    · exact .inl (h.retains_window rfl hu₀ hblob)
    · exact .inr (.inr ⟨rfl, hu₀, hblob⟩)
  | @wrote _ _ path bytes append count report hbytes =>
    have hstored : storedText (.ok report) (some .write) (range.spans e.window)
        (.write path bytes append (.ok count)) =
        if (range.spans e.window && !append) = true then some bytes else none := by
      simp [storedText, Except.isOk, Except.toBool]
    rw [hstored]
    by_cases hsaves : (range.spans e.window && !append) = true
    · rw [if_pos hsaves, hbytes (Bool.and_eq_true_iff.mp hsaves).1]
      exact .inl rfl
    · rw [if_neg hsaves]
      refine .inr ⟨rfl, .inl (h.retains_window rfl (hu.of_eq rfl rfl ?_) rfl)⟩
      rw [Bool.not_eq_true] at hsaves
      rw [hsaves]
      exact Bool.and_true _
  | told => exact .inr ⟨rfl, .inl (hsame hu)⟩
  | warned _ _ => exact .inr ⟨storedText_error, .inl (h.retains_window rfl hu rfl)⟩
  | failed => exact .inr ⟨storedText_error, .inl (h.retains_window rfl hu rfl)⟩
  | quit _ =>
    exact .inr ⟨storedText_of_ne (by decide) (by decide), .inl (h.retains_window rfl hu rfl)⟩
  | @closed _ _ _ _ n s p _ hs _ hk =>
    have hn := SessionTable.ne_of_get? hs h.vacant.2.2
    have hs' : e.table.get? n = some s := (e.table_get?_of_ne hn).trans hs
    refine .inr ⟨storedText_of_ne (by decide) (by decide), .inl (retains_other hn hs' ?_ hu hk)⟩
    exact List.mem_append_right _ (List.mem_singleton_self _)
  | switched hs =>
    refine .inr ⟨rfl, .inl (retains_same hs ?_ hu rfl)⟩
    exact List.mem_append_right _ (List.mem_singleton_self _)
  | started _ _ _ => exact .inr ⟨rfl, .inr (.inl ⟨Nat.le_refl _, rfl⟩)⟩
  | moved _ _ _ =>
    exact .inr ⟨storedText_of_ne (by decide) (by decide), .inl (h.retains_window rfl hu rfl)⟩
  | @popped _ _ _ _ undo p w rest hd hb =>
    refine .inr ⟨storedText_of_ne (by decide) (by decide), .inl ?_⟩
    exact h.retains_below (hb ▸ List.mem_cons_self) hu hd.keeps.right.left
  | replaced _ _ _ _ _ hshown => exact .inl (storedText_shown hu hshown)
  | pushed _ _ hshown => exact .inl (storedText_shown hu hshown)

/-! ## Lines -/

theorem Retains.of_begun (h : e.Held) {cmd : Option Command} {r : Recall}
    (hr : ((e.begun cmd).withRecall r).Retains e' w) : e.Retains e' w := by
  obtain ⟨w₀, hw₀, hid, hu, hblob⟩ := hr
  have hl : e.Leaves ((e.begun cmd).withRecall r) True :=
    leaves_begun ((InPlace.refl (h.begun cmd r)).leaves True)
  rcases hl.retains h hw₀ hu with ⟨v, hv, hid', hu', hblob'⟩ | rfl
  · exact ⟨v, hv, hid'.trans hid, hu', hblob.trans hblob'⟩
  · rw [begun_eq] at hid hu hblob
    exact h.retains_window hid (hu.of_eq rfl rfl rfl) hblob

section
variable {line : List Char} {x : Traffic} {answer : Except EditError Report}

theorem stores_of_none (h : e.asks line = none) : e.stores line x answer = none := by
  rw [stores, h]
  rfl

theorem stores_error (err : EditError) : e.stores line x (.error err) = none := by
  unfold stores
  cases e.asks line with
  | none => rfl
  | some q =>
    cases hrange : e.rangeOf q with
    | none => simp [hrange]
    | some range => simp [storedText_error]

theorem stores_of_range {q : Request} {range : LineRange} (hq : e.asks line = some q)
    (hrange : e.rangeOf q = some range) :
    e.stores line x answer = storedText answer q.command (range.spans e.window) x := by
  rw [stores, hq]
  simp [hrange]

theorem Turns.current (h : e.Held) (hturn : e.Turns line x answer e') (hu : e'.window.Unmodified) :
    e.stores line x answer = some (e'.pool.blob e'.window) ∨
      e.stores line x answer = none ∧
        (e.Retains e' e'.window ∨ (e.nextWindow ≤ e'.window.id ∧ e'.pool.blob e'.window = []) ∨
          ((∃ q, e.asks line = some q ∧ q.command = some .undo) ∧ e.window.Unmodified ∧
            e'.pool.blob e'.window ≠ e.pool.blob e.window)) := by
  cases hturn with
  | typed hasks _ hin =>
    obtain ⟨hu₀, hblob⟩ := hin.unsaved hu
    exact .inr ⟨stores_of_none hasks, .inl (h.retains_window hin.id_eq.symm hu₀ hblob)⟩
  | unread hasks _ => exact .inr ⟨stores_of_none hasks, .inl (h.retains_window rfl hu rfl)⟩
  | @refused q _ _ r _ =>
    have hbegun := h.begun q.command r
    exact .inr ⟨stores_error _, .inl (.of_begun h (hbegun.retains_window rfl hu rfl))⟩
  | @ran q range _ _ _ r hq hrange heff =>
    have hcurrent := heff.current (h.begun _ r) hu
    have hwindow : range.spans ((e.begun q.command).withRecall r).window = range.spans e.window ∧
        ((e.begun q.command).withRecall r).nextWindow = e.nextWindow ∧
        (((e.begun q.command).withRecall r).window.Unmodified → e.window.Unmodified) ∧
        ((e.begun q.command).withRecall r).pool.blob ((e.begun q.command).withRecall r).window =
          e.pool.blob e.window := by
      rw [begun_eq]
      exact ⟨rfl, rfl, fun hu => hu.of_eq rfl rfl rfl, rfl⟩
    obtain ⟨hspans, hnext, hunmodified, hblob⟩ := hwindow
    rw [hspans, hnext, hblob] at hcurrent
    rw [stores_of_range hq hrange]
    refine hcurrent.imp_right fun ⟨hnone, hcase⟩ => ⟨hnone, ?_⟩
    rcases hcase with hold | hnew | ⟨hcmd, hu₀, hother⟩
    · exact .inl (hold.of_begun h)
    · exact .inr (.inl hnew)
    · exact .inr (.inr ⟨⟨q, hq, hcmd⟩, hunmodified hu₀, hother⟩)

end

end

end Engine

/-! ## Histories -/

theorem Engine.Held.readable_window {e : Engine} (h : e.Held) {w : Window} (hw : w ∈ e.windows) :
    (e.setWindow w).view.Readable := by
  intro x hx
  obtain ⟨s, hs, hw⟩ := List.mem_flatMap.mp hw
  have ha := h.accounts
  rw [← h.table_contents] at ha
  have hmem := Session.window_contents_subset hw (LineMap.mem_contents.mpr ⟨x, hx, rfl⟩)
  obtain ⟨text, hget, -⟩ := ha.get (SessionTable.contents_subset hs hmem)
  exact ⟨text, hget, trivial⟩

namespace Turn

section
variable {t : Turn}

theorem Ran.reachable (h : t.Ran) (hr : t.before.Reachable) : t.after.Reachable := by
  obtain ⟨disk', hrun⟩ := h
  exact hr.dispatch hrun

theorem Ran.stores (h : t.Ran) (hr : t.before.Reachable) {w : Window} (hw : w ∈ t.after.windows)
    (hu : w.Unmodified) : t.storedIn w.id = some (t.after.pool.blob w) ∨
      t.storedIn w.id = none ∧ (t.before.Retains t.after w ∨
        (t.before.nextWindow ≤ w.id ∧ t.after.pool.blob w = []) ∨ t.Slips w.id) := by
  have hheld := hr.steady.toHeld
  have hturns := h.turns hr.steady
  have hafter := (h.reachable hr).shelved
  by_cases hcurrent : w = t.after.window
  · subst hcurrent
    unfold storedIn
    rw [if_pos rfl]
    refine (hturns.current hheld hu).imp_right fun ⟨hnone, hcase⟩ => ⟨hnone, ?_⟩
    rcases hcase with hold | hnew | ⟨hundo, hu₀, hother⟩
    · exact .inl hold
    · exact .inr (.inl hnew)
    · exact .inr (.inr ⟨hundo, hu₀, rfl, hother⟩)
  · have hne : t.after.window.id ≠ w.id := by
      intro hid
      have hmem := hafter.toHeld.mem_windows_session t.after.window_mem_session
      exact hcurrent (hafter.eq_of_id_eq hmem hw hid.symm)
    have hretains := (hturns.leaves hheld).retains hheld hw hu
    exact .inr ⟨if_neg hne, .inl (hretains.resolve_right hcurrent)⟩

end

end Turn

namespace History

section
variable {turns : List Turn} {e : Engine}

theorem id_lt (h : History turns e) {t : Turn} (ht : t ∈ turns) : t.after.window.id < e.nextWindow := by
  induction h with
  | new limits => cases ht
  | interrupt _ ih => exact ih ht
  | line u h hran ih =>
    have hr := h.reachable
    rcases List.mem_cons.mp ht with rfl | ht
    · have hafter := (hran.reachable hr).shelved
      exact hafter.id_lt (hafter.toHeld.mem_windows_session t.after.window_mem_session)
    · have hle := ((hran.turns hr.steady).leaves hr.steady.toHeld).next_le
      exact Nat.lt_of_lt_of_le (ih ht) hle

theorem lastStored_of_le (h : History turns e) {n : Nat} (hn : e.nextWindow ≤ n) :
    Turn.lastStored n turns = [] := by
  have hnone : turns.findSome? (Turn.storedIn n) = none := by
    rw [List.findSome?_eq_none_iff]
    intro t ht
    have hlt := h.id_lt ht
    exact if_neg (by omega)
  rw [Turn.lastStored, hnone]
  rfl

theorem blob_of_new {limits : Limits} {w : Window} (hw : w ∈ (Engine.new limits).windows) :
    (Engine.new limits).pool.blob w = [] := by
  rw [Engine.windows_new] at hw
  rw [List.mem_singleton.mp hw]
  rfl

theorem blob_eq (h : History turns e) {w : Window} (hw : w ∈ e.windows) (hu : w.Unmodified)
    (hundo : ∀ t ∈ Turn.sinceStored w.id turns, ¬t.Slips w.id) :
    e.pool.blob w = Turn.lastStored w.id turns := by
  -- on the history: the newest line stored the text, or left one that earlier lines account for
  induction h generalizing w with
  | new limits => exact blob_of_new hw
  | interrupt _ ih => exact ih hw hu hundo
  | @line turns t h hran ih =>
    unfold Turn.lastStored Turn.sinceStored at *
    rcases hran.stores h.reachable hw hu with hstored | ⟨hnone, hcase⟩
    · rw [List.findSome?_cons, hstored]
      rfl
    · rw [List.takeWhile_cons_of_pos (by rw [hnone]; rfl)] at hundo
      rw [List.findSome?_cons, hnone]
      obtain ⟨hlast, hearlier⟩ := List.forall_mem_cons.mp hundo
      rcases hcase with ⟨w₀, hw₀, hid, hu₀, hblob⟩ | ⟨hnew, hempty⟩ | hslips
      · rw [hblob, ← hid]
        exact ih hw₀ hu₀ (hid ▸ hearlier)
      · rw [hempty]
        exact (h.lastStored_of_le hnew).symm
      · exact absurd hslips hlast

/-- A document of which no edit is noted is saved. In a normal window with the flag clear, whichever
session it belongs to, the whole text is the one that was loaded into the window by `e` or written
from it by `w` last, or the empty text if there is none; unless an undo has changed the text since
then, while no edit was noted. -/
theorem saved (h : History turns e) {w : Window} (hw : w ∈ e.windows) (hmode : w.mode = .normal)
    (hchanged : w.flags.changed = false)
    (hundo : ∀ t ∈ Turn.sinceStored w.id turns, ¬t.Slips w.id) :
    (e.setWindow w).run (EditM.extractRange 1 w.dol) =
      .ok (.ok (Turn.lastStored w.id turns), e.setWindow w) := by
  have hheld := h.reachable.steady.toHeld
  have hreadable : (e.setWindow w).view.Readable := hheld.readable_window hw
  have hwhole := EditM.extractRange_whole hreadable (Nat.le_refl 1) fun _ => rfl
  rw [← h.blob_eq hw ⟨hmode, hchanged⟩ hundo]
  exact hwhole

/-- A file is loaded and its line shown. -/
theorem saved_loaded_file : ∃ load print : Turn, load.line = ['e', ' ', 'f'] ∧ print.line = ['p'] ∧
    History [print, load] print.after ∧
      print.after.run (EditM.extractRange 1 1) = .ok (.ok [97, 10], print.after) := by
  have hall : ((Engine.new ⟨1, 10, 100⟩).dispatchOn FileTree.storage ['e', ' ', 'f']
        ⟨[([[102]], .file [97, 10])]⟩ >>= fun r₁ =>
      r₁.2.1.dispatchOn FileTree.storage ['p'] .empty >>= fun r₂ =>
        return ((r₂.2.1.window.mode, r₂.2.1.window.flags.changed, r₂.2.1.window.dol),
          (r₁.2.1.asks ['p']).map Request.command,
          [Turn.storedIn r₂.2.1.window.id ⟨FileTree.storage, .empty, r₁.2.1, ['p'], r₂.1, r₂.2.1⟩,
          Turn.storedIn r₂.2.1.window.id ⟨FileTree.storage, ⟨[([[102]], .file [97, 10])]⟩,
            .new ⟨1, 10, 100⟩, ['e', ' ', 'f'], r₁.1, r₁.2.1⟩])) =
      .ok ((.normal, false, 1), some (some (.line (.print .plain))), [none, some [97, 10]]) := by
    decide +kernel
  obtain ⟨⟨answer₁, e₁, disk₁⟩, h₁, hall⟩ := bind_eq_ok.mp hall
  obtain ⟨⟨answer₂, e₂, disk₂⟩, h₂, hall⟩ := bind_eq_ok.mp hall
  have hvalues := Except.ok.inj hall
  simp only [Prod.mk.injEq, List.cons.injEq, and_true] at hvalues
  obtain ⟨⟨hmode, hchanged, hdol⟩, hcommand, hnone, hload⟩ := hvalues
  have hturns : History [⟨FileTree.storage, .empty, e₁, ['p'], answer₂, e₂⟩,
      ⟨FileTree.storage, _, .new ⟨1, 10, 100⟩, ['e', ' ', 'f'], answer₁, e₁⟩] e₂ :=
    .line _ (.line _ (.new _) ⟨_, h₁⟩) ⟨_, h₂⟩
  have hheld := hturns.reachable.steady.toHeld
  have hsaved := hturns.saved (hheld.mem_windows_session e₂.window_mem_session) hmode hchanged
  rw [hdol, Turn.sinceStored, List.takeWhile_cons_of_pos (by rw [hnone]; rfl),
    List.takeWhile_cons_of_neg (by rw [hload]; decide), Turn.lastStored, List.findSome?_cons, hnone,
    List.findSome?_cons, hload] at hsaved
  refine ⟨_, _, rfl, rfl, hturns, hsaved fun t ht => ?_⟩
  -- the line that came after the loading is no undo
  rw [List.mem_singleton.mp ht]
  rintro ⟨⟨q, hq, hundo⟩, -⟩
  have hasks : e₁.asks ['p'] = some q := hq
  rw [hasks, Option.map_some, hundo] at hcommand
  cases hcommand

/-- A line is typed, written to a file, and then undone: the window is empty, but no edit is noted. -/
theorem undo_leaves_no_note : ∃ turns e,
    turns.reverse.map Turn.line = [['a'], ['x'], ['.'], ['w', ' ', 'f'], ['u']] ∧ History turns e ∧
      e.window ∈ e.windows ∧ e.window.mode = .normal ∧ e.window.flags.changed = false ∧
      e.run (EditM.extractRange 1 e.window.dol) = .ok (.ok [], e) ∧
      Turn.lastStored e.window.id turns = [120, 10] := by
  have hall : ((Engine.new ⟨1, 10, 100⟩).dispatchOn FileTree.storage ['a'] .empty >>= fun r₁ =>
      r₁.2.1.dispatchOn FileTree.storage ['x'] .empty >>= fun r₂ =>
      r₂.2.1.dispatchOn FileTree.storage ['.'] .empty >>= fun r₃ =>
      r₃.2.1.dispatchOn FileTree.storage ['w', ' ', 'f'] .empty >>= fun r₄ =>
      r₄.2.1.dispatchOn FileTree.storage ['u'] .empty >>= fun r₅ =>
        return ((r₅.2.1.window.mode, r₅.2.1.window.flags.changed, r₅.2.1.pool.blob r₅.2.1.window),
          [Turn.storedIn r₅.2.1.window.id ⟨FileTree.storage, .empty, r₄.2.1, ['u'], r₅.1, r₅.2.1⟩,
          Turn.storedIn r₅.2.1.window.id
            ⟨FileTree.storage, .empty, r₃.2.1, ['w', ' ', 'f'], r₄.1, r₄.2.1⟩])) =
      .ok ((.normal, false, []), [none, some [120, 10]]) := by decide +kernel
  obtain ⟨⟨answer₁, e₁, disk₁⟩, h₁, hall⟩ := bind_eq_ok.mp hall
  obtain ⟨⟨answer₂, e₂, disk₂⟩, h₂, hall⟩ := bind_eq_ok.mp hall
  obtain ⟨⟨answer₃, e₃, disk₃⟩, h₃, hall⟩ := bind_eq_ok.mp hall
  obtain ⟨⟨answer₄, e₄, disk₄⟩, h₄, hall⟩ := bind_eq_ok.mp hall
  obtain ⟨⟨answer₅, e₅, disk₅⟩, h₅, hall⟩ := bind_eq_ok.mp hall
  have hvalues := Except.ok.inj hall
  simp only [Prod.mk.injEq, List.cons.injEq, and_true] at hvalues
  obtain ⟨⟨hmode, hchanged, hblob⟩, hnone, hwrite⟩ := hvalues
  have hturns : History [⟨FileTree.storage, .empty, e₄, ['u'], answer₅, e₅⟩,
      ⟨FileTree.storage, .empty, e₃, ['w', ' ', 'f'], answer₄, e₄⟩,
      ⟨FileTree.storage, .empty, e₂, ['.'], answer₃, e₃⟩,
      ⟨FileTree.storage, .empty, e₁, ['x'], answer₂, e₂⟩,
      ⟨FileTree.storage, .empty, .new ⟨1, 10, 100⟩, ['a'], answer₁, e₁⟩] e₅ :=
    .line _ (.line _ (.line _ (.line _ (.line _ (.new _) ⟨_, h₁⟩) ⟨_, h₂⟩) ⟨_, h₃⟩) ⟨_, h₄⟩) ⟨_, h₅⟩
  have hheld := hturns.reachable.steady.toHeld
  refine ⟨_, e₅, rfl, hturns, hheld.mem_windows_session e₅.window_mem_session, hmode, hchanged, ?_, ?_⟩
  · have hwhole := EditM.extractRange_whole hheld.readable (Nat.le_refl 1) fun _ => rfl
    rw [hwhole, ← hblob]
    rfl
  · rw [Turn.lastStored, List.findSome?_cons, hnone, List.findSome?_cons, hwrite]
    rfl

end

end History

end LineEditor
