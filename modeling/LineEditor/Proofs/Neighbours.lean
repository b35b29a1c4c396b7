import LineEditor.Proofs.Browsing
import LineEditor.Proofs.Turns

/-!
# Windows beside the current one

What a line of input leaves alone. The other sessions stay in their slots with their windows and
their records; the windows beneath the current one stay in their session, unless that is closed; and
a window that was not there before is a new one or the current one. Since no two windows have a number in common,
this can be said window by window.
-/

namespace LineEditor

namespace SessionTable

theorem mem_sessions {t : SessionTable} {s : Session} : s ∈ t.sessions ↔ ∃ n, t.get? n = some s := by
  unfold sessions
  rw [List.mem_filterMap]
  constructor
  · rintro ⟨slot, hslot, hs⟩
    obtain ⟨i, hi, hget⟩ := List.getElem_of_mem hslot
    refine ⟨i + 1, ?_⟩
    have hsome : slot = some s := hs
    simp [get?, hi, hget, hsome]
  · rintro ⟨n, hn⟩
    cases n with
    | zero => cases hn
    | succ i =>
      have hjoin : t.slots[i]?.join = some s := hn
      exact ⟨some s, List.mem_of_getElem? (Option.join_eq_some_iff.mp hjoin), rfl⟩

theorem get?_put_some {t : SessionTable} {n k : Nat} {s u : Session}
    (h : (t.put n (some s)).get? k = some u) : (k = n ∧ u = s) ∨ (k ≠ n ∧ t.get? k = some u) := by
  by_cases hk : k = n
  · subst hk
    obtain ⟨h₁, hmax⟩ := slot_of_get? h
    rw [max_put] at hmax
    rw [get?_put_self h₁ hmax] at h
    cases h
    exact .inl ⟨rfl, rfl⟩
  · rw [get?_put_of_ne _ _ hk] at h
    exact .inr ⟨hk, h⟩

theorem ne_of_get? {t : SessionTable} {n k : Nat} {s : Session} (hk : t.get? k = some s)
    (hn : t.get? n = none) : k ≠ n := by
  rintro rfl
  rw [hk] at hn
  cases hn

end SessionTable

namespace Engine

/-- All windows of all sessions. -/
def windows (e : Engine) : List Window := e.table.sessions.flatMap Session.windows

theorem windows_new (limits : Limits) : (Engine.new limits).windows = [.empty 1 .none] := by
  unfold windows
  rw [sessions_new]
  rfl

section
variable {e e' e'' : Engine}

theorem mem_windows {w : Window} :
    w ∈ e.windows ↔ ∃ n s, e.table.get? n = some s ∧ w ∈ s.windows := by
  unfold windows
  rw [List.mem_flatMap]
  constructor
  · rintro ⟨s, hs, hw⟩
    obtain ⟨n, hn⟩ := SessionTable.mem_sessions.mp hs
    exact ⟨n, s, hn, hw⟩
  · rintro ⟨n, s, hn, hw⟩
    exact ⟨s, SessionTable.mem_sessions.mpr ⟨n, hn⟩, hw⟩

theorem window_mem_session (e : Engine) : e.window ∈ e.session.windows :=
  List.mem_append_right _ (List.mem_singleton_self _)

theorem below_mem_session {w : Window} (h : w ∈ e.session.below) : w ∈ e.session.windows :=
  List.mem_append_left _ (List.mem_reverse.mpr h)

theorem mem_session_windows {w : Window} :
    w ∈ e.session.windows ↔ w ∈ e.session.below ∨ w = e.window := by
  unfold Session.windows
  rw [List.mem_append, List.mem_reverse, List.mem_singleton]
  rfl

theorem table_get?_of_ne (e : Engine) {n : Nat} (hn : n ≠ e.slot) : e.table.get? n = e.others.get? n :=
  SessionTable.get?_put_of_ne _ _ hn

/-- Where a window of the session comes from that was the current one. -/
inductive Comes (e e' : Engine) (w : Window) : Prop
  | below : w ∈ e.session.below → Comes e e' w
  | kept : w.id = e.window.id → w.lines = e.window.lines → w.flags = e.window.flags →
    e.pool.Keeps e'.pool (e.window.lines.contents.map Prod.fst) → Comes e e' w
  | current : w = e'.window → (w.id = e.window.id ∨ e.nextWindow ≤ w.id) → Comes e e' w

/-- What may become of sessions and windows in one step: the other sessions stay where they are, the
windows beneath the current one stay in a session, and only the current one may be another by then. If
the current session was closed, its windows are gone. -/
structure Leaves (e e' : Engine) (closing : Prop) : Prop extends e'.Held where
  next_le : e.nextWindow ≤ e'.nextWindow
  others : ∀ n, n ≠ e.slot → ∀ s, e.table.get? n = some s → e'.table.get? n = some s
  below : (closing ∧ ∀ n s, e'.table.get? n = some s → n ≠ e.slot ∧ e.table.get? n = some s) ∨
    e.pool.Keeps e'.pool (e.session.beneath.map Prod.fst) ∧
      ∃ n s, e'.table.get? n = some s ∧ ∀ w ∈ e.session.below, w ∈ s.windows
  origin : ∀ n s, e'.table.get? n = some s →
    (n ≠ e.slot ∧ e.table.get? n = some s) ∨ ∀ w ∈ s.windows, e.Comes e' w
  keeps : e.pool.Keeps e'.pool (e.others.contents.map Prod.fst)

/-- The current session stays in its slot, with other windows. -/
theorem leaves_session (h : e'.Held) (hnext : e.nextWindow ≤ e'.nextWindow) (hslot : e'.slot = e.slot)
    (hothers : e'.others = e.others) (hbelow : ∀ w ∈ e.session.below, w ∈ e'.session.windows)
    (horigin : ∀ w ∈ e'.session.windows, e.Comes e' w)
    (hk : e.pool.Keeps e'.pool (e.elsewhere.map Prod.fst)) (closing : Prop) :
    e.Leaves e' closing where
  toHeld := h
  next_le := hnext
  others n hn s hs := by
    rw [e'.table_get?_of_ne (hslot ▸ hn), hothers, ← e.table_get?_of_ne hn]
    exact hs
  below := .inr ⟨hk.left, e'.slot, e'.session, h.table_get?, hbelow⟩
  origin n s hs := by
    by_cases hn : n = e.slot
    · rw [hn, ← hslot, h.table_get?] at hs
      cases hs
      exact .inr horigin
    · rw [e'.table_get?_of_ne (hslot ▸ hn), hothers, ← e.table_get?_of_ne hn] at hs
      exact .inl ⟨hn, hs⟩
  keeps := hk.right

theorem Confined.leaves (h : e.Confined e') (closing : Prop) : e.Leaves e' closing := by
  refine leaves_session h.toHeld (Nat.le_of_eq h.next_eq.symm) h.slot_eq h.others_eq (fun w hw => ?_)
    (fun w hw => ?_) h.keeps closing
  · exact below_mem_session (h.below_eq ▸ hw)
  · rcases mem_session_windows.mp hw with hw | rfl
    · exact .below (h.below_eq ▸ hw)
    · exact .current rfl (.inl h.id_eq)

/-- The current session is in some slot as it was, and any session that was not there is new. -/
theorem leaves_table (h : e'.Held) (hpool : e'.pool = e.pool) (hnext : e.nextWindow ≤ e'.nextWindow)
    (htable : ∀ n, n ≠ e.slot → ∀ s, e.table.get? n = some s → e'.table.get? n = some s)
    (hself : ∃ n, e'.table.get? n = some e.session)
    (horigin : ∀ n s, e'.table.get? n = some s → (n ≠ e.slot ∧ e.table.get? n = some s) ∨
      s = e.session ∨ ∀ w ∈ s.windows, w = e'.window ∧ e.nextWindow ≤ w.id) (closing : Prop) :
    e.Leaves e' closing where
  toHeld := h
  next_le := hnext
  others := htable
  below := by
    obtain ⟨n, hn⟩ := hself
    exact .inr ⟨hpool ▸ .refl _ _, n, e.session, hn, fun _ hw => below_mem_session hw⟩
  origin n s hs := by
    refine (horigin n s hs).imp_right fun hcase w hw => ?_
    rcases hcase with rfl | hnew
    · rcases mem_session_windows.mp hw with hw | rfl
      · exact .below hw
      · exact .kept rfl rfl rfl (hpool ▸ .refl _ _)
    · exact .current (hnew w hw).1 (.inr (hnew w hw).2)
  keeps := hpool ▸ .refl _ _

theorem table_eq_or {n : Nat} {s : Session} (hs : e.table.get? n = some s) (hheld : e.Held) :
    (n ≠ e.slot ∧ e.table.get? n = some s) ∨ s = e.session := by
  by_cases hn : n = e.slot
  · rw [hn, hheld.table_get?] at hs
    cases hs
    exact .inr rfl
  · exact .inl ⟨hn, hs⟩

theorem table_switched {n : Nat} {s : Session} (hs : e.table.get? n = some s) :
    (e.makeCurrent n s).table = e.table := by
  show (e.table.put n none).put n (some s) = e.table
  rw [SessionTable.put_put, SessionTable.put_self hs]

theorem leaves_switched {n : Nat} {s : Session} (h : e.Held) (hs : e.table.get? n = some s)
    (closing : Prop) : e.Leaves (e.makeCurrent n s) closing := by
  refine leaves_table (e := e) (h.switch hs) rfl (Nat.le_refl _) (fun k _ t ht => ?_) ⟨e.slot, ?_⟩
    (fun k t ht => ?_) closing
  · rwa [table_switched hs]
  · rw [table_switched hs]
    exact h.table_get?
  · rw [table_switched hs] at ht
    exact (table_eq_or ht h).imp_right .inl

theorem table_started (e : Engine) (n : Nat) :
    ((e.newWindow .none).2.makeCurrent n (.ofWindow (e.newWindow .none).1)).table =
      e.table.put n (some (.ofWindow (.empty e.nextWindow .none))) :=
  SessionTable.put_put _ _ _ _

theorem get?_started {n k : Nat} {t : Session} (hs : e.table.get? n = none)
    (ht : e.table.get? k = some t) :
    ((e.newWindow .none).2.makeCurrent n (.ofWindow (e.newWindow .none).1)).table.get? k = some t := by
  rw [table_started, SessionTable.get?_put_of_ne _ _ (SessionTable.ne_of_get? ht hs)]
  exact ht

theorem leaves_started {n : Nat} (h : e.Held) (h₁ : 1 ≤ n) (hn : n ≤ e.table.max)
    (hs : e.table.get? n = none) (closing : Prop) :
    e.Leaves ((e.newWindow .none).2.makeCurrent n (.ofWindow (e.newWindow .none).1)) closing := by
  refine leaves_table (e := e) (h.switch_new h₁ hn hs .none) rfl (Nat.le_succ _)
    (fun k _ t => get?_started hs) ⟨e.slot, get?_started hs h.table_get?⟩ (fun k t ht => ?_) closing
  rw [table_started] at ht
  rcases SessionTable.get?_put_some ht with ⟨-, rfl⟩ | ⟨-, ht⟩
  · refine .inr (.inr fun w hw => ?_)
    rw [List.mem_singleton.mp hw]
    exact ⟨rfl, Nat.le_refl _⟩
  · exact (table_eq_or ht h).imp_right .inl

theorem leaves_moved {n : Nat} (h : e.Held) (h₁ : 1 ≤ n) (hn : n ≤ e.table.max)
    (hs : e.table.get? n = none) (closing : Prop) : e.Leaves { e with slot := n } closing := by
  have hheld := h.move h₁ hn hs
  refine leaves_table (e := e) hheld rfl (Nat.le_refl _) (fun k hk t ht => ?_) ⟨n, hheld.table_get?⟩
    (fun k t ht => ?_) closing
  · show (e.others.put n (some e.session)).get? k = some t
    rw [SessionTable.get?_put_of_ne _ _ (SessionTable.ne_of_get? ht hs), ← e.table_get?_of_ne hk]
    exact ht
  · rcases SessionTable.get?_put_some ht with ⟨-, rfl⟩ | ⟨-, ht⟩
    · exact .inr (.inl rfl)
    · have hk := SessionTable.ne_of_get? ht h.vacant.2.2
      rw [e.table_get?_of_ne hk]
      exact .inl ⟨hk, ht⟩

theorem table_closed {n : Nat} {s : Session} (p : Pool) (hs : e.others.get? n = some s) :
    (e.closed n s p).table = e.others := by
  show (e.others.put n none).put n (some s) = e.others
  rw [SessionTable.put_put, SessionTable.put_self hs]

theorem leaves_closed {n : Nat} {s : Session} {p : Pool} (h : e.Held)
    (hs : e.others.get? n = some s) (ha : p.Accounts e.others.contents)
    (hk : e.pool.Keeps p (e.others.contents.map Prod.fst)) :
    e.Leaves (e.closed n s p) ((e.closed n s p).table.get? e.slot = none) := by
  have htable := table_closed p hs
  have hgone (k : Nat) (t : Session) (ht : (e.closed n s p).table.get? k = some t) :
      k ≠ e.slot ∧ e.table.get? k = some t := by
    rw [htable] at ht
    have hk := SessionTable.ne_of_get? ht h.vacant.2.2
    rw [e.table_get?_of_ne hk]
    exact ⟨hk, ht⟩
  refine ⟨held_of_take hs ha rfl rfl rfl, Nat.le_refl _, fun k hk t ht => ?_, .inl ⟨?_, hgone⟩,
    fun k t ht => .inl (hgone k t ht), hk⟩
  · rw [htable, ← e.table_get?_of_ne hk]
    exact ht
  · rw [htable]
    exact h.vacant.2.2

section
variable {undo : UndoSlot} {p : Pool}

theorem leaves_popped {w : Window} {rest : List Window} (h : e.Held) (hd : e.Dropping undo p)
    (hb : e.session.below = w :: rest) (closing : Prop) :
    e.Leaves (e.popped undo p w rest) closing := by
  have hheld : (e.popped undo p w rest).Held := h.pop hb hd.accounts
  refine leaves_session (e := e) hheld (Nat.le_refl _) rfl rfl (fun v hv => ?_)
    (fun v hv => .below ?_) hd.keeps.right closing
  · rw [popped_windows hb]
    exact List.mem_reverse.mpr hv
  · rw [popped_windows hb] at hv
    exact List.mem_reverse.mp hv

theorem leaves_replaced (hd : e.Dropping undo p) (hc : (e.replaced undo p .none).Confined e')
    (closing : Prop) : e.Leaves e' closing := by
  have hbelow : e'.session.below = e.session.below := hc.below_eq
  have hnext : e.nextWindow ≤ e'.nextWindow := by
    rw [hc.next_eq]
    exact Nat.le_succ _
  refine leaves_session (e := e) hc.toHeld hnext hc.slot_eq hc.others_eq (fun w hw => ?_)
    (fun w hw => ?_) (hd.keeps.right.trans hc.keeps) closing
  · exact below_mem_session (hbelow ▸ hw)
  · rcases mem_session_windows.mp hw with hw | rfl
    · exact .below (hbelow ▸ hw)
    · exact .current rfl (.inr (Nat.le_of_eq hc.id_eq.symm))

theorem elsewhere_pushed (e : Engine) (flags : WindowFlags) :
    (e.pushed flags).elsewhere = e.window.lines.contents + e.elsewhere := by
  unfold elsewhere Session.beneath
  rw [show (e.pushed flags).session.below = e.window :: e.session.below from rfl, List.map_cons,
    List.sum_cons, add_assoc]
  rfl

theorem leaves_pushed (hc : (e.pushed .none).Confined e') (closing : Prop) : e.Leaves e' closing := by
  have hbelow : e'.session.below = e.window :: e.session.below := hc.below_eq
  have hnext : e.nextWindow ≤ e'.nextWindow := by
    rw [hc.next_eq]
    exact Nat.le_succ _
  have hkeeps := hc.keeps
  rw [elsewhere_pushed] at hkeeps
  refine leaves_session (e := e) hc.toHeld hnext hc.slot_eq hc.others_eq (fun w hw => ?_)
    (fun w hw => ?_) hkeeps.right closing
  · refine below_mem_session ?_
    rw [hbelow]
    exact List.mem_cons_of_mem _ hw
  · rcases mem_session_windows.mp hw with hw | rfl
    · rw [hbelow] at hw
      rcases List.mem_cons.mp hw with rfl | hw
      · exact .kept rfl rfl rfl hkeeps.left
      · exact .below hw
    · exact .current rfl (.inr (Nat.le_of_eq hc.id_eq.symm))

end

/-- Warnings, stops and remembered patterns concern no line of a window. -/
theorem leaves_noted {closing : Prop} (r : Recall) (armed stop : Bool)
    (h : Engine.Leaves { e.withRecall r with quitArmed := armed, interrupted := stop } e' closing) :
    e.Leaves e' closing := by
  have hothers (n : Nat) (hn : n ≠ e.slot) :
      (Engine.table { e.withRecall r with quitArmed := armed, interrupted := stop }).get? n =
        e.table.get? n := by
    rw [e.table_get?_of_ne hn]
    exact SessionTable.get?_put_of_ne _ _ hn
  refine ⟨h.toHeld, h.next_le, fun n hn s hs => ?_, ?_, fun n s hs => ?_, h.keeps⟩
  · exact h.others n hn s ((hothers n hn).trans hs)
  · refine Or.imp_left ?_ h.below
    rintro ⟨hclosing, hgone⟩
    refine ⟨hclosing, fun n s hs => ?_⟩
    obtain ⟨hn, hs⟩ := hgone n s hs
    exact ⟨hn, (hothers n hn).symm.trans hs⟩
  · rcases h.origin n s hs with ⟨hn, hs⟩ | hcomes
    · exact .inl ⟨hn, (hothers n hn).symm.trans hs⟩
    · refine .inr fun w hw => ?_
      cases hcomes w hw with
      | below hw => exact .below hw
      | kept hid hl hf hk => exact .kept hid hl hf hk
      | current hw hid => exact .current hw hid

theorem leaves_disarmed {closing : Prop} (h : e.disarmed.Leaves e' closing) : e.Leaves e' closing :=
  leaves_noted e.remembered false e.interrupted h

theorem leaves_begun {closing : Prop} {cmd : Option Command} {r : Recall}
    (h : ((e.begun cmd).withRecall r).Leaves e' closing) : e.Leaves e' closing := by
  rw [begun_eq] at h
  exact leaves_noted r _ r.interrupted h

theorem Leaves.mono {closing closing' : Prop} (h : e.Leaves e' closing) (hc : closing → closing') :
    e.Leaves e' closing' :=
  ⟨h.toHeld, h.next_le, h.others, h.below.imp_left fun hgone => ⟨hc hgone.1, hgone.2⟩, h.origin, h.keeps⟩

/-- Whatever a command does, it leaves other sessions alone, and other windows unless it is `q`. -/
theorem Effect.leaves (h : e.Held) {cmd : Option Command} {range : LineRange} {tail : List Char}
    {x : Traffic} {answer : Except EditError Report} (heff : e.Effect cmd range tail x answer e') :
    e.Leaves e' (cmd = some .quit ∧ (∃ report, answer = .ok report) ∧
      e'.table.get? e.slot = none) := by
  have hd : e.disarmed.Held := ⟨h.vacant, h.accounts⟩
  have hstay (armed : Bool) (closing : Prop) : e.Leaves { e with quitArmed := armed } closing := by
    have hheld : Engine.Held { e with quitArmed := armed } := ⟨h.vacant, h.accounts⟩
    exact leaves_noted e.remembered armed e.interrupted ((InPlace.refl hheld).leaves closing)
  cases heff with
  | refused => exact hstay e.quitArmed _
  | worked _ hin => exact hin.leaves _
  | undone hr hid => exact (h.confined_undone hr).leaves _
  | wrote _ => exact (h.confined_written _ _).leaves _
  | told => exact hstay e.quitArmed _
  | warned _ _ => exact hstay true _
  | failed => exact hstay false _
  | quit _ => exact hstay false _
  | @closed _ _ _ report n s p _ hs ha hk =>
    have hclosed := leaves_disarmed (leaves_closed hd hs ha hk)
    exact hclosed.mono fun hc => ⟨rfl, ⟨report, rfl⟩, hc⟩
  | switched hs => exact leaves_disarmed (leaves_switched hd hs _)
  | started h₁ hn hs => exact leaves_disarmed (leaves_started hd h₁ hn hs _)
  | moved h₁ hn hs => exact leaves_moved h h₁ hn hs _
  | popped hdrop hb => exact leaves_popped h hdrop hb _
  | replaced _ _ _ hdrop hc _ =>
    have hdrop' : e.disarmed.Dropping _ _ := ⟨hdrop.record, hdrop.accounts, hdrop.keeps⟩
    exact leaves_disarmed (leaves_replaced hdrop' hc _)
  | pushed _ hc _ => exact leaves_pushed hc _

theorem Held.begun (h : e.Held) (cmd : Option Command) (r : Recall) :
    ((e.begun cmd).withRecall r).Held := by
  rw [begun_eq]
  exact ⟨h.vacant, h.accounts⟩

theorem Shelved.begun {pages : Pages} (h : e.Shelved pages) (cmd : Option Command) (r : Recall) :
    ((e.begun cmd).withRecall r).Shelved pages := by
  rw [begun_eq]
  exact ((kept_shelved pages).arm h _).recall r

/-- Whatever a line does, it leaves other sessions alone, and other windows unless it is `q`. -/
theorem Turns.leaves (h : e.Held) {line : List Char} {x : Traffic}
    {answer : Except EditError Report} (hturn : e.Turns line x answer e') :
    e.Leaves e' ((∃ q, e.asks line = some q ∧ q.command = some .quit) ∧
      (∃ report, answer = .ok report) ∧ e'.table.get? e.slot = none) := by
  cases hturn with
  | typed _ _ hin => exact hin.leaves _
  | unread _ _ => exact (InPlace.refl h).leaves _
  | refused r _ => exact leaves_begun ((InPlace.refl (h.begun _ r)).leaves _)
  | @ran q _ _ _ _ r hq _ heff =>
    have hslot : ((e.begun q.command).withRecall r).slot = e.slot := by
      rw [begun_eq]
      rfl
    refine leaves_begun ((heff.leaves (h.begun _ r)).mono fun hc => ⟨⟨_, hq, hc.1⟩, hc.2.1, ?_⟩)
    rw [← hslot]
    exact hc.2.2

/-! ## Window by window -/

theorem Shelved.windows_nodup (h : e.Shelved fun _ => none) : (e.windows.map Window.id).Nodup := by
  unfold windows
  rw [List.map_flatMap, List.nodup_flatMap]
  exact ⟨fun s hs => (h.table.listed s hs).numbers_nodup, h.table.apart⟩

theorem Shelved.eq_of_id_eq (h : e.Shelved fun _ => none) {w w' : Window} (hw : w ∈ e.windows)
    (hw' : w' ∈ e.windows) (hid : w'.id = w.id) : w' = w :=
  List.inj_on_of_nodup_map h.windows_nodup hw' hw hid

theorem Shelved.id_lt (h : e.Shelved fun _ => none) {w : Window} (hw : w ∈ e.windows) :
    w.id < e.nextWindow := by
  obtain ⟨s, hs, hw⟩ := List.mem_flatMap.mp hw
  exact (h.table.listed s hs).numbers_lt w hw

theorem Held.mem_windows_session (h : e.Held) {w : Window} (hw : w ∈ e.session.windows) :
    w ∈ e.windows :=
  mem_windows.mpr ⟨e.slot, e.session, h.table_get?, hw⟩

theorem Held.mem_windows (h : e.Held) {w : Window} : w ∈ e.windows ↔
    w ∈ e.session.windows ∨ ∃ n s, n ≠ e.slot ∧ e.table.get? n = some s ∧ w ∈ s.windows := by
  rw [Engine.mem_windows]
  constructor
  · rintro ⟨n, s, hs, hw⟩
    rcases table_eq_or hs h with ⟨hn, hs⟩ | rfl
    · exact .inr ⟨n, s, hn, hs, hw⟩
    · exact .inl hw
  · rintro (hw | ⟨n, s, -, hs, hw⟩)
    · exact ⟨e.slot, e.session, h.table_get?, hw⟩
    · exact ⟨n, s, hs, hw⟩

theorem Leaves.window {closing : Prop} (h : e.Held) (hl : e.Leaves e' closing) {w : Window}
    (hw : w ∈ e.windows) (hid : w.id ≠ e.window.id) :
    w ∈ e'.windows ∨ (closing ∧ w ∈ e.session.windows) := by
  rcases h.mem_windows.mp hw with hw | ⟨n, s, hn, hs, hw⟩
  · refine hl.below.symm.imp (fun ⟨_, n, s, hs, hbelow⟩ => ?_) fun hgone => ⟨hgone.1, hw⟩
    have hbeneath : w ∈ e.session.below :=
      (mem_session_windows.mp hw).resolve_right fun heq => hid (congrArg Window.id heq)
    exact Engine.mem_windows.mpr ⟨n, s, hs, hbelow w hbeneath⟩
  · exact .inl (Engine.mem_windows.mpr ⟨n, s, hl.others n hn s hs, hw⟩)

theorem Leaves.window_eq {closing : Prop} (h : e.Shelved fun _ => none) (hl : e.Leaves e' closing)
    {w w' : Window} (hw : w ∈ e.windows) (hw' : w' ∈ e'.windows) (hid : w'.id = w.id)
    (hne : w.id ≠ e.window.id) : w' = w := by
  obtain ⟨n, s, hs, hw'⟩ := Engine.mem_windows.mp hw'
  -- the window that has the number now may come from any session, but numbers are given out once
  rcases hl.origin n s hs with ⟨-, hs⟩ | hfrom
  · exact h.eq_of_id_eq hw (Engine.mem_windows.mpr ⟨n, s, hs, hw'⟩) hid
  · cases hfrom w' hw' with
    | below hbelow =>
      exact h.eq_of_id_eq hw (h.toHeld.mem_windows_session (below_mem_session hbelow)) hid
    | kept hid' _ _ _ => exact absurd (hid.symm.trans hid') hne
    | current _ hnew =>
      have hlt := h.id_lt hw
      omega

theorem session_contents_subset {n : Nat} {s : Session} (hn : n ≠ e.slot)
    (hs : e.table.get? n = some s) : s.contents ⊆ e.others.contents := by
  rw [e.table_get?_of_ne hn] at hs
  exact SessionTable.contents_subset (SessionTable.mem_sessions.mpr ⟨n, hs⟩)

theorem Leaves.rows {closing : Prop} (h : e.Held) (hl : e.Leaves e' closing) {w : Window}
    (hw : w ∈ e.windows) (hid : w.id ≠ e.window.id) (hw' : w ∈ e'.windows) :
    e'.pool.rows w.lines = e.pool.rows w.lines := by
  have hother {n : Nat} {s : Session} (hs : n ≠ e.slot ∧ e.table.get? n = some s)
      (hw : w ∈ s.windows) : e'.pool.rows w.lines = e.pool.rows w.lines :=
    Pool.rows_keeps hl.keeps fun c hc =>
      session_contents_subset hs.1 hs.2 (Session.window_contents_subset hw hc)
  rcases h.mem_windows.mp hw with hw | ⟨n, s, hn, hs, hw⟩
  · rcases hl.below with ⟨-, hgone⟩ | ⟨hk, -⟩
    · obtain ⟨n, s, hs, hw'⟩ := Engine.mem_windows.mp hw'
      exact hother (hgone n s hs) hw'
    · have hbelow : w ∈ e.session.below :=
        (mem_session_windows.mp hw).resolve_right fun heq => hid (congrArg Window.id heq)
      exact Pool.rows_keeps hk (Session.subset_sum (f := fun w : Window => w.lines.contents) hbelow)
  · exact hother ⟨hn, hs⟩ hw

/-- The rows of a window can be read, and are those that the pool has. -/
theorem Held.readRows_window (h : e.Held) {w : Window} (hw : w ∈ e.windows) :
    e.pool.readRows w.lines = .ok (e.pool.rows w.lines) := by
  obtain ⟨s, hs, hw⟩ := List.mem_flatMap.mp hw
  have ha := h.accounts
  rw [← h.table_contents] at ha
  refine Pool.readRows_eq ha fun c hc => SessionTable.contents_subset hs ?_
  exact Session.window_contents_subset hw hc

theorem Leaves.session_rows {closing : Prop} (hl : e.Leaves e' closing) {n : Nat} {s : Session}
    (hn : n ≠ e.slot) (hs : e.table.get? n = some s) {r : UndoRecord}
    (hr : s.undo.record = some r) : e'.pool.rows r.lines = e.pool.rows r.lines :=
  Pool.rows_keeps hl.keeps fun _ hc =>
    session_contents_subset hn hs (Session.record_contents_subset hr hc)

theorem Held.readRows_record (h : e.Held) {n : Nat} {s : Session} (hs : e.table.get? n = some s)
    {r : UndoRecord} (hr : s.undo.record = some r) :
    e.pool.readRows r.lines = .ok (e.pool.rows r.lines) := by
  have ha := h.accounts
  rw [← h.table_contents] at ha
  refine Pool.readRows_eq ha fun c hc => ?_
  exact SessionTable.contents_subset (SessionTable.mem_sessions.mpr ⟨n, hs⟩)
    (Session.record_contents_subset hr hc)

/-- Windows do not interfere. Whatever line is typed, a window that is not the current one and is
still there afterwards is the same, dot, labels, flags, name and patterns included, and shows the same
lines; one that is gone belonged to the session that `q` closed; and the other sessions stay in their
slots, their records with the same dot, labels and lines. -/
theorem Reachable.windows_apart (h : e.Reachable) (storage : Storage σ) (line : List Char) (disk : σ) :
    ∃ answer e' disk', e.dispatchOn storage line disk = .ok (answer, e', disk') ∧
      (e.windows.map Window.id).Nodup ∧ (e'.windows.map Window.id).Nodup ∧
      (∀ w ∈ e.windows, w.id ≠ e.window.id → ∀ w' ∈ e'.windows, w'.id = w.id → w' = w ∧
        ∃ rows, e.pool.readRows w.lines = .ok rows ∧ e'.pool.readRows w'.lines = .ok rows) ∧
      (∀ w ∈ e.windows, w.id ≠ e.window.id → (∀ w' ∈ e'.windows, w'.id ≠ w.id) →
        w ∈ e.session.windows ∧ e'.table.get? e.slot = none ∧ (∃ report, answer = .ok report) ∧
          ∃ q, e.asks line = some q ∧ q.command = some .quit) ∧
      ∀ n, n ≠ e.slot → ∀ s, e.table.get? n = some s → e'.table.get? n = some s ∧
        ∀ r, s.undo.record = some r →
          ∃ rows, e.pool.readRows r.lines = .ok rows ∧ e'.pool.readRows r.lines = .ok rows := by
  have hs := h.steady
  obtain ⟨⟨answer, e', disk'⟩, hrun, -⟩ := dispatchOn_settles hs storage line disk
  have hl := (dispatchOn_turns hs hrun).leaves hs.toHeld
  refine ⟨answer, e', disk', hrun, h.shelved.windows_nodup,
    (h.dispatch hrun).shelved.windows_nodup, ?_, ?_, ?_⟩
  · intro w hw hne w' hw' hid
    have heq := hl.window_eq h.shelved hw hw' hid hne
    subst heq
    refine ⟨rfl, _, hs.toHeld.readRows_window hw, ?_⟩
    rw [hl.toHeld.readRows_window hw', hl.rows hs.toHeld hw hne hw']
  · intro w hw hne hgone
    rcases hl.window hs.toHeld hw hne with hw' | ⟨⟨hquit, hok, hslot⟩, hsession⟩
    · exact absurd rfl (hgone w hw')
    · exact ⟨hsession, hslot, hok, hquit⟩
  · intro n hn s hget
    have hget' := hl.others n hn s hget
    refine ⟨hget', fun r hr => ⟨_, hs.toHeld.readRows_record hget hr, ?_⟩⟩
    rw [hl.toHeld.readRows_record hget' hr, hl.session_rows hn hget hr]

/-- A second session is closed, and the window of the first one keeps its line. -/
theorem windows_apart_quit : ∃ e e' w,
    (Engine.new ⟨2, 10, 100⟩).performAll
        [.insertBulk 0 [97, 10], .line FileTree.storage .empty ['e', '2']] = .ok e ∧
      e.dispatchOn FileTree.storage ['q'] .empty = .ok (.ok (.ofSwitch ["1"]), e', .empty) ∧
      e.window.id = 2 ∧ w ∈ e.windows ∧ e'.windows = [w] ∧
      e'.pool.readRows w.lines = .ok [.plain [97]] := by
  obtain ⟨e, hstart, -⟩ := (steady_new ⟨2, 10, 100⟩).performAll
    [.insertBulk 0 [97, 10], .line FileTree.storage .empty ['e', '2']]
  have hbefore : ((Engine.new ⟨2, 10, 100⟩).performAll
      [.insertBulk 0 [97, 10], .line FileTree.storage .empty ['e', '2']]).map (fun e =>
        (e.window.id, e.windows.map fun w => (w.id, (e.pool.readRows w.lines).toOption))) =
      .ok (2, [(1, some [.plain [97]]), (2, some [])]) := by decide +kernel
  have hafter : ((Engine.new ⟨2, 10, 100⟩).performAll
      [.insertBulk 0 [97, 10], .line FileTree.storage .empty ['e', '2']] >>= fun e =>
        (e.dispatchOn FileTree.storage ['q'] .empty).map fun r =>
          (r.1, r.2.2, r.2.1.windows.map Window.id)) =
      .ok (.ok (.ofSwitch ["1"]), .empty, [1]) := by decide +kernel
  obtain ⟨answer, e', disk', hrun, -, -, hkeep, -⟩ :=
    Reachable.windows_apart ((Reachable.new _).performAll hstart) FileTree.storage ['q'] .empty
  rw [hstart] at hbefore hafter
  obtain ⟨hcurrent, hwindows⟩ := Prod.mk.inj (Except.ok.inj hbefore)
  obtain ⟨w, ws, hlist, hw, -⟩ := List.map_eq_cons_iff.mp hwindows
  obtain ⟨hid, hrows⟩ := Prod.mk.inj hw
  have hresult : (e.dispatchOn FileTree.storage ['q'] .empty).map (fun r =>
      (r.1, r.2.2, r.2.1.windows.map Window.id)) = .ok (.ok (.ofSwitch ["1"]), .empty, [1]) := hafter
  rw [hrun] at hresult
  obtain ⟨rfl, hrest⟩ := Prod.mk.inj (Except.ok.inj hresult)
  obtain ⟨rfl, hleft⟩ := Prod.mk.inj hrest
  obtain ⟨w', ws', hlist', hid', hnone⟩ := List.map_eq_cons_iff.mp hleft
  rw [List.map_eq_nil_iff] at hnone
  subst hnone
  have hmem : w ∈ e.windows := hlist ▸ List.mem_cons_self
  obtain ⟨rfl, rows, hread, hread'⟩ :=
    hkeep w hmem (by omega) w' (hlist' ▸ List.mem_cons_self) (hid'.trans hid.symm)
  rw [hread] at hrows
  cases hrows
  exact ⟨e, e', w', hstart, hrun, hcurrent, hmem, hlist', hread'⟩

end

end Engine

end LineEditor
