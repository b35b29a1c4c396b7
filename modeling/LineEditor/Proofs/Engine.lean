import LineEditor.Command.Entry
import LineEditor.Engine.Sessions
import LineEditor.Proofs.Undo
import Mathlib.Algebra.BigOperators.Group.List.Basic

/-!
# The invariant of the engine

`Engine.Sound` is what holds at every moment of a command, `Engine.Steady` what holds between
commands, when no line is marked. Both say that the pool accounts for the entries of all windows and
undo records, that dot and labels are placed everywhere, and that a text being typed fits the window
it is for.
-/

namespace LineEditor

/-! ## The session table -/

namespace SessionTable

/-- Slot `n` is there and has no session. -/
def Vacant (t : SessionTable) (n : Nat) : Prop := 1 ≤ n ∧ n ≤ t.max ∧ t.get? n = none

theorem put_perm {t : SessionTable} {n : Nat} (hv : t.Vacant n) (s : Session) :
    (t.put n (some s)).sessions.Perm (s :: t.sessions) := by
  obtain ⟨h₁, hn, hget⟩ := hv
  obtain ⟨i, rfl⟩ : ∃ i, n = i + 1 := ⟨n - 1, by omega⟩
  have hi : i < t.slots.length := hn
  have hnone : t.slots[i] = none := by simpa [get?, hi] using hget
  have hset : t.slots.set i (some s) = t.slots.take i ++ some s :: t.slots.drop (i + 1) :=
    List.set_eq_take_append_cons_drop ▸ if_pos hi
  have hsplit : t.slots = t.slots.take i ++ none :: t.slots.drop (i + 1) := by
    rw [← hnone, List.getElem_cons_drop hi, List.take_append_drop]
  unfold sessions put
  simp only [hset]
  conv_rhs => rw [hsplit]
  simp only [List.filterMap_append, List.filterMap_cons, id]
  exact List.perm_middle

theorem get?_put_self {t : SessionTable} {n : Nat} (h₁ : 1 ≤ n) (hn : n ≤ t.max)
    (s : Option Session) : (t.put n s).get? n = s := by
  obtain ⟨i, rfl⟩ : ∃ i, n = i + 1 := ⟨n - 1, by omega⟩
  have hi : i < t.slots.length := hn
  simp [put, get?, hi]

theorem get?_put_of_ne (t : SessionTable) {n k : Nat} (s : Option Session) (hk : k ≠ n) :
    (t.put n s).get? k = t.get? k := by
  cases n with
  | zero => rfl
  | succ i =>
    cases k with
    | zero => rfl
    | succ j =>
      have hij : i ≠ j := fun h => hk (by rw [h])
      simp [put, get?, hij]

theorem max_put (t : SessionTable) (n : Nat) (s : Option Session) : (t.put n s).max = t.max := by
  cases n with
  | zero => rfl
  | succ i => simp [put, max]

theorem put_put (t : SessionTable) (n : Nat) (r s : Option Session) :
    (t.put n r).put n s = t.put n s := by
  cases n with
  | zero => rfl
  | succ i => simp [put]

theorem put_self {t : SessionTable} {n : Nat} {s : Option Session} (h : t.get? n = s) :
    t.put n s = t := by
  cases n with
  | zero => rfl
  | succ i =>
    show (⟨t.slots.set i s⟩ : SessionTable) = t
    by_cases hi : i < t.slots.length
    · have hs : t.slots[i] = s := by simpa [get?, hi] using h
      rw [← hs, List.set_getElem_self]
    · rw [List.set_eq_of_length_le (Nat.le_of_not_lt hi)]

theorem slot_of_get? {t : SessionTable} {n : Nat} {s : Session} (h : t.get? n = some s) :
    1 ≤ n ∧ n ≤ t.max := by
  cases n with
  | zero => cases h
  | succ i =>
    refine ⟨Nat.succ_pos i, ?_⟩
    by_contra hi
    have hnone : t.slots[i]? = none := List.getElem?_eq_none (Nat.le_of_lt_succ (Nat.lt_of_not_le hi))
    simp [get?, hnone] at h

theorem vacant_put_none {t : SessionTable} {n : Nat} (h₁ : 1 ≤ n) (hn : n ≤ t.max) :
    (t.put n none).Vacant n :=
  ⟨h₁, by rwa [max_put], get?_put_self h₁ hn none⟩

theorem take_perm {t : SessionTable} {n : Nat} {s : Session} (h : t.get? n = some s) :
    t.sessions.Perm (s :: (t.put n none).sessions) := by
  obtain ⟨h₁, hn⟩ := slot_of_get? h
  have hback : (t.put n none).put n (some s) = t := by
    rw [put_put]
    exact put_self h
  have hperm := put_perm (vacant_put_none h₁ hn) s
  rw [hback] at hperm
  exact hperm

end SessionTable

/-! ## What is held -/

namespace Session

/-- What the windows beneath the current one hold. -/
def beneath (s : Session) : Multiset (Handle × Option Suffix) :=
  (s.below.map fun w => w.lines.contents).sum

/-- What a session holds. -/
def contents (s : Session) : Multiset (Handle × Option Suffix) :=
  s.current.lines.contents + (s.undo.contents + s.beneath)

theorem windows_contents (s : Session) :
    (s.windows.map fun w => w.lines.contents).sum = s.current.lines.contents + s.beneath := by
  unfold windows beneath
  rw [List.map_append, List.sum_append, List.map_reverse, List.sum_reverse, List.map_singleton,
    List.sum_singleton, add_comm]

theorem coe_flatMap {f : α → List Handle} {g : α → Multiset (Handle × Option Suffix)}
    (h : ∀ a, (f a : Multiset Handle) = (g a).map Prod.fst) (l : List α) :
    (l.flatMap f : Multiset Handle) = (l.map g).sum.map Prod.fst := by
  induction l with
  | nil => rfl
  | cons a l ih =>
    rw [List.flatMap_cons, List.map_cons, List.sum_cons, Multiset.map_add, ← ih, ← h,
      Multiset.coe_add]

theorem coe_handles (s : Session) : (s.handles : Multiset Handle) = s.contents.map Prod.fst := by
  have hwindows : (s.windows.flatMap fun w => w.lines.handles : Multiset Handle) = _ :=
    coe_flatMap (fun w : Window => (LineMap.map_fst_contents w.lines).symm) s.windows
  have hundo : (((s.undo.record.map fun r => r.lines.handles).getD [] : List Handle) :
      Multiset Handle) = s.undo.contents.map Prod.fst := by
    cases hr : s.undo.record with
    | none =>
      rw [UndoSlot.contents_of_none hr]
      rfl
    | some r =>
      rw [UndoSlot.contents_of_some hr, LineMap.map_fst_contents]
      rfl
  unfold handles
  rw [← Multiset.coe_add, hwindows, hundo, windows_contents, ← Multiset.map_add]
  unfold contents
  congr 1
  abel

theorem subset_sum {f : α → Multiset β} {l : List α} {a : α} (ha : a ∈ l) : f a ⊆ (l.map f).sum := by
  induction l with
  | nil => cases ha
  | cons b l ih =>
    intro c hc
    rw [List.map_cons, List.sum_cons, Multiset.mem_add]
    rcases List.mem_cons.mp ha with rfl | ha
    · exact .inl hc
    · exact .inr (ih ha hc)

theorem window_contents_subset {s : Session} {w : Window} (hw : w ∈ s.windows) :
    w.lines.contents ⊆ s.contents := by
  intro c hc
  have hmem := subset_sum (f := fun w : Window => w.lines.contents) hw hc
  rw [windows_contents] at hmem
  unfold contents
  rw [add_left_comm]
  exact Multiset.mem_add.mpr (.inr hmem)

theorem record_contents_subset {s : Session} {r : UndoRecord} (hr : s.undo.record = some r) :
    r.lines.contents ⊆ s.contents := by
  intro c hc
  unfold contents
  rw [UndoSlot.contents_of_some hr]
  exact Multiset.mem_add.mpr (.inr (Multiset.mem_add.mpr (.inl hc)))

/-- A session as it is when it is not current. -/
structure Settled (s : Session) : Prop where
  current : s.current.Settled
  below : ∀ w ∈ s.below, w.Settled
  record : ∀ r, s.undo.record = some r → r.Settled

theorem Settled.of_mem_windows {s : Session} (h : s.Settled) {w : Window} (hw : w ∈ s.windows) :
    w.Settled := by
  rcases List.mem_append.mp hw with hw | hw
  · exact h.below w (List.mem_reverse.mp hw)
  · rw [List.mem_singleton.mp hw]
    exact h.current

theorem contents_ofWindow (w : Window) : (ofWindow w).contents = w.lines.contents := by
  simp [contents, ofWindow, beneath, UndoSlot.contents, UndoSlot.empty]

theorem settled_ofWindow {w : Window} (hw : w.Settled) : (ofWindow w).Settled :=
  ⟨hw, by simp [ofWindow], by simp [ofWindow, UndoSlot.empty]⟩

end Session

namespace SessionTable

/-- What the sessions of a table hold. -/
def contents (t : SessionTable) : Multiset (Handle × Option Suffix) :=
  (t.sessions.map Session.contents).sum

theorem contents_subset {t : SessionTable} {s : Session} (hs : s ∈ t.sessions) :
    s.contents ⊆ t.contents :=
  Session.subset_sum hs

theorem contents_put {t : SessionTable} {n : Nat} (hv : t.Vacant n) (s : Session) :
    (t.put n (some s)).contents = s.contents + t.contents := by
  have hsum := ((put_perm hv s).map Session.contents).sum_eq
  rwa [List.map_cons, List.sum_cons] at hsum

theorem contents_take {t : SessionTable} {n : Nat} {s : Session} (h : t.get? n = some s) :
    t.contents = s.contents + (t.put n none).contents := by
  have hsum := ((take_perm h).map Session.contents).sum_eq
  rwa [List.map_cons, List.sum_cons] at hsum

end SessionTable

namespace Engine

/-- What windows other than the current one and records of other sessions hold. -/
def elsewhere (e : Engine) : Multiset (Handle × Option Suffix) :=
  e.session.beneath + e.others.contents

/-- What is held beside the current window. -/
def beside (e : Engine) : Multiset (Handle × Option Suffix) := e.session.undo.contents + e.elsewhere

/-- What the engine holds. -/
def contents (e : Engine) : Multiset (Handle × Option Suffix) :=
  e.window.lines.contents + e.beside

/-- A text being typed is for the current window, fits it, and was begun after any warning of
unsaved edits. -/
structure EntryFits (e : Engine) (t : TextEntry) : Prop where
  window_eq : t.window = e.window.id
  after_le : t.after ≤ e.window.dol
  fits : (EditM.entryEdit t).Fits e.window.dol
  calm : e.quitArmed = false

/-- The slot of the current session is kept free for it, and the pool accounts for what windows and
records hold. -/
structure Held (e : Engine) : Prop where
  vacant : e.others.Vacant e.slot
  accounts : e.pool.Accounts e.contents

/-- The invariant at every moment; lines of the current window may be marked. -/
structure Sound (e : Engine) : Prop extends e.Held where
  consistent : e.window.Consistent
  below : ∀ w ∈ e.session.below, w.Settled
  record : ∀ r, e.session.undo.record = some r → r.Settled
  others : ∀ s ∈ e.others.sessions, s.Settled
  entry : ∀ t, e.entry = some t → e.EntryFits t

/-- The invariant between commands. -/
structure Steady (e : Engine) : Prop extends e.Sound where
  unmarked : e.window.lines.Unmarked

/-- There is one session at first. -/
theorem others_new (limits : Limits) : (Engine.new limits).others.sessions = [] := by
  simp [Engine.new, SessionTable.sessions, SessionTable.ofSize]

theorem steady_new (limits : Limits) : (Engine.new limits).Steady where
  vacant := by
    refine ⟨Nat.le_refl 1, ?_, ?_⟩
    · show 1 ≤ (List.replicate (max limits.sessions 1) none).length
      rw [List.length_replicate]
      exact Nat.le_max_right _ _
    · simp [Engine.new, SessionTable.ofSize, SessionTable.get?]
  accounts := by
    have hzero : (Engine.new limits).contents = 0 := by
      simp only [contents, beside, elsewhere, SessionTable.contents, others_new]
      simp [Engine.new, window, Session.ofWindow, Window.empty, Session.beneath, UndoSlot.contents,
        UndoSlot.empty]
    rw [hzero]
    exact .empty
  consistent := Window.consistent_empty _ _
  below := by simp [Engine.new, Session.ofWindow]
  record := by simp [Engine.new, Session.ofWindow, UndoSlot.empty]
  others := by simp [others_new]
  entry := by simp [Engine.new]
  unmarked := (Window.settled_empty _ _).unmarked

theorem contents_eq_session (e : Engine) : e.contents = e.session.contents + e.others.contents := by
  unfold contents beside elsewhere Session.contents window
  abel

section
variable {e : Engine}

theorem Steady.session_settled (h : e.Steady) : e.session.Settled :=
  ⟨⟨h.consistent, h.unmarked⟩, h.below, h.record⟩

/-- All sessions are those of the table with the current one in its slot. -/
theorem Held.table_perm (h : e.Held) : e.table.sessions.Perm (e.session :: e.others.sessions) :=
  SessionTable.put_perm h.vacant e.session

theorem sessions_new (limits : Limits) :
    (Engine.new limits).table.sessions = [(Engine.new limits).session] := by
  have hperm := (steady_new limits).toHeld.table_perm
  rw [others_new] at hperm
  exact List.perm_singleton.mp hperm

theorem Held.table_contents (h : e.Held) : e.table.contents = e.contents := by
  rw [contents_eq_session]
  exact SessionTable.contents_put h.vacant e.session

/-- What window and record hold together is the same when they change places. -/
theorem Held.accounts_swap (h : e.Held) {r : UndoRecord} (hr : e.session.undo.record = some r) :
    e.pool.Accounts (r.lines.contents + (e.window.lines.contents + e.elsewhere)) := by
  have hswap : e.contents = r.lines.contents + (e.window.lines.contents + e.elsewhere) := by
    unfold Engine.contents Engine.beside
    rw [UndoSlot.contents_of_some hr]
    abel
  exact hswap ▸ h.accounts

/-- The references that windows and records hold are those accounted for. -/
theorem Held.coe_handles (h : e.Held) : (e.handles : Multiset Handle) = e.contents.map Prod.fst := by
  rw [← h.table_contents]
  exact Session.coe_flatMap Session.coe_handles e.table.sessions

theorem Steady.table_settled (h : e.Steady) : ∀ s ∈ e.table.sessions, s.Settled := by
  intro s hs
  rcases List.mem_cons.mp (h.table_perm.mem_iff.mp hs) with rfl | hs
  · exact h.session_settled
  · exact h.others s hs

theorem held_of_sessions (hv : e.others.Vacant e.slot)
    (ha : e.pool.Accounts (e.session.contents + e.others.contents)) : e.Held := by
  rw [← contents_eq_session] at ha
  exact ⟨hv, ha⟩

/-- The invariant between commands where no text is being typed. -/
theorem Held.steady (h : e.Held) (hs : e.session.Settled) (ho : ∀ s ∈ e.others.sessions, s.Settled)
    (hn : e.entry = none) : e.Steady := by
  refine ⟨⟨h, hs.current.consistent, hs.below, hs.record, ho, fun t ht => ?_⟩, hs.current.unmarked⟩
  rw [hn] at ht
  cases ht

end

end Engine

end LineEditor
