import LineEditor.Proofs.Deeds
import LineEditor.Proofs.Handles
import LineEditor.Proofs.ProperRuns

/-!
# Who names a line

A stored line is named by the entries of one window and of a record of that window, and by no one
else: new lines have handles of their own, copies stay in their window, and a record shares the lines
of the window it is of. So a line has no more references than a window and a record have lines.
-/

namespace LineEditor

theorem Sequence.count_flatMap_le {α β : Type} [BEq β] [LawfulBEq β] {l : List α} {f : α → List β} {b : β}
    {bound : Nat} (hone : l.Pairwise fun a a' => b ∈ f a → b ∉ f a')
    (hle : ∀ a ∈ l, (f a).count b ≤ bound) : (l.flatMap f).count b ≤ bound := by
  induction l with
  | nil => exact Nat.zero_le _
  | cons a l ih =>
    obtain ⟨hapart, hrest⟩ := List.pairwise_cons.mp hone
    obtain ⟨ha, hle⟩ := List.forall_mem_cons.mp hle
    rw [List.flatMap_cons, List.count_append]
    by_cases hb : b ∈ f a
    · have hnone : (l.flatMap f).count b = 0 := by
        refine List.count_eq_zero_of_not_mem fun hmem => ?_
        obtain ⟨a', ha', hb'⟩ := List.mem_flatMap.mp hmem
        exact hapart a' ha' hb hb'
      omega
    · have hzero := List.count_eq_zero_of_not_mem hb
      have hothers := ih hrest hle
      omega

namespace Session

/-- The window with the number `n`, or a record of it, names the line. -/
def Names (s : Session) (n : Nat) (h : Handle) : Prop :=
  (∃ w ∈ s.windows, w.id = n ∧ h ∈ w.lines.handles) ∨
    ∃ r, s.undo.record = some r ∧ r.window = n ∧ h ∈ r.lines.handles

theorem mem_handles {s : Session} {h : Handle} : h ∈ s.handles ↔ ∃ n, s.Names n h := by
  have hrecord : h ∈ (s.undo.record.map fun r => r.lines.handles).getD [] ↔
      ∃ r, s.undo.record = some r ∧ h ∈ r.lines.handles := by
    cases s.undo.record <;> simp
  unfold handles Names
  rw [List.mem_append, List.mem_flatMap, hrecord]
  constructor
  · rintro (⟨w, hw, hh⟩ | ⟨r, hr, hh⟩)
    · exact ⟨w.id, .inl ⟨w, hw, rfl, hh⟩⟩
    · exact ⟨r.window, .inr ⟨r, hr, rfl, hh⟩⟩
  · rintro ⟨n, ⟨w, hw, -, hh⟩ | ⟨r, hr, -, hh⟩⟩
    · exact .inl ⟨w, hw, hh⟩
    · exact .inr ⟨r, hr, hh⟩

end Session

namespace Engine

/-- The window with the number `n`, or a record of it, names the line. -/
def Names (e : Engine) (n : Nat) (h : Handle) : Prop :=
  (∃ w ∈ e.windows, w.id = n ∧ h ∈ w.lines.handles) ∨
    ∃ r ∈ e.records, r.window = n ∧ h ∈ r.lines.handles

/-- So does a window beside the current one, or a record of another session. -/
def NamesElsewhere (e : Engine) (n : Nat) (h : Handle) : Prop :=
  (∃ w, (w ∈ e.session.below ∨ w ∈ e.others.sessions.flatMap Session.windows) ∧ w.id = n ∧
      h ∈ w.lines.handles) ∨
    ∃ r ∈ e.others.sessions.filterMap fun s => s.undo.record, r.window = n ∧ h ∈ r.lines.handles

/-- Each line is named for one window only. -/
def Private (e : Engine) : Prop := ∀ h n n', e.Names n h → e.Names n' h → n = n'

section
variable {e e' : Engine} {n : Nat} {x : Handle}

theorem names_iff : e.Names n x ↔ ∃ s ∈ e.table.sessions, s.Names n x := by
  unfold Names Session.Names windows records
  simp only [List.mem_flatMap, List.mem_filterMap]
  constructor
  · rintro (⟨w, ⟨s, hs, hw⟩, hname⟩ | ⟨r, ⟨s, hs, hr⟩, hname⟩)
    · exact ⟨s, hs, .inl ⟨w, hw, hname⟩⟩
    · exact ⟨s, hs, .inr ⟨r, hr, hname⟩⟩
  · rintro ⟨s, hs, ⟨w, hw, hname⟩ | ⟨r, hr, hname⟩⟩
    · exact .inl ⟨w, ⟨s, hs, hw⟩, hname⟩
    · exact .inr ⟨r, ⟨s, hs, hr⟩, hname⟩

/-- A line is named by the current window, by the record of the session, or elsewhere. -/
theorem Held.names_iff (h : e.Held) : e.Names n x ↔
    (e.window.id = n ∧ x ∈ e.window.lines.handles) ∨
    (∃ r, e.session.undo.record = some r ∧ r.window = n ∧ x ∈ r.lines.handles) ∨
    e.NamesElsewhere n x := by
  unfold Names NamesElsewhere
  simp only [h.mem_windows_others, h.mem_records, mem_session_windows]
  constructor
  · rintro (⟨w, (hw | rfl) | hw, hname⟩ | ⟨r, hr | hr, hname⟩)
    · exact .inr (.inr (.inl ⟨w, .inl hw, hname⟩))
    · exact .inl hname
    · exact .inr (.inr (.inl ⟨w, .inr hw, hname⟩))
    · exact .inr (.inl ⟨r, hr, hname⟩)
    · exact .inr (.inr (.inr ⟨r, hr, hname⟩))
  · rintro (hname | ⟨r, hr, hname⟩ | ⟨w, hw | hw, hname⟩ | ⟨r, hr, hname⟩)
    · exact .inl ⟨e.window, .inl (.inr rfl), hname⟩
    · exact .inr ⟨r, .inl hr, hname⟩
    · exact .inl ⟨w, .inl (.inl hw), hname⟩
    · exact .inl ⟨w, .inr hw, hname⟩
    · exact .inr ⟨r, .inr hr, hname⟩

theorem NamesElsewhere.mem (h : e.NamesElsewhere n x) : x ∈ e.elsewhere.map Prod.fst := by
  have hmem {m : LineMap} (hx : x ∈ m.handles) (hm : m.contents ⊆ e.elsewhere) :
      x ∈ e.elsewhere.map Prod.fst := by
    obtain ⟨y, hy, rfl⟩ := List.mem_map.mp hx
    exact Multiset.mem_map_of_mem Prod.fst (hm (LineMap.mem_contents.mpr ⟨y, hy, rfl⟩))
  have hothers {s : Session} {m : LineMap} (hs : s ∈ e.others.sessions) (hm : m.contents ⊆ s.contents) :
      m.contents ⊆ e.elsewhere := fun _ hc =>
    Multiset.mem_add.mpr (.inr (SessionTable.contents_subset hs (hm hc)))
  rcases h with ⟨w, hw | hw, -, hx⟩ | ⟨r, hr, -, hx⟩
  · exact hmem hx (below_contents_subset (List.mem_reverse.mpr hw))
  · obtain ⟨s, hs, hw⟩ := List.mem_flatMap.mp hw
    exact hmem hx (hothers hs (Session.window_contents_subset hw))
  · obtain ⟨s, hs, hr⟩ := List.mem_filterMap.mp hr
    exact hmem hx (hothers hs (Session.record_contents_subset hr))

theorem NamesElsewhere.of_eq (h : e'.NamesElsewhere n x) (hbelow : e'.session.below = e.session.below)
    (hothers : e'.others = e.others) : e.NamesElsewhere n x := by
  unfold NamesElsewhere at h ⊢
  rwa [hbelow, hothers] at h

/-! ## Steps -/

theorem Private.of_names (h : e.Private) (hn : ∀ n x, e'.Names n x → e.Names n x) : e'.Private :=
  fun x n n' hx hx' => h x n n' (hn n x hx) (hn n' x hx')

theorem Quiet.names (hq : e.Quiet e') (h : e'.Names n x) : e.Names n x := by
  rcases h with ⟨w', hw', hid, hx⟩ | ⟨r, hr, hname⟩
  · obtain ⟨w, hw, hsame⟩ := hq.windows w' hw'
    rw [LineMap.handles_of_content hsame.content_eq] at hx
    exact .inl ⟨w, hw, hsame.id_eq.symm.trans hid, hx⟩
  · exact .inr ⟨r, hq.records hr, hname⟩

theorem Creates.names {flags : WindowFlags} (hc : e.Creates e' flags) (h : e'.Names n x) :
    e.Names n x := by
  rcases h with ⟨w, hw, hid, hx⟩ | ⟨r, hr, hname⟩
  · rcases hc.windows w hw with rfl | hw
    · cases hx
    · exact .inl ⟨w, hw, hid, hx⟩
  · exact .inr ⟨r, hc.records hr, hname⟩

/-- The record names what its window names. -/
theorem Recording.names {undo : UndoSlot} {p : Pool} (hr : e.Recording undo p) (h : e.Held)
    (h' : (e.recorded undo p).Held) (hname : (e.recorded undo p).Names n x) : e.Names n x := by
  rw [h.names_iff]
  rcases h'.names_iff.mp hname with hw | ⟨r, hrec, hid, hx⟩ | helse
  · exact .inl hw
  · obtain ⟨lines, hnew, hcontent⟩ := hr.record_eq
    rw [show undo.record = some r from hrec] at hnew
    cases hnew
    rw [show (UndoSlot.recordOf e.window lines).lines.handles = e.window.lines.handles from
      LineMap.handles_of_content hcontent] at hx
    exact .inl ⟨hid, hx⟩
  · exact .inr (.inr (helse.of_eq rfl rfl))

theorem Held.undone_names (h : e.Held) {r : UndoRecord} (hr : e.session.undo.record = some r)
    (hid : r.window = e.window.id) (h' : (e.undone r).Held) (hname : (e.undone r).Names n x) :
    e.Names n x := by
  rw [h.names_iff]
  rcases h'.names_iff.mp hname with ⟨hn, hx⟩ | ⟨r', hr', hname⟩ | helse
  · exact .inr (.inl ⟨r, hr, hid.trans hn, hx⟩)
  · cases hr'
    exact .inl hname
  · exact .inr (.inr (helse.of_eq rfl rfl))

/-- What is new in the current window is named nowhere else. -/
theorem Private.draws (hp : e.Private) (h : e.Held) (h' : e'.Held) {texts : List Bytes}
    (hid : e'.window.id = e.window.id) (hbelow : e'.session.below = e.session.below)
    (hundo : e'.session.undo = e.session.undo) (hothers : e'.others = e.others)
    (hd : e.window.lines.Draws e.pool e.beside texts e'.window.lines e'.pool) : e'.Private := by
  have hcases {n : Nat} {x : Handle} (hname : e'.Names n x) :
      (e.window.id = n ∧ x ∈ e'.window.lines.handles) ∨ (e.Names n x ∧ x ∈ e.beside.map Prod.fst) := by
    rw [h.names_iff]
    unfold beside
    rw [Multiset.map_add]
    rcases h'.names_iff.mp hname with ⟨hn, hx⟩ | ⟨r, hr, hn, hx⟩ | helse
    · exact .inl ⟨hid.symm.trans hn, hx⟩
    · rw [hundo] at hr
      refine .inr ⟨.inr (.inl ⟨r, hr, hn, hx⟩), Multiset.mem_add.mpr (.inl ?_)⟩
      rw [UndoSlot.contents_of_some hr, LineMap.map_fst_contents]
      exact hx
    · have hold := helse.of_eq hbelow hothers
      exact .inr ⟨.inr (.inr hold), Multiset.mem_add.mpr (.inr hold.mem)⟩
  -- a line that is also named beside the window is not new to it
  have hold {x : Handle} (hx : x ∈ e'.window.lines.handles) (hbeside : x ∈ e.beside.map Prod.fst) :
      e.Names e.window.id x := by
    rcases hd.source x hx with ⟨hx, -⟩ | ⟨hfresh, -⟩
    · exact h.names_iff.mpr (.inl ⟨rfl, hx⟩)
    · exact absurd hbeside hfresh
  intro x n n' hx hx'
  rcases hcases hx with ⟨rfl, hin⟩ | ⟨hname, hbeside⟩ <;>
    rcases hcases hx' with ⟨rfl, hin'⟩ | ⟨hname', hbeside'⟩
  · rfl
  · exact hp x _ _ (hold hin hbeside') hname'
  · exact hp x _ _ hname (hold hin' hbeside)
  · exact hp x _ _ hname hname'

theorem Private.received (hp : e.Private) (h : e.Held) (h' : e'.Held) {place : Nat} {new : List Row}
    {texts : List Bytes} (hr : e.Received e' place new)
    (hd : e.window.lines.Draws e.pool e.beside texts e'.window.lines e'.pool) : e'.Private := by
  have hc := hr.confined h
  refine hp.draws h h' hc.id_eq hc.below_eq ?_ hc.others_eq hd
  rw [hr.eq]
  rfl

/-- Whatever step is made, lines stay named for one window. -/
theorem Steps.keeps_private {opens : WindowFlags → Prop} (hs : e.Steps opens e') (h : e.Held) (h' : e'.Held)
    (hp : e.Private) : e'.Private := by
  cases hs with
  | quiet hq => exact hp.of_names fun _ _ => hq.names
  | @edit change w p hfit hrun =>
    have hd := Edit.perform_draws (m := e.beside) h.accounts hrun
    have hid := ((Edit.perform_shows (m := e.beside) h.accounts hfit).of_eq hrun).id_eq
    rw [← w.noteEdit_lines] at hd
    exact hp.draws h h' (w.noteEdit_id.trans hid) rfl rfl rfl hd
  | @bulk place blob n _ hrun =>
    have hr := (EditM.insertBulk_receives h place blob _ _ hrun).2.1
    exact hp.received h h' hr (EditM.insertBulk_draws h place blob _ _ hrun)
  | @list place entries n _ hrun =>
    have hr := (EditM.insertDirectory_receives h place entries _ _ hrun).2.1
    exact hp.received h h' hr (EditM.insertDirectory_draws h place entries _ _ hrun)
  | record hr => exact hp.of_names fun _ _ => hr.names h h'
  | undo hr hid => exact hp.of_names fun _ _ => h.undone_names hr hid h'
  | create _ hc => exact hp.of_names fun _ _ => hc.names

/-- Numbers of windows are given out once, and lines are named for one window. -/
structure Owned (e : Engine) : Prop where
  shelved : e.Shelved fun _ => none
  keeps_private : e.Private

theorem kept_owned : Kept Owned freeTerms :=
  kept_of_steps trivial (fun h => h.shelved) fun h hs h' =>
    ⟨h', hs.keeps_private h.shelved.toHeld h'.toHeld h.keeps_private⟩

theorem owned_new (limits : Limits) : (Engine.new limits).Owned where
  shelved := shelved_new limits
  keeps_private x n _ hx := by
    obtain ⟨s, hs, hname⟩ := names_iff.mp hx
    rw [sessions_new, List.mem_singleton] at hs
    subst hs
    have hmem : x ∈ ([] : List Handle) := Session.mem_handles.mpr ⟨n, hname⟩
    cases hmem

theorem Reachable.owned (h : e.Reachable) : e.Owned :=
  kept_owned.reachable (fun _ => trivial) (fun _ => trivial) (fun _ => trivial) (fun _ _ => trivial)
    owned_new h

/-! ## Counts -/

/-- In one session a line is named by a window and by its record, each of them as often as it has
lines. -/
theorem Owned.count_session_le (h : e.Owned) {s : Session} (hs : s ∈ e.table.sessions)
    {bound : Nat} (hw : ∀ w ∈ s.windows, w.lines.length ≤ bound)
    (hr : ∀ r, s.undo.record = some r → r.lines.length ≤ bound) : s.handles.count x ≤ 2 * bound := by
  have hlisted := h.shelved.table.listed s hs
  have hlen (m : LineMap) : m.handles.count x ≤ m.length :=
    List.count_le_length.trans (Nat.le_of_eq (List.length_map _))
  have hwindows : (s.windows.flatMap fun w => w.lines.handles).count x ≤ bound := by
    refine Sequence.count_flatMap_le ?_ fun w hmem => (hlen w.lines).trans (hw w hmem)
    refine (List.pairwise_map.mp hlisted.numbers_nodup).imp_of_mem fun hmem hmem' hne hx hx' => hne ?_
    exact h.keeps_private x _ _ (names_iff.mpr ⟨s, hs, .inl ⟨_, hmem, rfl, hx⟩⟩)
      (names_iff.mpr ⟨s, hs, .inl ⟨_, hmem', rfl, hx'⟩⟩)
  have hrecord : ((s.undo.record.map fun r => r.lines.handles).getD []).count x ≤ bound := by
    cases hrec : s.undo.record with
    | none => exact Nat.zero_le _
    | some r => exact (hlen r.lines).trans (hr r hrec)
  unfold Session.handles
  rw [List.count_append]
  omega

/-- No line is named in two sessions. -/
theorem Owned.sessions_apart (h : e.Owned) :
    e.table.sessions.Pairwise fun s s' => x ∈ s.handles → x ∉ s'.handles := by
  have hnumber {s : Session} {n : Nat} (hs : s ∈ e.table.sessions) (hname : s.Names n x) :
      n ∈ s.numbers := by
    rcases hname with ⟨w, hw, rfl, -⟩ | ⟨r, hr, rfl, -⟩
    · exact List.mem_map_of_mem hw
    · exact (h.shelved.table.listed s hs).record_mem r hr
  refine h.shelved.table.apart.imp_of_mem fun hs hs' hapart hx hx' => ?_
  obtain ⟨n, hname⟩ := Session.mem_handles.mp hx
  obtain ⟨n', hname'⟩ := Session.mem_handles.mp hx'
  obtain rfl := h.keeps_private x n n' (names_iff.mpr ⟨_, hs, hname⟩) (names_iff.mpr ⟨_, hs', hname'⟩)
  exact hapart (hnumber hs hname) (hnumber hs' hname')

theorem Held.refs_eq (h : e.Held) (x : Handle) : e.pool.refs x = e.handles.count x := by
  rw [h.accounts.balanced.refs_eq, ← h.coe_handles, Multiset.coe_count]

theorem Owned.refs_le (h : e.Owned) (hp : e.Proper fun _ => True) (x : Handle) :
    e.pool.refs x ≤ 2 * e.limits.lines := by
  rw [h.shelved.toHeld.refs_eq]
  refine Sequence.count_flatMap_le h.sessions_apart fun s hs => ?_
  exact h.count_session_le hs (fun w hw => hp.length_window hs hw) fun r hr => hp.length_record hs hr

end

end Engine

end LineEditor
