import LineEditor.Proofs.Deeds
import LineEditor.Proofs.Globals
import LineEditor.Proofs.ProperTexts

/-!
# Directories

A directory that is listed in a window stays as it was listed. Commands that edit are refused there,
also by a global command; a text that is typed is for another window; and what is recorded, or comes
back by an undo, has the same lines.
-/

namespace LineEditor

/-- A directory as it is listed in a window: the number of the window, its lines with their suffixes,
and the names that are stored for them. -/
structure Catalogue where
  window : Nat
  lines : List (Handle × Option Suffix)
  names : List Bytes

namespace Catalogue

/-- The window lists the directory. All else that can be noted of it is that there is a record. -/
structure ShownIn (c : Catalogue) (p : Pool) (w : Window) : Prop where
  content_eq : w.lines.map Entry.content = c.lines
  names_eq : p.texts w.lines = c.names
  flags_eq : w.flags = { WindowFlags.none with directory := true, hasUndo := w.flags.hasUndo }

/-- The record is one of the directory. -/
structure Recorded (c : Catalogue) (p : Pool) (r : UndoRecord) : Prop where
  content_eq : r.lines.map Entry.content = c.lines
  names_eq : p.texts r.lines = c.names
  note_eq : r.noFinalNewline = false

/-- The window of the directory is not edited and takes no bytes from outside. -/
def terms (c : Catalogue) : Terms where
  edits _ id _ _ := id ≠ c.window
  takes e := e.window.id ≠ c.window
  typed _ := True
  loaded _ := True
  opens _ := True

section
variable {c : Catalogue} {p q : Pool} {w w' : Window}

theorem ShownIn.mode_eq (h : c.ShownIn p w) : w.mode = .directory := by
  unfold Window.mode
  rw [h.flags_eq]
  rfl

theorem ShownIn.keeps (h : c.ShownIn p w) {n : Multiset (Handle × Option Suffix)}
    (hk : p.Keeps q (n.map Prod.fst)) (hw : w.lines.contents ⊆ n) : c.ShownIn q w :=
  ⟨h.content_eq, (Pool.texts_keeps hk hw).trans h.names_eq, h.flags_eq⟩

theorem Recorded.keeps {r : UndoRecord} (h : c.Recorded p r) {n : Multiset (Handle × Option Suffix)}
    (hk : p.Keeps q (n.map Prod.fst)) (hr : r.lines.contents ⊆ n) : c.Recorded q r :=
  ⟨h.content_eq, (Pool.texts_keeps hk hr).trans h.names_eq, h.note_eq⟩

theorem ShownIn.same (h : c.ShownIn p w) (hl : w'.lines.map Entry.content = w.lines.map Entry.content)
    (hf : w'.flags = w.flags) : c.ShownIn p w' where
  content_eq := hl.trans h.content_eq
  names_eq := (p.texts_of_content hl).trans h.names_eq
  flags_eq := by
    rw [hf]
    exact h.flags_eq

end

end Catalogue

/-- Texts tell rows apart that have the same entries. -/
theorem Pool.rows_of_texts {p q : Pool} {m : LineMap} (h : q.texts m = p.texts m) :
    q.rows m = p.rows m := by
  unfold texts rows at h
  rw [List.map_map, List.map_map] at h
  refine List.map_congr_left fun x hx => ?_
  have htext : (q.row x).text = (p.row x).text := List.map_inj_left.mp h x hx
  exact congrArg (fun text => (⟨text, x.suffix, x.marked⟩ : Row)) htext

/-- The window of the directory lists it, if it is one of the session, and so does a record of it. -/
structure Session.Lists (c : Catalogue) (p : Pool) (s : Session) : Prop where
  windows : ∀ w ∈ s.windows, w.id = c.window → c.ShownIn p w
  record : ∀ r, s.undo.record = some r → r.window = c.window → c.Recorded p r

theorem Session.Lists.keeps {c : Catalogue} {p q : Pool} {s : Session} (h : s.Lists c p)
    (hk : p.Keeps q (s.contents.map Prod.fst)) : s.Lists c q where
  windows w hw hid := (h.windows w hw hid).keeps hk (window_contents_subset hw)
  record r hr hid := (h.record r hr hid).keeps hk (record_contents_subset hr)

theorem SessionTable.lists_keeps {c : Catalogue} {p q : Pool} {t : SessionTable}
    (h : ∀ s ∈ t.sessions, s.Lists c p) (hk : p.Keeps q (t.contents.map Prod.fst)) :
    ∀ s ∈ t.sessions, s.Lists c q :=
  fun s hs => (h s hs).keeps (hk.mono (Multiset.map_subset_map (contents_subset hs)))

/-- A session with a window that is new and empty. -/
theorem Session.lists_ofWindow {c : Catalogue} (p : Pool) {w : Window} (hid : w.id ≠ c.window) :
    (Session.ofWindow w).Lists c p where
  windows v hv hid' := by
    rw [List.mem_singleton.mp hv] at hid'
    exact absurd hid' hid
  record r hr := by cases hr

namespace Engine

/-- Wherever the window of the directory is, it lists the directory, and no text is typed for it. -/
structure Lists (c : Catalogue) (e : Engine) : Prop extends e.Held where
  session : e.session.Lists c e.pool
  others : ∀ s ∈ e.others.sessions, s.Lists c e.pool
  known : c.window < e.nextWindow
  entry : ∀ t, e.entry = some t → t.window ≠ c.window

section
variable {c : Catalogue} {e e' : Engine}

theorem Lists.current (h : e.Lists c) (hid : e.window.id = c.window) : c.ShownIn e.pool e.window :=
  h.session.windows _ e.window_mem_session hid

/-- A window in which commands edit is another one. -/
theorem Lists.id_ne (h : e.Lists c) (hmode : e.window.mode = .normal) : e.window.id ≠ c.window := by
  intro hid
  rw [(h.current hid).mode_eq] at hmode
  cases hmode

/-- The current window changes, and perhaps the record. -/
theorem Lists.setCurrent (h : e.Lists c) {w : Window} {u : UndoSlot} {p : Pool}
    (ha : p.Accounts (w.lines.contents + (u.contents + e.elsewhere)))
    (hk : e.pool.Keeps p (e.elsewhere.map Prod.fst))
    (hw : w.id = c.window → c.ShownIn p w)
    (hr : ∀ r, u.record = some r → r.window = c.window → c.Recorded p r) :
    Lists c { e with pool := p, session := { e.session with current := w, undo := u } } where
  vacant := h.vacant
  accounts := ha
  session := by
    refine ⟨fun v hv hid => ?_, hr⟩
    rcases List.mem_append.mp hv with hv | hv
    · have hshown := h.session.windows v (List.mem_append_left _ hv) hid
      exact hshown.keeps hk (below_contents_subset hv)
    · obtain rfl := List.mem_singleton.mp hv
      exact hw hid
  others := SessionTable.lists_keeps h.others hk.right
  known := h.known
  entry := h.entry

/-- Work in another window. -/
theorem Lists.work (h : e.Lists c) (hid : e.window.id ≠ c.window) {w : Window} {p : Pool}
    {rows : List Row} (hs : Shows e.window e.pool e.beside rows w p) :
    Lists c { e.setWindow w with pool := p } := by
  refine h.setCurrent hs.accounts hs.keeps.right (fun hid' => absurd (hs.id_eq.symm.trans hid') hid)
    fun r hr hr' => ?_
  have hsub : r.lines.contents ⊆ e.session.undo.contents := by
    rw [UndoSlot.contents_of_some hr]
    exact fun c hc => hc
  exact (h.session.record r hr hr').keeps hs.keeps.left hsub

/-- The window has the same lines. -/
theorem Lists.same (h : e.Lists c) {w : Window} (hid : w.id = e.window.id)
    (hl : w.lines.map Entry.content = e.window.lines.map Entry.content)
    (hf : w.id = c.window → w.flags = e.window.flags) : (e.setWindow w).Lists c := by
  have hcontents : w.lines.contents = e.window.lines.contents := by
    unfold LineMap.contents
    rw [hl]
  refine h.setCurrent ?_ (.refl _ _) (fun hid' => ?_) h.session.record
  · rw [hcontents]
    exact h.accounts
  · exact (h.current (hid.symm.trans hid')).same hl (hf hid')

theorem Lists.noteEdit (h : e.Lists c) (hid : e.window.id ≠ c.window) :
    (e.setWindow e.window.noteEdit).Lists c := by
  refine h.same e.window.noteEdit_id (by rw [e.window.noteEdit_lines]) fun hid' => ?_
  exact absurd (e.window.noteEdit_id.symm.trans hid') hid

theorem Lists.receive (h : e.Lists c) (hid : e.window.id ≠ c.window) {place : Nat} {new : List Row}
    (hr : e.Received e' place new) : e'.Lists c := by
  rw [hr.eq]
  exact h.work hid hr.shows

/-! ## Records -/

theorem Lists.record (h : e.Lists c) {undo : UndoSlot} {p : Pool} (hr : e.Recording undo p) :
    (e.recorded undo p).Lists c := by
  have hshown (hid : e.window.id = c.window) : c.ShownIn p e.window := by
    have hcurrent := h.current hid
    refine ⟨hcurrent.content_eq, ?_, hcurrent.flags_eq⟩
    unfold Pool.texts
    rw [hr.rows_eq]
    exact hcurrent.names_eq
  obtain ⟨lines, hrec, hcontent⟩ := hr.record_eq
  refine h.setCurrent hr.accounts hr.keeps.right (fun hid => ?_) fun r hr hid => ?_
  · refine ⟨(hshown hid).content_eq, (hshown hid).names_eq, ?_⟩
    show ({ e.window.flags with hasUndo := true } : WindowFlags) = _
    rw [(hshown hid).flags_eq]
  · rw [hrec] at hr
    cases hr
    refine ⟨hcontent.trans (hshown hid).content_eq, ?_, ?_⟩
    · exact (p.texts_of_content hcontent).trans (hshown hid).names_eq
    · show e.window.flags.noFinalNewline = false
      rw [(hshown hid).flags_eq]
      rfl

/-- The window shows the same lines again, and the record is again one of them. -/
theorem Lists.undone (h : e.Lists c) {r : UndoRecord} (hr : e.session.undo.record = some r)
    (hid : r.window = e.window.id) : (e.undone r).Lists c := by
  refine h.setCurrent (h.toHeld.accounts_swap hr) (.refl _ _) (fun hid' => ?_) fun r' hr' hid' => ?_
  · have hrecorded := h.session.record r hr (hid.trans hid')
    refine ⟨hrecorded.content_eq, hrecorded.names_eq, ?_⟩
    show ({ e.window.flags with noFinalNewline := r.noFinalNewline } : WindowFlags) = _
    rw [hrecorded.note_eq, (h.current hid').flags_eq]
    rfl
  · cases hr'
    have hcurrent := h.current hid'
    refine ⟨hcurrent.content_eq, hcurrent.names_eq, ?_⟩
    show e.window.flags.noFinalNewline = false
    rw [hcurrent.flags_eq]
    rfl

/-! ## Sessions and windows -/

theorem Lists.table (h : e.Lists c) : ∀ s ∈ e.table.sessions, s.Lists c e.pool := by
  intro s hs
  rcases List.mem_cons.mp (h.table_perm.mem_iff.mp hs) with rfl | hs
  · exact h.session
  · exact h.others s hs

theorem lists_of_take (hheld : e'.Held) {t : SessionTable} {n : Nat} {s : Session}
    (hs : t.get? n = some s) (ht : ∀ s ∈ t.sessions, s.Lists c e'.pool) (hsession : e'.session = s)
    (hothers : e'.others = t.put n none) (hknown : c.window < e'.nextWindow) (hn : e'.entry = none) :
    e'.Lists c := by
  subst hsession
  have hperm := SessionTable.take_perm hs
  refine ⟨hheld, ht _ (hperm.mem_iff.mpr List.mem_cons_self), fun s hmem => ?_, hknown, fun t ht => ?_⟩
  · rw [hothers] at hmem
    exact ht s (hperm.mem_iff.mpr (List.mem_cons_of_mem _ hmem))
  · rw [hn] at ht
    cases ht

/-- The current session has other windows or another record, over a pool that keeps all the rest. -/
theorem Lists.setSession (h : e.Lists c) (hheld : e'.Held) (hothers : e'.others = e.others)
    (hk : e.pool.Keeps e'.pool (e.others.contents.map Prod.fst)) (hn : e'.entry = none)
    (hnext : e.nextWindow ≤ e'.nextWindow) (hs : e'.session.Lists c e'.pool) : e'.Lists c where
  toHeld := hheld
  session := hs
  others := by
    rw [hothers]
    exact SessionTable.lists_keeps h.others hk
  known := Nat.lt_of_lt_of_le h.known hnext
  entry t ht := by
    rw [hn] at ht
    cases ht

theorem Lists.start (h : e.Lists c) {n : Nat} (h₁ : 1 ≤ n) (hn : n ≤ e.table.max)
    (hs : e.table.get? n = none) (flags : WindowFlags) :
    ((e.newWindow flags).2.makeCurrent n (.ofWindow (e.newWindow flags).1)).Lists c where
  toHeld := h.toHeld.switch_new h₁ hn hs flags
  session := Session.lists_ofWindow _ (Nat.ne_of_gt h.known)
  others := by
    show ∀ s ∈ (e.table.put n none).sessions, s.Lists c e.pool
    rw [SessionTable.put_self hs]
    exact h.table
  known := Nat.lt_succ_of_lt h.known
  entry t ht := by cases ht

theorem Lists.push (h : e.Lists c) (flags : WindowFlags) : (e.pushed flags).Lists c := by
  refine h.setSession (h.toHeld.push flags) rfl (.refl _ _) rfl (Nat.le_succ _)
    ⟨fun w hw hid => ?_, h.session.record⟩
  rw [pushed_windows] at hw
  rcases List.mem_append.mp hw with hw | hw
  · exact h.session.windows w hw hid
  · rw [List.mem_singleton.mp hw] at hid
    exact absurd hid (Nat.ne_of_gt h.known)

section
variable {undo : UndoSlot} {p : Pool} (hd : e.Dropping undo p)
include hd

/-- What is left of the session when its current window goes. -/
theorem Lists.beneath (h : e.Lists c) {w : Window} (hw : w ∈ e.session.below.reverse)
    (hid : w.id = c.window) : c.ShownIn p w :=
  have hshown := h.session.windows w (List.mem_append_left _ hw) hid
  hshown.keeps hd.keeps.right (below_contents_subset hw)

theorem Lists.kept_record (h : e.Lists c) {r : UndoRecord} (hr : undo.record = some r)
    (hid : r.window = c.window) : c.Recorded p r := by
  refine (h.session.record r (hd.record r hr).1 hid).keeps hd.keeps.left fun c hc => ?_
  rwa [UndoSlot.contents_of_some hr]

theorem Lists.replace (h : e.Lists c) (flags : WindowFlags) : (e.replaced undo p flags).Lists c := by
  refine h.setSession (h.toHeld.replace hd.accounts flags) rfl hd.keeps.right.right rfl (Nat.le_succ _)
    ⟨fun w hw hid => ?_, fun r hr hid => h.kept_record hd hr hid⟩
  rcases List.mem_append.mp hw with hw | hw
  · exact h.beneath hd hw hid
  · rw [List.mem_singleton.mp hw] at hid
    exact absurd hid (Nat.ne_of_gt h.known)

theorem Lists.pop (h : e.Lists c) {w : Window} {rest : List Window}
    (hb : e.session.below = w :: rest) : (e.popped undo p w rest).Lists c := by
  refine h.setSession (h.toHeld.pop hb hd.accounts) rfl hd.keeps.right.right rfl (Nat.le_refl _)
    ⟨fun v hv hid => h.beneath hd ?_ hid, fun r hr hid => h.kept_record hd hr hid⟩
  rwa [popped_windows hb] at hv

end

/-! ## Whatever is done -/

theorem kept_lists (c : Catalogue) : Kept (Lists c) c.terms where
  held h := h.toHeld
  remember {e} h r _ := by
    have hsame := h.same rfl rfl (w := { e.window with
      lastSearch := r.search, lastReplacement := r.replacement }) fun _ => rfl
    exact ⟨⟨hsame.vacant, hsame.accounts⟩, hsame.session, hsame.others, hsame.known, hsame.entry⟩
  arm h _ := ⟨⟨h.vacant, h.accounts⟩, h.session, h.others, h.known, h.entry⟩
  interrupt h := ⟨⟨h.vacant, h.accounts⟩, h.session, h.others, h.known, h.entry⟩
  begin h hmode _ _ := by
    refine ⟨⟨h.vacant, h.accounts⟩, h.session, h.others, h.known, fun t ht => ?_⟩
    cases ht
    exact h.id_ne hmode
  untype h := ⟨⟨h.vacant, h.accounts⟩, h.session, h.others, h.known, fun t ht => by cases ht⟩
  note h _ hw := h.same hw.id_eq (by rw [hw.lines_eq]) fun _ => hw.flags_eq
  mark {e} h l hl := by
    refine h.same rfl ?_ fun _ => rfl
    show l.map Entry.content = _
    rw [← LineMap.content_clearMarks, hl, LineMap.content_clearMarks]
  record h _ _ hr := h.record hr
  save {e} h := h.same rfl rfl fun hid => by
    show ({ e.window.flags with changed := false } : WindowFlags) = _
    rw [(h.current hid).flags_eq]
    rfl
  undo h _ hr hid := h.undone hr hid
  switch h _ _ hs := lists_of_take (h.toHeld.switch hs) hs h.table rfl rfl h.known rfl
  start h _ h₁ hn hs := h.start h₁ hn hs .none
  move h _ h₁ hn hs := ⟨h.toHeld.move h₁ hn hs, h.session, h.others, h.known, h.entry⟩
  close h _ _ _ hs ha hk :=
    lists_of_take (held_of_take hs ha rfl rfl rfl) hs (SessionTable.lists_keeps h.others hk)
      rfl rfl h.known rfl
  plain := trivial
  push h flags _ := h.push flags
  replace h _ _ hd flags _ := h.replace hd flags
  pop h _ _ hd _ _ hb := h.pop hd hb
  plan {e} h _ _ hr hz hall tail := by
    by_cases hid : e.window.id = c.window
    · rw [(h.current hid).mode_eq] at hall
      refine (View.plan_looks h.readable hr hall tail).mono fun plan hlooks => ?_
      cases plan with
      | edit change shape print => exact hlooks.elim
      | _ => exact trivial
    · refine (View.plan_yields h.readable hr hz tail).mono fun plan _ => ?_
      cases plan with
      | edit change shape print => exact hid
      | _ => exact trivial
  edit h _ hfit hid _ _ hrun := by
    have hs := (Edit.perform_shows h.accounts hfit).of_eq hrun
    have hwork := h.work hid hs
    exact hwork.noteEdit (hs.id_eq ▸ hid)
  type h entry hentry _ _ := by
    refine ⟨⟨h.vacant, h.accounts⟩, h.session, h.others, h.known, fun t ht => ?_⟩
    cases ht
    exact h.entry entry hentry
  commit h _ hentry hsame _ _ _ _ hid := h.entry _ hentry (hsame.trans hid)
  read h hmode _ _ _ _ _ hr _ := by
    have hid := h.id_ne hmode
    exact (h.receive hid hr).noteEdit (hr.shows.id_eq ▸ hid)
  receptive h hmode := h.id_ne hmode
  bulk h hid _ _ _ _ _ hr _ := h.receive hid hr
  listing h hid _ _ _ _ _ _ hr _ := h.receive hid hr
  update _ hid _ _ _ _ _ := hid

/-! ## How directories come in -/

/-- The current window has just been opened for a directory. -/
structure OpenedFor (entries : List (Bytes × Option Suffix)) (e : Engine) : Prop where
  rows_eq : e.pool.rows e.window.lines = entries.map Row.ofEntry
  flags_eq : e.window.flags = { WindowFlags.none with directory := true }
  record : ∀ r, e.session.undo.record = some r → r.window ≠ e.window.id
  entry_eq : e.entry = none

/-- The current window as a directory. -/
def catalogue (e : Engine) : Catalogue :=
  ⟨e.window.id, e.window.lines.map Entry.content, e.pool.texts e.window.lines⟩

theorem OpenedFor.lists {entries : List (Bytes × Option Suffix)} (ho : e.OpenedFor entries)
    (h : e.Shelved fun _ => none) : e.Lists e.catalogue where
  toHeld := h.toHeld
  session := by
    refine ⟨fun w hw hid => ?_, fun r hr hid => absurd hid (ho.record r hr)⟩
    rcases mem_session_windows.mp hw with hw | rfl
    · exact absurd hid (h.id_ne (.inl hw))
    · refine ⟨rfl, rfl, ?_⟩
      rw [ho.flags_eq]
  others s hs := by
    refine ⟨fun w hw hid => ?_, fun r hr hid => ?_⟩
    · exact absurd hid (h.id_ne (.inr (List.mem_flatMap.mpr ⟨s, hs, hw⟩)))
    · exact absurd hid (h.record_ne (List.mem_filterMap.mpr ⟨s, hs, hr⟩))
  known := h.id_lt (h.toHeld.mem_windows_session e.window_mem_session)
  entry t ht := by
    rw [ho.entry_eq] at ht
    cases ht

/-- What was asked for stood at a path, and was a directory. -/
def OpensDirectory (x : Traffic) : Post Engine Report := fun answer e =>
  ∀ path entries, x = .load path (.ok (.directory entries)) →
    ∀ report, answer = .ok report → e.OpenedFor entries

end

end Engine

namespace EditM

section
variable {e : Engine}

/-- The window of the engine is new, and there is no record of it. -/
theorem insertDirectory_opened (h : e.Held) {n : Nat} (hw : e.window = .empty n .none)
    (hr : ∀ r, e.session.undo.record = some r → r.window ≠ n) (hn : e.entry = none)
    (path : List Char) (entries : List (Bytes × Option Suffix)) : Leads (do
      let size ← insertDirectory 0 entries
      modifyWindow fun w => { w with fileName := some path }
      return Report.ofSwitch [toString size]) e fun answer e' =>
        ∀ report, answer = .ok report → e'.OpenedFor entries := by
  refine (insertDirectory_receives h 0 entries).then ?_ fun _ _ _ _ hr => by cases hr
  rintro size e₁ ⟨-, hreceived, hflags⟩
  have heq := hreceived.eq
  rw [leads_modifyWindow_bind]
  refine leads_pure.mpr fun _ _ => ⟨?_, ?_, fun r hrec => ?_, ?_⟩
  · have hrows := hreceived.shows.rows_eq
    rw [hw] at hrows
    exact hrows.trans (List.append_nil _)
  · show e₁.window.flags = _
    rw [hflags, hw]
    rfl
  · have hid : e₁.window.id = n := hreceived.shows.id_eq.trans (by rw [hw]; rfl)
    change e₁.session.undo.record = some r at hrec
    rw [heq] at hrec
    show r.window ≠ e₁.window.id
    rw [hid]
    exact hr r hrec
  · show e₁.entry = none
    rw [heq]
    exact hn

theorem showLoaded_opened (h : e.Shelved fun _ => none) (path : List Char) (onTop : Bool)
    (entries : List (Bytes × Option Suffix)) : Leads (showLoaded path onTop (.directory entries)) e
      fun answer e' => ∀ report, answer = .ok report → e'.OpenedFor entries := by
  -- the number of the new window is not that of any record
  have hrecord (r : UndoRecord) (hr : e.session.undo.record = some r) : r.window ≠ e.nextWindow := by
    obtain ⟨w, hw, hid⟩ := List.mem_map.mp (h.listed.record_mem r hr)
    rw [← hid]
    exact Nat.ne_of_lt (h.listed.numbers_lt w hw)
  unfold showLoaded
  rw [leads_get_bind]
  dsimp only
  split
  · exact leads_throw.mpr fun _ hr => by cases hr
  · split
    · refine (pushWindow_outcome e .none).then ?_ fun _ _ hp => hp.elim
      rintro _ _ rfl
      exact insertDirectory_opened (h.toHeld.push .none) rfl hrecord rfl path entries
    · refine (replaceWindow_outcome h.toHeld .none).then ?_ fun _ _ hp => hp.elim
      rintro _ _ ⟨undo, p, hd, rfl⟩
      exact insertDirectory_opened (h.toHeld.replace hd.accounts .none) rfl
        (fun r hr => hrecord r (hd.record r hr).1) rfl path entries

theorem leads_always {x : EditM α} {post : Post Engine α} (h : ∀ answer e', post answer e') :
    Leads x e post :=
  fun answer e' _ => h answer e'

theorem done_opens (x : EditM Report) :
    Leads (.done <$> x) e (Engine.Brings Engine.OpensDirectory) :=
  leads_done (leads_always fun _ _ _ _ hx => by cases hx)

theorem runEdit_opens (h : e.Shelved fun _ => none) (tail : List Char) :
    Leads (runEdit tail) e (Engine.Brings Engine.OpensDirectory) := by
  have hload {e₁ : Engine} (h₁ : e₁.Shelved fun _ => none) (path : List Char) (onTop : Bool) :
      Engine.Brings Engine.OpensDirectory (.ok (.load path fun answer => do
        showLoaded path onTop (← liftExcept (ofStorage path answer)))) e₁ := by
    intro answer
    cases answer with
    | error text => exact leads_throw.mpr fun _ _ _ _ hr => by cases hr
    | ok loaded =>
      cases loaded with
      | file bytes => exact leads_always fun _ _ _ _ hx => by cases hx
      | directory entries =>
        refine (showLoaded_opened h₁ path onTop entries).mono fun answer e' hp path' entries' hx => ?_
        cases hx
        exact hp
  unfold runEdit
  dsimp only
  split
  · rw [leads_get_bind]
    exact leads_pure.mpr fun _ _ hx => by cases hx
  · split
    · exact done_opens _
    · rw [leads_get_bind]
      split
      · refine (guardUnsaved_outcome e _).then ?_ fun _ _ _ _ _ hx => by cases hx
        rintro _ _ ⟨-, rfl⟩
        exact leads_pure.mpr (hload ((Engine.kept_shelved _).arm h false) _ _)
      · exact leads_pure.mpr (hload h _ _)

theorem runCommand_opens (h : e.Shelved fun _ => none) (cmd : Option Command) (range : LineRange)
    (tail : List Char) : Leads (runCommand cmd range tail) e (Engine.Brings Engine.OpensDirectory) := by
  unfold runCommand
  cases cmd with
  | none => exact done_opens _
  | some cmd =>
    cases cmd with
    | edit => exact runEdit_opens h tail
    | read =>
      refine leads_after (fun _ _ _ _ hx => by cases hx) fun path _ => leads_pure.mpr fun answer => ?_
      exact leads_always fun _ _ _ _ hx => by cases hx
    | write =>
      refine leads_after (fun _ _ _ _ hx => by cases hx) fun path _ => ?_
      refine leads_after (fun _ _ _ _ hx => by cases hx) fun bytes _ => leads_pure.mpr fun answer => ?_
      exact leads_always fun _ _ _ _ hx => by cases hx
    | _ => exact done_opens _

theorem dispatch_opens (h : e.Shelved fun _ => none) (line : List Char) :
    Leads (dispatch line) e (Engine.Brings Engine.OpensDirectory) := by
  unfold dispatch
  rw [leads_get_bind]
  split
  · exact done_opens _
  · refine execute_leads (fun _ _ _ _ hx => by cases hx) (fun _ _ _ _ _ _ hx => by cases hx) ?_
    exact fun q _ range _ _ r => runCommand_opens (h.begun q.command r) q.command range q.tail

end

end EditM

namespace Engine

section
variable {e e₁ : Engine} {storage : Storage σ} {line : List Char} {disk disk₁ : σ} {report : Report}

theorem Lists.performAll {c : Catalogue} (hs : e.Steady) (h : e.Lists c) {calls : List Call}
    (hcalls : ∀ c ∈ calls, c.brings = false) (hrun : e.performAll calls = .ok e₁) : e₁.Lists c := by
  refine (kept_lists c).performAll hs h (fun c _ => ?_) (fun c _ => ?_) (fun c hc hb => ?_) hrun
  · exact c.supplies_any (fun _ => trivial) fun _ => trivial
  · exact c.opens_any fun _ => trivial
  · rw [hcalls c hc] at hb
    cases hb

theorem Lists.mem_windows {c : Catalogue} (h : e.Lists c) {w : Window} (hw : w ∈ e.windows)
    (hid : w.id = c.window) : c.ShownIn e.pool w := by
  obtain ⟨s, hs, hw⟩ := List.mem_flatMap.mp hw
  exact (h.table s hs).windows w hw hid

/-- A directory that `e` shows stays as it was loaded, for as long as its window is there, whatever
lines are typed and wherever the window is by then: its lines are the same, with their suffixes, and
so are its flags, but for the note that there is something to undo. -/
theorem Reachable.directory_kept (h : e.Reachable) {path : List Char}
    {entries : List (Bytes × Option Suffix)}
    (hload : e.traffic storage line disk = .load path (.ok (.directory entries)))
    (hrun : e.dispatchOn storage line disk = .ok (.ok report, e₁, disk₁)) {calls : List Call}
    (hcalls : ∀ c ∈ calls, c.brings = false) :
    e₁.window.mode = .directory ∧
    e₁.pool.readRows e₁.window.lines = .ok (entries.map Row.ofEntry) ∧
    ∃ e₂, e₁.performAll calls = .ok e₂ ∧ ∀ w ∈ e₂.windows, w.id = e₁.window.id →
      e₂.pool.readRows w.lines = .ok (entries.map Row.ofEntry) ∧
      w = { e₁.window with
        dot := w.dot
        labels := w.labels
        fileName := w.fileName
        lastSearch := w.lastSearch
        lastReplacement := w.lastReplacement
        flags.hasUndo := w.flags.hasUndo } := by
  have h₁ := h.dispatch hrun
  have hs₁ := h₁.steady
  have hopened : e₁.OpenedFor entries :=
    dispatchOn_brings (EditM.dispatch_opens h.shelved line) hrun path entries hload report rfl
  have hlists := hopened.lists h₁.shelved
  obtain ⟨e₂, hcallsrun, hs₂⟩ := hs₁.performAll calls
  have hlists₂ := hlists.performAll hs₁ hcalls hcallsrun
  refine ⟨(hlists.current rfl).mode_eq, ?_, e₂, hcallsrun, fun w hw hid => ?_⟩
  · rw [hs₁.toHeld.readRows_window (hs₁.toHeld.mem_windows_session e₁.window_mem_session),
      hopened.rows_eq]
  · have hshown := hlists₂.mem_windows hw hid
    have hunmarked : w.lines.Unmarked := by
      obtain ⟨s, hs, hw⟩ := List.mem_flatMap.mp hw
      exact ((hs₂.table_settled s hs).of_mem_windows hw).unmarked
    have hlines : w.lines = e₁.window.lines := by
      rw [LineMap.eq_clearMarks hunmarked hshown.content_eq, hs₁.unmarked.clearMarks_eq]
    have hflags : w.flags = { e₁.window.flags with hasUndo := w.flags.hasUndo } := by
      rw [hopened.flags_eq]
      exact hshown.flags_eq
    constructor
    · have htexts := hshown.names_eq
      rw [hlines] at htexts
      rw [hs₂.toHeld.readRows_window hw, hlines, Pool.rows_of_texts htexts, hopened.rows_eq]
    · show w = ⟨e₁.window.id, w.dot, e₁.window.lines, w.labels,
        { e₁.window.flags with hasUndo := w.flags.hasUndo }, w.fileName, w.lastSearch,
        w.lastReplacement⟩
      rw [← hid, ← hlines, ← hflags]

/-- A global command that only prints leaves the note that there is something to undo. -/
theorem directory_noted :
    let tree : FileTree := ⟨[([[100]], .directory), ([[100], [120]], .file [])]⟩
    ∃ e₁ e₂, (Engine.new ⟨1, 10, 100⟩).dispatchOn FileTree.storage ['e', 'd'] tree =
        .ok (.ok (.ofSwitch ["1"]), e₁, tree) ∧
      e₁.window.mode = .directory ∧
      e₁.dispatchOn FileTree.storage ['g', '/', 'x', '/', 'p'] tree =
        .ok (.ok (.ofOutput ["x"]), e₂, tree) ∧
      e₂.window.id = e₁.window.id ∧
      e₂.window ≠ { e₁.window with
        dot := e₂.window.dot
        labels := e₂.window.labels
        fileName := e₂.window.fileName
        lastSearch := e₂.window.lastSearch
        lastReplacement := e₂.window.lastReplacement } := by
  intro tree
  obtain ⟨⟨answer₁, e₁, disk₁⟩, hline₁, hsettled⟩ :=
    dispatchOn_settles (steady_new ⟨1, 10, 100⟩) FileTree.storage ['e', 'd'] tree
  obtain ⟨⟨answer₂, e₂, disk₂⟩, hline₂, -⟩ :=
    dispatchOn_settles hsettled.steady FileTree.storage ['g', '/', 'x', '/', 'p'] tree
  have hopened : ((Engine.new ⟨1, 10, 100⟩).dispatchOn FileTree.storage ['e', 'd'] tree).map (fun r =>
      (r.1, r.2.2, r.2.1.window.mode, r.2.1.window.id, r.2.1.window.flags.hasUndo)) =
      .ok (.ok (.ofSwitch ["1"]), tree, .directory, 2, false) := by decide +kernel
  have hprinted : ((Engine.new ⟨1, 10, 100⟩).dispatchOn FileTree.storage ['e', 'd'] tree >>= fun r =>
      (r.2.1.dispatchOn FileTree.storage ['g', '/', 'x', '/', 'p'] tree).map fun r =>
        (r.1.toOption, r.2.2, r.2.1.window.id, r.2.1.window.flags.hasUndo)).toOption =
      some (some (.ofOutput ["x"]), tree, 2, true) := by
    have hwhole : EditM.withoutNewline ['g', '/', 'x', '/', 'p'] = ['g', '/', 'x', '/', 'p'] := rfl
    unfold Engine.dispatchOn EditM.dispatch
    simp only [hwhole, EditM.execute_global, EditM.runGlobal, GlobalRequest.parse_slash]
    decide +kernel
  rw [hline₁] at hopened hprinted
  change ((e₁.dispatchOn _ _ _).map _).toOption = _ at hprinted
  rw [hline₂] at hprinted
  obtain ⟨rfl, hrest⟩ := Prod.mk.inj (Except.ok.inj hopened)
  obtain ⟨rfl, hrest⟩ := Prod.mk.inj hrest
  obtain ⟨hmode, hrest⟩ := Prod.mk.inj hrest
  obtain ⟨hid₁, hundo₁⟩ := Prod.mk.inj hrest
  obtain ⟨hanswer₂, hrest⟩ := Prod.mk.inj (Option.some.inj hprinted)
  obtain ⟨rfl, hrest⟩ := Prod.mk.inj hrest
  obtain ⟨hid₂, hundo₂⟩ := Prod.mk.inj hrest
  cases answer₂ with
  | error err => cases hanswer₂
  | ok report =>
    obtain rfl := Option.some.inj hanswer₂
    refine ⟨e₁, e₂, hline₁, hmode, hline₂, hid₂.trans hid₁.symm, fun heq => ?_⟩
    have hflags : e₂.window.flags = e₁.window.flags := by rw [heq]
    rw [hflags, hundo₁] at hundo₂
    cases hundo₂

/-- After the same command and a `u` the directory has the line that it was loaded with. -/
theorem directory_kept_undo :
    let tree : FileTree := ⟨[([[100]], .directory), ([[100], [120]], .file [])]⟩
    ∃ e₁ e₂ disk₁, (Engine.new ⟨1, 10, 100⟩).dispatchOn FileTree.storage ['e', 'd'] tree =
        .ok (.ok (.ofSwitch ["1"]), e₁, disk₁) ∧
      e₁.performAll [.line FileTree.storage tree ['g', '/', 'x', '/', 'p'],
        .line FileTree.storage tree ['u']] = .ok e₂ ∧
      ∀ w ∈ e₂.windows, w.id = e₁.window.id →
        e₂.pool.readRows w.lines = .ok [.ofEntry ([120], none)] ∧ w.lines = e₁.window.lines := by
  intro tree
  obtain ⟨⟨answer, e₁, disk₁⟩, hline, -⟩ :=
    dispatchOn_settles (steady_new ⟨1, 10, 100⟩) FileTree.storage ['e', 'd'] tree
  have hanswer : ((Engine.new ⟨1, 10, 100⟩).dispatchOn FileTree.storage ['e', 'd'] tree).map
      (fun r => r.1) = .ok (.ok (.ofSwitch ["1"])) := by decide +kernel
  rw [hline] at hanswer
  obtain rfl := Except.ok.inj hanswer
  have hload : (Engine.new ⟨1, 10, 100⟩).traffic FileTree.storage ['e', 'd'] tree =
      .load ['d'] (.ok (.directory [([120], none)])) := by decide +kernel
  have hcalls : ∀ c ∈ [Call.line FileTree.storage tree ['g', '/', 'x', '/', 'p'],
      Call.line FileTree.storage tree ['u']], c.brings = false := by simp [Call.brings]
  obtain ⟨-, -, e₂, hrun, hkept⟩ := Reachable.directory_kept (.new _) hload hline hcalls
  refine ⟨e₁, e₂, disk₁, hline, hrun, fun w hw hid => ?_⟩
  obtain ⟨hrows, hsame⟩ := hkept w hw hid
  exact ⟨hrows, by rw [hsame]⟩

end

end Engine

end LineEditor
