import LineEditor.Proofs.InPlace
import LineEditor.Proofs.Neighbours
import LineEditor.Proofs.Terminators

/-!
# Deeds

What a run does to lines comes down to a few kinds of deeds: an edit, a blob or a listing that comes
in, a record that is made, an undo, a new window. Beside the engine stands a shadow with a bit for
each line of each window and record, which only the deeds move. Whatever calls are made, what a window
notes of its end is the bit of its last line.
-/

namespace LineEditor

/-- What is done to the lines of the window with the number `n`. -/
inductive Deed where
  | edit (n : Nat) (change : Edit)
  | bulk (n place : Nat) (blob : Bytes)
  | list (n place count : Nat)
  | record (n : Nat)
  | undo (n : Nat)
  | create (n : Nat)
  deriving Repr, DecidableEq

/-- The bits of windows, and those of their records, by number. -/
structure Shadow where
  window : Nat → Bits
  record : Nat → Bits

namespace Shadow

def blank : Shadow := ⟨fun _ => [], fun _ => []⟩

def setWindow (σ : Shadow) (n : Nat) (bits : Bits) : Shadow :=
  { σ with window := Function.update σ.window n bits }

def after (σ : Shadow) : Deed → Shadow
  | .edit n change => σ.setWindow n (change.bits (σ.window n))
  | .bulk n place blob => σ.setWindow n ((σ.window n).take place blob)
  | .list n place count => σ.setWindow n ((σ.window n).list place count)
  | .record n => { σ with record := Function.update σ.record n (σ.window n) }
  | .undo n =>
    { window := Function.update σ.window n (σ.record n)
      record := Function.update σ.record n (σ.window n) }
  | .create n => σ.setWindow n []

/-- The shadow that deeds leave, one after the other. -/
def ofDeeds (deeds : List Deed) : Shadow := deeds.foldl after blank

end Shadow

/-- The windows have the same lines, and note the same of their end. -/
structure Window.SameText (w w' : Window) : Prop where
  id_eq : w'.id = w.id
  content_eq : w'.lines.map Entry.content = w.lines.map Entry.content
  note_eq : w'.flags.noFinalNewline = w.flags.noFinalNewline

theorem Window.SameText.refl (w : Window) : w.SameText w := ⟨rfl, rfl, rfl⟩

theorem Window.Noted.sameText {w w' : Window} (h : w.Noted w') : w.SameText w' where
  id_eq := h.id_eq
  content_eq := by rw [h.lines_eq]
  note_eq := by rw [h.flags_eq]

theorem Window.sameText_noteEdit (w : Window) : w.SameText w.noteEdit where
  id_eq := w.noteEdit_id
  content_eq := by rw [w.noteEdit_lines]
  note_eq := by rw [w.noteEdit_flags]

theorem Window.SameText.dol_eq {w w' : Window} (h : w.SameText w') : w'.dol = w.dol := by
  have hlen := congrArg List.length h.content_eq
  rwa [List.length_map, List.length_map] at hlen

namespace Engine

/-- The records of all sessions. -/
def records (e : Engine) : List UndoRecord := e.table.sessions.filterMap fun s => s.undo.record

/-- Windows may change places or go; those that are left have the lines they had. -/
structure Quiet (e e' : Engine) : Prop where
  windows : ∀ w' ∈ e'.windows, ∃ w ∈ e.windows, w.SameText w'
  records : e'.records ⊆ e.records

/-- A window is new and empty, and the others are as they were. -/
structure Creates (e e' : Engine) (flags : WindowFlags) : Prop where
  windows : ∀ w ∈ e'.windows, w = .empty e.nextWindow flags ∨ w ∈ e.windows
  records : e'.records ⊆ e.records

/-- One step of the engine, and the deed that it is, if it is one. -/
inductive Does (e : Engine) : Option Deed → Engine → Prop
  | quiet {e'} : e.Quiet e' → Does e none e'
  | edit {change w p} : change.Fits e.window.dol → change.perform e.window e.pool = .ok (w, p) →
    Does e (some (.edit e.window.id change)) { e.setWindow w.noteEdit with pool := p }
  | bulk {place blob n e'} : e.run (EditM.insertBulk place blob) = .ok (.ok n, e') →
    Does e (some (.bulk e.window.id place blob)) e'
  | list {place entries n e'} : e.run (EditM.insertDirectory place entries) = .ok (.ok n, e') →
    Does e (some (.list e.window.id place entries.length)) e'
  | record {undo p} : e.Recording undo p → Does e (some (.record e.window.id)) (e.recorded undo p)
  | undo {r} : e.session.undo.record = some r → r.window = e.window.id →
    Does e (some (.undo e.window.id)) (e.undone r)
  | create {flags e'} : flags.noFinalNewline = false → e.Creates e' flags →
    Does e (some (.create e.nextWindow)) e'

/-- The engine comes to `e'` by these deeds, and no two windows ever have a number in common. -/
inductive Deeds (e : Engine) : List Deed → Engine → Prop
  | start : Deeds e [] e
  | step {deeds deed e₁ e₂} : Deeds e deeds e₁ → e₁.Does deed e₂ → e₂.Shelved (fun _ => none) →
    Deeds e (deeds ++ deed.toList) e₂

/-- The calls lead to `e'`, each by some of the deeds. -/
inductive Chronicle : Engine → List Call → List Deed → Engine → Prop
  | nil (e) : Chronicle e [] [] e
  | cons {e e₁ e' call calls deeds more} : e.perform call = .ok e₁ → e.Deeds deeds e₁ →
    Chronicle e₁ calls more e' → Chronicle e (call :: calls) (deeds ++ more) e'

/-- The shadow has the bits of all windows and records. -/
structure Told (σ : Shadow) (e : Engine) : Prop where
  windows : ∀ w ∈ e.windows, (σ.window w.id).Tells w.dol w.flags.noFinalNewline
  records : ∀ r ∈ e.records, (σ.record r.window).Tells r.lines.length r.noFinalNewline

section
variable {e e' : Engine} {σ σ' : Shadow}

/-! ## Windows and records of all sessions -/

theorem Held.mem_windows_others (h : e.Held) {w : Window} : w ∈ e.windows ↔
    w ∈ e.session.windows ∨ w ∈ e.others.sessions.flatMap Session.windows := by
  unfold windows
  rw [(h.table_perm.flatMap_right _).mem_iff, List.flatMap_cons, List.mem_append]

theorem Held.mem_records (h : e.Held) {r : UndoRecord} : r ∈ e.records ↔
    e.session.undo.record = some r ∨ r ∈ e.others.sessions.filterMap fun s => s.undo.record := by
  unfold records
  rw [(h.table_perm.filterMap _).mem_iff, List.mem_filterMap, List.mem_filterMap]
  constructor
  · rintro ⟨s, hs, hr⟩
    rcases List.mem_cons.mp hs with rfl | hs
    · exact .inl hr
    · exact .inr ⟨s, hs, hr⟩
  · rintro (hr | ⟨s, hs, hr⟩)
    · exact ⟨e.session, List.mem_cons_self, hr⟩
    · exact ⟨s, List.mem_cons_of_mem _ hs, hr⟩

/-- No window beside the current one has its number, and no record of another session is of it. -/
theorem Shelved.id_ne (h : e.Shelved fun _ => none) {w : Window}
    (hw : w ∈ e.session.below ∨ w ∈ e.others.sessions.flatMap Session.windows) :
    w.id ≠ e.window.id := by
  intro hid
  rcases hw with hw | hw
  · have hnodup := h.listed.numbers_nodup
    rw [List.map_append, List.nodup_append] at hnodup
    exact hnodup.2.2 _ (List.mem_map_of_mem (List.mem_reverse.mpr hw)) _ (List.mem_singleton_self _) hid
  · obtain ⟨s, hs, hw⟩ := List.mem_flatMap.mp hw
    have hdisjoint := (List.pairwise_cons.mp h.shelf.apart).1 s hs
    refine hdisjoint (List.mem_map_of_mem e.window_mem_session) ?_
    rw [← hid]
    exact List.mem_map_of_mem hw

theorem Shelved.record_ne (h : e.Shelved fun _ => none) {r : UndoRecord}
    (hr : r ∈ e.others.sessions.filterMap fun s => s.undo.record) : r.window ≠ e.window.id := by
  intro hid
  obtain ⟨s, hs, hr⟩ := List.mem_filterMap.mp hr
  have hmem := (h.shelf.listed s (List.mem_cons_of_mem _ hs)).record_mem r hr
  obtain ⟨w, hw, hwid⟩ := List.mem_map.mp hmem
  exact h.id_ne (.inr (List.mem_flatMap.mpr ⟨s, hs, hw⟩)) (hwid.trans hid)

/-! ## What steps do to the shadow -/

/-- Only the bits of the current window and of its record are others. -/
theorem Told.current (h : e.Shelved fun _ => none) (h' : e'.Held) (ht : e.Told σ)
    (hbelow : e'.session.below = e.session.below) (hothers : e'.others = e.others)
    (hwindows : ∀ n, n ≠ e.window.id → σ'.window n = σ.window n)
    (hrecords : ∀ n, n ≠ e.window.id → σ'.record n = σ.record n)
    (hw : (σ'.window e'.window.id).Tells e'.window.dol e'.window.flags.noFinalNewline)
    (hr : ∀ r, e'.session.undo.record = some r →
      (σ'.record r.window).Tells r.lines.length r.noFinalNewline) : e'.Told σ' where
  windows w hmem := by
    -- numbers are given out once, so the bits of the others are where they were
    have hold (hw : w ∈ e.session.below ∨ w ∈ e.others.sessions.flatMap Session.windows) :
        (σ'.window w.id).Tells w.dol w.flags.noFinalNewline := by
      rw [hwindows _ (h.id_ne hw)]
      exact ht.windows w (h.toHeld.mem_windows_others.mpr (hw.imp_left below_mem_session))
    rw [h'.mem_windows_others, hothers, mem_session_windows, hbelow] at hmem
    rcases hmem with (hmem | rfl) | hmem
    · exact hold (.inl hmem)
    · exact hw
    · exact hold (.inr hmem)
  records r hmem := by
    rw [h'.mem_records, hothers] at hmem
    rcases hmem with hmem | hmem
    · exact hr r hmem
    · rw [hrecords _ (h.record_ne hmem)]
      exact ht.records r (h.toHeld.mem_records.mpr (.inr hmem))

theorem Told.window (h : e.Held) (ht : e.Told σ) :
    (σ.window e.window.id).Tells e.window.dol e.window.flags.noFinalNewline :=
  ht.windows e.window (h.mem_windows_session e.window_mem_session)

theorem Told.record (h : e.Held) (ht : e.Told σ) {r : UndoRecord}
    (hr : e.session.undo.record = some r) :
    (σ.record r.window).Tells r.lines.length r.noFinalNewline :=
  ht.records r (h.mem_records.mpr (.inl hr))

theorem Told.work (h : e.Shelved fun _ => none) (h' : e'.Held) (ht : e.Told σ)
    (hbelow : e'.session.below = e.session.below) (hothers : e'.others = e.others)
    (hundo : e'.session.undo = e.session.undo) (hid : e'.window.id = e.window.id) {bits : Bits}
    (hw : bits.Tells e'.window.dol e'.window.flags.noFinalNewline) :
    e'.Told (σ.setWindow e.window.id bits) := by
  refine ht.current h h' hbelow hothers (fun n hn => Function.update_of_ne hn _ _) (fun _ _ => rfl) ?_
    fun r hr => ht.record h.toHeld (hundo ▸ hr)
  rw [hid]
  show Bits.Tells (Function.update σ.window e.window.id bits e.window.id) _ _
  rwa [Function.update_self]

theorem Told.receive (h : e.Shelved fun _ => none) (ht : e.Told σ) {place : Nat} {new : List Row}
    (hr : e.Received e' place new) {bits : Bits}
    (hw : bits.Tells (e.window.dol + new.length) e'.window.flags.noFinalNewline) :
    e'.Told (σ.setWindow e.window.id bits) := by
  have hc := hr.confined h.toHeld
  refine ht.work h hc.toHeld hc.below_eq hc.others_eq ?_ hc.id_eq ?_
  · rw [hr.eq]
    rfl
  · rw [hr.dol_eq]
    exact hw

theorem Recording.content_length {undo : UndoSlot} {p : Pool} (hr : e.Recording undo p) {r : UndoRecord}
    (hrec : undo.record = some r) : r.window = e.window.id ∧ r.lines.length = e.window.dol ∧
      r.noFinalNewline = e.window.flags.noFinalNewline := by
  obtain ⟨lines, hnew, hcontent⟩ := hr.record_eq
  rw [hrec] at hnew
  cases hnew
  have hlen := congrArg List.length hcontent
  rw [List.length_map, List.length_map] at hlen
  exact ⟨rfl, hlen, rfl⟩

theorem Told.quiet (ht : e.Told σ) (hq : e.Quiet e') : e'.Told σ where
  windows w' hw' := by
    obtain ⟨w, hw, hsame⟩ := hq.windows w' hw'
    rw [hsame.dol_eq, hsame.note_eq, hsame.id_eq]
    exact ht.windows w hw
  records r hr := ht.records r (hq.records hr)

theorem Told.edit (h : e.Shelved fun _ => none) (ht : e.Told σ) {change : Edit}
    (hfit : change.Fits e.window.dol) {w : Window} {p : Pool}
    (hrun : change.perform e.window e.pool = .ok (w, p))
    (h' : Held { e.setWindow w.noteEdit with pool := p }) :
    Told (σ.setWindow e.window.id (change.bits (σ.window e.window.id)))
      { e.setWindow w.noteEdit with pool := p } := by
  have hs := (Edit.perform_shows h.accounts hfit).of_eq hrun
  refine ht.work h h' rfl rfl rfl (w.noteEdit_id.trans hs.id_eq) ?_
  have htells := change.perform_tells hfit hrun (ht.window h.toHeld)
  show Bits.Tells _ w.noteEdit.lines.length w.noteEdit.flags.noFinalNewline
  rw [w.noteEdit_lines, w.noteEdit_flags]
  exact htells

theorem Told.recorded (h : e.Shelved fun _ => none) (ht : e.Told σ) {undo : UndoSlot} {p : Pool}
    (hr : e.Recording undo p) (h' : (e.recorded undo p).Held) :
    (e.recorded undo p).Told (σ.after (.record e.window.id)) := by
  have htells := ht.window h.toHeld
  refine ht.current h h' rfl rfl (fun _ _ => rfl) (fun n hn => Function.update_of_ne hn _ _) htells
    fun r hrec => ?_
  obtain ⟨hwindow, hlen, hnote⟩ := hr.content_length hrec
  show Bits.Tells (Function.update σ.record e.window.id (σ.window e.window.id) r.window) _ _
  rw [hwindow, Function.update_self, hlen, hnote]
  exact htells

/-- What is in the window afterwards was in the record, and the other way round. -/
theorem Told.undone (h : e.Shelved fun _ => none) (ht : e.Told σ) {r : UndoRecord}
    (hr : e.session.undo.record = some r) (hid : r.window = e.window.id) (h' : (e.undone r).Held) :
    (e.undone r).Told (σ.after (.undo e.window.id)) := by
  refine ht.current h h' rfl rfl (fun n hn => Function.update_of_ne hn _ _)
    (fun n hn => Function.update_of_ne hn _ _) ?_ fun r' hr' => ?_
  · show Bits.Tells (Function.update σ.window e.window.id (σ.record e.window.id) e.window.id) _ _
    rw [Function.update_self, ← hid]
    exact ht.record h.toHeld hr
  · cases hr'
    show Bits.Tells (Function.update σ.record e.window.id (σ.window e.window.id) e.window.id) _ _
    rw [Function.update_self]
    exact ht.window h.toHeld

theorem Told.created (h : e.Shelved fun _ => none) (ht : e.Told σ) {flags : WindowFlags}
    (hflags : flags.noFinalNewline = false) (hc : e.Creates e' flags) :
    e'.Told (σ.setWindow e.nextWindow []) where
  windows w hw := by
    show Bits.Tells (Function.update σ.window e.nextWindow [] w.id) _ _
    rcases hc.windows w hw with rfl | hw
    · rw [show (Window.empty e.nextWindow flags).id = e.nextWindow from rfl, Function.update_self]
      show Bits.Tells [] 0 flags.noFinalNewline
      rw [hflags]
      exact .nil
    · rw [Function.update_of_ne (Nat.ne_of_lt (h.id_lt hw))]
      exact ht.windows w hw
  records r hr := ht.records r (hc.records hr)

/-- Each step does to windows and records what its deed does to the shadow. -/
theorem Does.told {deed : Option Deed} (h : e.Shelved fun _ => none) (h' : e'.Held)
    (hd : e.Does deed e') (ht : e.Told σ) : e'.Told (deed.toList.foldl Shadow.after σ) := by
  cases hd with
  | quiet hq => exact ht.quiet hq
  | edit hfit hrun => exact ht.edit h hfit hrun h'
  | @bulk place blob n e' hrun =>
    obtain ⟨-, hr, hflags⟩ := EditM.insertBulk_receives h.toHeld place blob _ _ hrun
    refine ht.receive h hr ?_
    rw [hflags, List.length_map]
    exact (ht.window h.toHeld).take hr.place_le
  | @list place entries n e' hrun =>
    obtain ⟨-, hr, hflags⟩ := EditM.insertDirectory_receives h.toHeld place entries _ _ hrun
    refine ht.receive h hr ?_
    rw [hflags, List.length_map]
    exact (ht.window h.toHeld).list hr.place_le
  | record hr => exact ht.recorded h hr h'
  | undo hr hid => exact ht.undone h hr hid h'
  | create hflags hc => exact ht.created h hflags hc

theorem Deeds.shelved {deeds : List Deed} (h : e.Shelved fun _ => none) (hd : e.Deeds deeds e') :
    e'.Shelved fun _ => none := by
  cases hd with
  | start => exact h
  | step _ _ hs => exact hs

theorem Deeds.told {deeds : List Deed} (h : e.Shelved fun _ => none) (hd : e.Deeds deeds e')
    (ht : e.Told σ) : e'.Told (deeds.foldl Shadow.after σ) := by
  -- on the deeds; numbers stay apart after each, which the next one asks for
  induction hd with
  | start => exact ht
  | step hd hdoes hs ih =>
    rw [List.foldl_append]
    exact hdoes.told (hd.shelved h) hs.toHeld ih

theorem Chronicle.told {calls : List Call} {deeds : List Deed} (hc : e.Chronicle calls deeds e')
    (h : e.Shelved fun _ => none) (ht : e.Told σ) : e'.Told (deeds.foldl Shadow.after σ) := by
  induction hc generalizing σ with
  | nil e => exact ht
  | cons _ hd _ ih =>
    rw [List.foldl_append]
    exact ih (hd.shelved h) (hd.told h ht)

/-! ## Which steps there are -/

structure Follows (e₀ e : Engine) : Prop where
  shelved : e.Shelved fun _ => none
  deeds : ∃ deeds, e₀.Deeds deeds e

theorem Follows.does {e₀ : Engine} {deed : Option Deed} (h : e₀.Follows e) (hd : e.Does deed e')
    (hs : e'.Shelved fun _ => none) : e₀.Follows e' := by
  obtain ⟨deeds, hdeeds⟩ := h.deeds
  exact ⟨hs, _, .step hdeeds hd hs⟩

theorem quiet_of_table (h : e'.table = e.table) : e.Quiet e' := by
  have hwindows : e'.windows = e.windows := by
    unfold windows
    rw [h]
  have hrecords : e'.records = e.records := by
    unfold records
    rw [h]
  exact ⟨fun w hw => ⟨w, hwindows ▸ hw, .refl w⟩, hrecords ▸ List.Subset.refl _⟩

theorem records_subset (h : e.Held) (h' : e'.Held) (hothers : e'.others = e.others)
    (hrecord : ∀ r, e'.session.undo.record = some r → e.session.undo.record = some r) :
    e'.records ⊆ e.records := by
  intro r hr
  rw [h'.mem_records, hothers] at hr
  exact h.mem_records.mpr (hr.imp_left (hrecord r))

theorem quiet_of_session (h : e.Held) (h' : e'.Held) (hothers : e'.others = e.others)
    (hwindows : ∀ w' ∈ e'.session.windows, ∃ w ∈ e.session.windows, w.SameText w')
    (hrecord : ∀ r, e'.session.undo.record = some r → e.session.undo.record = some r) : e.Quiet e' where
  windows w' hw' := by
    rw [h'.mem_windows_others, hothers] at hw'
    rcases hw' with hw' | hw'
    · obtain ⟨w, hw, hsame⟩ := hwindows w' hw'
      exact ⟨w, h.mem_windows_session hw, hsame⟩
    · exact ⟨w', h.mem_windows_others.mpr (.inr hw'), .refl w'⟩
  records := records_subset h h' hothers hrecord

theorem quiet_setWindow (h : e.Held) {w : Window} (h' : e'.Held) (hothers : e'.others = e.others)
    (hsession : e'.session = { e.session with current := w }) (hw : e.window.SameText w) :
    e.Quiet e' := by
  refine quiet_of_session h h' hothers (fun w' hw' => ?_) fun r hr => ?_
  · rw [hsession] at hw'
    rcases mem_session_windows (e := e.setWindow w) |>.mp hw' with hw' | rfl
    · exact ⟨w', below_mem_session hw', .refl w'⟩
    · exact ⟨e.window, e.window_mem_session, hw⟩
  · rw [hsession] at hr
    exact hr

theorem quiet_closed {n : Nat} {s : Session} (p : Pool) (h : e.Held) (hs : e.others.get? n = some s) :
    e.Quiet (e.closed n s p) where
  windows w hw := by
    unfold windows at hw
    rw [table_closed p hs] at hw
    exact ⟨w, h.mem_windows_others.mpr (.inr hw), .refl w⟩
  records r hr := by
    unfold records at hr
    rw [table_closed p hs] at hr
    exact h.mem_records.mpr (.inr hr)

theorem quiet_popped {undo : UndoSlot} {p : Pool} {w : Window} {rest : List Window} (h : e.Held)
    (hd : e.Dropping undo p) (hb : e.session.below = w :: rest) : e.Quiet (e.popped undo p w rest) := by
  refine quiet_of_session h (h.pop hb hd.accounts) rfl (fun v hv => ?_) fun r hr => (hd.record r hr).1
  rw [popped_windows hb] at hv
  exact ⟨v, below_mem_session (List.mem_reverse.mp hv), .refl v⟩

theorem creates_of_session {flags : WindowFlags} (h : e.Held) (h' : e'.Held)
    (hothers : e'.others = e.others)
    (hwindows : e'.session.windows ⊆ e.session.windows ++ [.empty e.nextWindow flags])
    (hrecord : ∀ r, e'.session.undo.record = some r → e.session.undo.record = some r) :
    e.Creates e' flags where
  windows w hw := by
    rw [h'.mem_windows_others, hothers] at hw
    rcases hw with hw | hw
    · rcases List.mem_append.mp (hwindows hw) with hw | hw
      · exact .inr (h.mem_windows_session hw)
      · exact .inl (List.mem_singleton.mp hw)
    · exact .inr (h.mem_windows_others.mpr (.inr hw))
  records := records_subset h h' hothers hrecord

theorem creates_pushed (h : e.Held) (flags : WindowFlags) : e.Creates (e.pushed flags) flags := by
  refine creates_of_session h (h.push flags) rfl ?_ fun _ hr => hr
  rw [← pushed_windows]
  exact List.Subset.refl _

theorem creates_replaced {undo : UndoSlot} {p : Pool} (h : e.Held) (hd : e.Dropping undo p)
    (flags : WindowFlags) : e.Creates (e.replaced undo p flags) flags := by
  refine creates_of_session h (h.replace hd.accounts flags) rfl ?_ fun r hr => (hd.record r hr).1
  rw [replaced_windows]
  intro w hw
  refine (List.mem_append.mp hw).elim (fun hw => ?_) (List.mem_append_right _)
  exact List.mem_append_left _ (List.mem_append_left _ hw)

theorem creates_started {n : Nat} (h : e.Held) (h₁ : 1 ≤ n) (hn : n ≤ e.table.max)
    (hs : e.table.get? n = none) :
    e.Creates ((e.newWindow .none).2.makeCurrent n (.ofWindow (e.newWindow .none).1)) .none := by
  have h' := h.switch_new h₁ hn hs .none
  have hothers : (e.table.put n none) = e.table := SessionTable.put_self hs
  refine ⟨fun w hw => ?_, fun r hr => ?_⟩
  · rw [h'.mem_windows_others] at hw
    refine hw.imp (fun hw => List.mem_singleton.mp hw) fun hw => ?_
    change w ∈ (e.table.put n none).sessions.flatMap Session.windows at hw
    rwa [hothers] at hw
  · rw [h'.mem_records] at hr
    rcases hr with hr | hr
    · cases hr
    · change r ∈ (e.table.put n none).sessions.filterMap fun s => s.undo.record at hr
      rwa [hothers] at hr

/-- What one step comes to, if windows are opened with flags such as `opens` says. -/
inductive Steps (opens : WindowFlags → Prop) (e : Engine) : Engine → Prop
  | quiet {e' : Engine} : e.Quiet e' → Steps opens e e'
  | edit {change : Edit} {w : Window} {p : Pool} : change.Fits e.window.dol →
    change.perform e.window e.pool = .ok (w, p) →
    Steps opens e { e.setWindow w.noteEdit with pool := p }
  | bulk {place : Nat} {blob : Bytes} {n : Nat} {e' : Engine} :
    e.run (EditM.insertBulk place blob) = .ok (.ok n, e') → Steps opens e e'
  | list {place : Nat} {entries : List (Bytes × Option Suffix)} {n : Nat} {e' : Engine} :
    e.run (EditM.insertDirectory place entries) = .ok (.ok n, e') → Steps opens e e'
  | record {undo : UndoSlot} {p : Pool} : e.Recording undo p → Steps opens e (e.recorded undo p)
  | undo {r : UndoRecord} : e.session.undo.record = some r → r.window = e.window.id →
    Steps opens e (e.undone r)
  | create {flags : WindowFlags} {e' : Engine} : opens flags → e.Creates e' flags → Steps opens e e'

theorem Shelved.inPlace_steps {opens : WindowFlags → Prop} (h : e.Shelved fun _ => none) {w : Window}
    (h' : e'.Held) (hothers : e'.others = e.others)
    (hsession : e'.session = { e.session with current := w }) (hw : e.window.SameText w) :
    e.Steps opens e' :=
  .quiet (quiet_setWindow h.toHeld h' hothers hsession hw)

/-- A property that every step keeps survives everything. Numbers are given out once all the
while. -/
theorem kept_of_steps {I : Engine → Prop} {opens : WindowFlags → Prop} (hplain : opens .none)
    (hshelved : ∀ {e}, I e → e.Shelved fun _ => none)
    (hstep : ∀ {e e'}, I e → e.Steps opens e' → e'.Shelved (fun _ => none) → I e') :
    Kept I { freeTerms with opens := opens } where
  held h := (hshelved h).toHeld
  remember h r _ :=
    have h' := (hshelved h).recall r
    hstep h ((hshelved h).inPlace_steps h'.toHeld rfl rfl ⟨rfl, rfl, rfl⟩) h'
  begin h hb _ _ :=
    hstep h (.quiet (quiet_of_table rfl)) ((kept_shelved _).begin (hshelved h) hb _ _)
  untype h := hstep h (.quiet (quiet_of_table rfl)) ((kept_shelved _).untype (hshelved h))
  note h _ hw :=
    have h' := (kept_shelved _).note (hshelved h) hw
    hstep h ((hshelved h).inPlace_steps h'.toHeld rfl rfl hw.sameText) h'
  mark h l hl := by
    have h' := (hshelved h).mark hl
    refine hstep h ((hshelved h).inPlace_steps h'.toHeld rfl rfl ⟨rfl, ?_, rfl⟩) h'
    show l.map Entry.content = _
    rw [← LineMap.content_clearMarks, hl, LineMap.content_clearMarks]
  record h _ _ hr := hstep h (.record hr) ((hshelved h).record hr)
  arm h armed := hstep h (.quiet (quiet_of_table rfl)) ((kept_shelved _).arm (hshelved h) armed)
  interrupt h := hstep h (.quiet (quiet_of_table rfl)) ((kept_shelved _).interrupt (hshelved h))
  save h :=
    have h' := (kept_shelved _).save (hshelved h)
    hstep h ((hshelved h).inPlace_steps h'.toHeld rfl rfl ⟨rfl, rfl, rfl⟩) h'
  undo h _ hr hid := hstep h (.undo hr hid) ((hshelved h).undone hr hid)
  switch h _ _ hs := hstep h (.quiet (quiet_of_table (table_switched hs))) ((hshelved h).switch hs)
  start h _ h₁ hn hs := hstep h (.create hplain (creates_started (hshelved h).toHeld h₁ hn hs))
    ((hshelved h).switch_new h₁ hn hs .none)
  move h _ h₁ hn hs :=
    have h' := (hshelved h).move h₁ hn hs
    hstep h ((hshelved h).inPlace_steps h'.toHeld rfl rfl (.refl _)) h'
  close h _ _ p hs ha hk := hstep h (.quiet (quiet_closed p (hshelved h).toHeld hs))
    ((hshelved h).close hs ha hk)
  plain := hplain
  push h flags hflags := hstep h (.create hflags (creates_pushed (hshelved h).toHeld flags))
    ((hshelved h).push flags)
  replace h _ _ hd flags hflags :=
    hstep h (.create hflags (creates_replaced (hshelved h).toHeld hd flags)) ((hshelved h).replace hd flags)
  pop h _ _ hd _ _ hb := hstep h (.quiet (quiet_popped (hshelved h).toHeld hd hb))
    ((hshelved h).pop hd hb)
  plan h _ _ hr hz hall tail :=
    (sustained_inPlace _).plan (.refl (hshelved h).toHeld) hr hz hall tail
  edit h _ hfit _ _ _ hrun := by
    refine hstep h (.edit hfit hrun) ((kept_shelved fun _ => none).edit (hshelved h) hfit ?_ hrun)
    exact fun tokens ht => by cases ht
  type h _ hentry _ _ :=
    hstep h (.quiet (quiet_of_table rfl)) ((kept_shelved _).type (hshelved h) hentry trivial)
  commit _ _ _ _ _ _ _ _ := trivial
  read h _ _ _ _ _ hrun hr _ := by
    -- the lines come in first, and are noted as an edit afterwards
    have h₁ := (hshelved h).receive rfl hr
    have h₂ := h₁.noteEdit
    exact hstep (hstep h (.bulk hrun) h₁)
      (h₁.inPlace_steps h₂.toHeld rfl rfl (Window.sameText_noteEdit _)) h₂
  receptive _ _ := trivial
  bulk h _ _ _ _ _ hrun hr _ := hstep h (.bulk hrun) ((hshelved h).receive rfl hr)
  listing h _ _ _ _ _ _ hrun hr _ := hstep h (.list hrun) ((hshelved h).receive rfl hr)
  update _ _ _ _ _ _ _ := trivial

/-- Every step is a deed or none, if no window is opened with a note of its end. -/
theorem Steps.does (h : e.Steps (fun flags => flags.noFinalNewline = false) e') :
    ∃ deed, e.Does deed e' := by
  cases h with
  | quiet hq => exact ⟨_, .quiet hq⟩
  | edit hfit hrun => exact ⟨_, .edit hfit hrun⟩
  | bulk hrun => exact ⟨_, .bulk hrun⟩
  | list hrun => exact ⟨_, .list hrun⟩
  | record hr => exact ⟨_, .record hr⟩
  | undo hr hid => exact ⟨_, .undo hr hid⟩
  | create hflags hc => exact ⟨_, .create hflags hc⟩

/-- New lines come in freely; a window that is opened from outside notes nothing of its end. -/
def openTerms : Terms :=
  { freeTerms with opens := fun flags => flags.noFinalNewline = false }

/-- Everything that is done can be followed, and numbers are given out once all the while. -/
theorem kept_follows (e₀ : Engine) : Kept e₀.Follows openTerms :=
  kept_of_steps rfl (fun h => h.shelved) fun h hs h' =>
    have ⟨_, hd⟩ := hs.does
    h.does hd h'

/-- Of every run there is a chronicle, if no window is opened with a note of its end. -/
theorem Steady.chronicle (hs : e.Steady) (h : e.Shelved fun _ => none) {calls : List Call}
    (hopens : ∀ c ∈ calls, c.Opens fun flags => flags.noFinalNewline = false)
    (hrun : e.performAll calls = .ok e') : ∃ deeds, e.Chronicle calls deeds e' := by
  -- on the calls, from whatever engine the earlier ones left
  induction calls generalizing e with
  | nil =>
    cases hrun
    exact ⟨[], .nil _⟩
  | cons c calls ih =>
    obtain ⟨hc, hrest⟩ := List.forall_mem_cons.mp hopens
    obtain ⟨e₁, hfirst, hs₁⟩ := hs.perform c
    unfold Engine.performAll at hrun
    rw [hfirst] at hrun
    have hfollows : e.Follows e₁ := (kept_follows e).perform hs ⟨h, [], .start⟩
      (c.supplies_any (fun _ => trivial) fun _ => trivial) hc (fun _ => trivial) hfirst
    obtain ⟨deeds, hdeeds⟩ := hfollows.deeds
    obtain ⟨more, hmore⟩ := ih hs₁ hfollows.shelved hrest hrun
    exact ⟨deeds ++ more, .cons hfirst hdeeds hmore⟩

theorem told_new (limits : Limits) : (Engine.new limits).Told .blank where
  windows w hw := by
    rw [windows_new] at hw
    rw [List.mem_singleton.mp hw]
    exact .nil
  records r hr := by
    unfold records at hr
    rw [sessions_new] at hr
    cases hr

/-- Lines are written, copied, moved, read, listed, recorded and undone, in any order: every window
notes of its end what the deeds so far tell of its last line, and so does every record. -/
theorem note_tells_last_line (limits : Limits) (calls : List Call)
    (hopens : ∀ c ∈ calls, c.Opens fun flags => flags.noFinalNewline = false) :
    ∃ e, (Engine.new limits).performAll calls = .ok e ∧
      (∃ deeds, (Engine.new limits).Chronicle calls deeds e) ∧
      ∀ deeds, (Engine.new limits).Chronicle calls deeds e →
        (∀ w ∈ e.windows, ((Shadow.ofDeeds deeds).window w.id).length = w.dol ∧
          (w.flags.noFinalNewline = true ↔
            ((Shadow.ofDeeds deeds).window w.id).getLast? = some true)) ∧
        ∀ r ∈ e.records, ((Shadow.ofDeeds deeds).record r.window).length = r.lines.length ∧
          (r.noFinalNewline = true ↔
            ((Shadow.ofDeeds deeds).record r.window).getLast? = some true) := by
  have hs := steady_new limits
  obtain ⟨e, hrun, -⟩ := hs.performAll calls
  refine ⟨e, hrun, hs.chronicle (shelved_new limits) hopens hrun, fun deeds hc => ?_⟩
  have ht := hc.told (shelved_new limits) (told_new limits)
  exact ⟨fun w hw => ⟨(ht.windows w hw).length_eq, (ht.windows w hw).last.symm⟩,
    fun r hr => ⟨(ht.records r hr).length_eq, (ht.records r hr).last.symm⟩⟩

/-- A last line without a newline goes, and comes back without one. -/
theorem note_tells_last_line_undo : ∃ e deeds,
    (Engine.new ⟨1, 10, 100⟩).Chronicle
        [.insertBulk 0 [97, 10, 98], .line FileTree.storage .empty ['$', 'd'],
          .line FileTree.storage .empty ['u']] deeds e ∧
      ∀ w ∈ e.windows, ((Shadow.ofDeeds deeds).window w.id).length = 2 ∧
        ((Shadow.ofDeeds deeds).window w.id).getLast? = some true := by
  have hvalues : ((Engine.new ⟨1, 10, 100⟩).performAll
      [.insertBulk 0 [97, 10, 98], .line FileTree.storage .empty ['$', 'd'],
        .line FileTree.storage .empty ['u']]).map (fun e =>
          e.windows.all fun w => decide (w.dol = 2) && w.flags.noFinalNewline) = .ok true := by
    decide +kernel
  obtain ⟨e, hrun, ⟨deeds, hc⟩, htells⟩ := note_tells_last_line ⟨1, 10, 100⟩
    [.insertBulk 0 [97, 10, 98], .line FileTree.storage .empty ['$', 'd'],
      .line FileTree.storage .empty ['u']] (by simp [Call.Opens])
  rw [hrun] at hvalues
  have hall := List.all_eq_true.mp (Except.ok.inj hvalues)
  refine ⟨e, deeds, hc, fun w hw => ?_⟩
  obtain ⟨hdol, hnote⟩ := Bool.and_eq_true_iff.mp (hall w hw)
  obtain ⟨hlen, hlast⟩ := (htells deeds hc).1 w hw
  exact ⟨hlen.trans (of_decide_eq_true hdol), hlast.mp hnote⟩

end

end Engine

end LineEditor
