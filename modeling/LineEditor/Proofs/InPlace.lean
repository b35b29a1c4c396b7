import LineEditor.Proofs.KeptRuns
import LineEditor.Proofs.Texts

/-!
# Work in place

Most commands work in the current window and nowhere else: on its lines, its dot and labels, its
name. Whatever becomes of them, the other windows and the records of other sessions are what they
were, and no document is left with another text unless that is noted.
-/

namespace LineEditor

/-- A document of which no edit is noted. -/
structure Window.Unmodified (w : Window) : Prop where
  mode_eq : w.mode = .normal
  changed_eq : w.flags.changed = false

theorem Window.Unmodified.of_eq {w w' : Window} (h : w'.Unmodified)
    (hd : w'.flags.directory = w.flags.directory) (hb : w'.flags.browsing = w.flags.browsing)
    (hc : w'.flags.changed = w.flags.changed) : w.Unmodified := by
  refine ⟨?_, hc ▸ h.changed_eq⟩
  have hmode := h.mode_eq
  unfold mode at hmode ⊢
  rwa [hd, hb] at hmode

theorem Window.not_unmodified_noteEdit (w : Window) : ¬w.noteEdit.Unmodified := by
  intro h
  have hmode : w.mode = .normal := by
    have hsame := h.mode_eq
    unfold mode at hsame ⊢
    rwa [noteEdit_flags] at hsame
  have hchanged := h.changed_eq
  rw [noteEdit_flags, hmode] at hchanged
  cases hchanged

theorem Pool.blob_congr {p q : Pool} {w w' : Window} (ht : q.texts w'.lines = p.texts w.lines)
    (hf : w'.flags.noFinalNewline = w.flags.noFinalNewline) : q.blob w' = p.blob w := by
  unfold blob
  rw [ht, hf]

namespace Engine

/-- All that is different is the current window and the record of its session, the text being typed,
the request to stop, and what the pool has for them. -/
structure Confined (e e' : Engine) : Prop extends e'.Held where
  slot_eq : e'.slot = e.slot
  below_eq : e'.session.below = e.session.below
  others_eq : e'.others = e.others
  limits_eq : e'.limits = e.limits
  next_eq : e'.nextWindow = e.nextWindow
  armed_eq : e'.quitArmed = e.quitArmed
  id_eq : e'.window.id = e.window.id
  browsing_eq : e'.window.flags.browsing = e.window.flags.browsing
  keeps : e.pool.Keeps e'.pool (e.elsewhere.map Prod.fst)

/-- The work is confined to the current window, and an edit of a document was noted. -/
structure InPlace (e e' : Engine) : Prop extends e.Confined e' where
  unsaved : e'.window.Unmodified →
    e.window.Unmodified ∧ e'.pool.blob e'.window = e.pool.blob e.window

section
variable {e e' e'' : Engine}

theorem Confined.elsewhere_eq (h : e.Confined e') : e'.elsewhere = e.elsewhere := by
  unfold elsewhere Session.beneath
  rw [h.below_eq, h.others_eq]

theorem Confined.trans (h : e.Confined e') (h' : e'.Confined e'') : e.Confined e'' where
  toHeld := h'.toHeld
  slot_eq := h'.slot_eq.trans h.slot_eq
  below_eq := h'.below_eq.trans h.below_eq
  others_eq := h'.others_eq.trans h.others_eq
  limits_eq := h'.limits_eq.trans h.limits_eq
  next_eq := h'.next_eq.trans h.next_eq
  armed_eq := h'.armed_eq.trans h.armed_eq
  id_eq := h'.id_eq.trans h.id_eq
  browsing_eq := h'.browsing_eq.trans h.browsing_eq
  keeps := h.keeps.trans (h.elsewhere_eq ▸ h'.keeps)

theorem InPlace.trans (h : e.InPlace e') (h' : e'.InPlace e'') : e.InPlace e'' where
  toConfined := h.toConfined.trans h'.toConfined
  unsaved hu := by
    obtain ⟨hu', hblob⟩ := h'.unsaved hu
    obtain ⟨hu₀, hblob₀⟩ := h.unsaved hu'
    exact ⟨hu₀, hblob.trans hblob₀⟩

theorem InPlace.refl (h : e.Held) : e.InPlace e :=
  ⟨⟨h, rfl, rfl, rfl, rfl, rfl, rfl, rfl, rfl, .refl _ _⟩, fun hu => ⟨hu, rfl⟩⟩

theorem Held.confined (h : e.Held) {w : Window} {u : UndoSlot} {p : Pool}
    (hid : w.id = e.window.id) (hb : w.flags.browsing = e.window.flags.browsing)
    (ha : p.Accounts (w.lines.contents + (u.contents + e.elsewhere)))
    (hk : e.pool.Keeps p (e.elsewhere.map Prod.fst)) :
    e.Confined { e with pool := p, session := { e.session with current := w, undo := u } } :=
  ⟨⟨h.vacant, ha⟩, rfl, rfl, rfl, rfl, rfl, rfl, hid, hb, hk⟩

theorem Held.confined_shows (h : e.Held) {w : Window} {p : Pool} {rows : List Row}
    (hs : Shows e.window e.pool e.beside rows w p) :
    e.Confined { e.setWindow w with pool := p } :=
  h.confined hs.id_eq hs.browsing_eq hs.accounts hs.keeps.right

theorem Held.confined_undone (h : e.Held) {r : UndoRecord} (hr : e.session.undo.record = some r) :
    e.Confined (e.undone r) :=
  h.confined rfl rfl (h.accounts_swap hr) (.refl _ _)

theorem Held.inPlace_same (h : e.Held) {w : Window} (hid : w.id = e.window.id)
    (hl : w.lines.map Entry.content = e.window.lines.map Entry.content)
    (hf : w.flags = e.window.flags) : e.InPlace (e.setWindow w) where
  toConfined := by
    have hcontents : w.lines.contents = e.window.lines.contents := by
      unfold LineMap.contents
      rw [hl]
    refine h.confined hid (by rw [hf]) ?_ (.refl _ _)
    rw [hcontents]
    exact h.accounts
  unsaved hu := by
    refine ⟨hu.of_eq ?_ ?_ ?_, Pool.blob_congr (Pool.texts_of_content _ hl) (congrArg _ hf)⟩
    all_goals exact congrArg _ hf

theorem InPlace.edit (h : e.Held) {change : Edit} (hfit : change.Fits e.window.dol) {w : Window}
    {p : Pool} (hrun : change.perform e.window e.pool = .ok (w, p)) :
    e.InPlace { e.setWindow w.noteEdit with pool := p } where
  toConfined := by
    have hs := (Edit.perform_shows h.accounts hfit).of_eq hrun
    refine h.confined_shows (?_ : Shows e.window e.pool e.beside
      (change.rows (e.pool.rows e.window.lines)) w.noteEdit p)
    refine ⟨?_, ?_, ?_, hs.keeps, ?_⟩
    · rw [Window.noteEdit_id]
      exact hs.id_eq
    · rw [Window.noteEdit_flags]
      exact hs.browsing_eq
    · rw [Window.noteEdit_lines]
      exact hs.accounts
    · rw [Window.noteEdit_lines]
      exact hs.rows_eq
  unsaved hu := absurd hu w.not_unmodified_noteEdit

theorem Received.confined (h : e.Held) {place : Nat} {new : List Row} (hr : e.Received e' place new) :
    e.Confined e' := by
  rw [hr.eq]
  exact h.confined_shows hr.shows

theorem InPlace.read (h : e.Held) {place : Nat} {new : List Row} (hr : e.Received e' place new) :
    e.InPlace (e'.setWindow e'.window.noteEdit) where
  toConfined := by
    have hc := hr.confined h
    refine hc.trans (hc.toHeld.confined ?_ ?_ ?_ (.refl _ _))
    · exact e'.window.noteEdit_id
    · rw [e'.window.noteEdit_flags]
    · rw [e'.window.noteEdit_lines]
      exact hc.accounts
  unsaved hu := absurd hu e'.window.not_unmodified_noteEdit

theorem InPlace.record (h : e.Held) {undo : UndoSlot} {p : Pool} (hr : e.Recording undo p) :
    e.InPlace (e.recorded undo p) where
  toConfined := h.confined rfl rfl hr.accounts hr.keeps.right
  unsaved hu := by
    refine ⟨hu.of_eq rfl rfl rfl, Pool.blob_congr ?_ rfl⟩
    unfold Pool.texts
    rw [show (e.recorded undo p).pool.rows (e.recorded undo p).window.lines = _ from hr.rows_eq]

/-- On these terms everything is allowed. -/
def freeTerms : Terms where
  edits _ _ _ _ := True
  takes _ := True
  typed _ := True
  loaded _ := True
  opens _ := True

/-- What is done in the current window is done in place, as seen from any moment before. -/
theorem sustained_inPlace (e : Engine) : Sustained e.InPlace freeTerms where
  held h := h.toHeld
  remember h r _ := by
    have hw := h.trans (h.toHeld.inPlace_same
      (w := { Engine.window _ with lastSearch := r.search, lastReplacement := r.replacement }) rfl rfl rfl)
    exact ⟨⟨⟨hw.vacant, hw.accounts⟩, hw.slot_eq, hw.below_eq, hw.others_eq, hw.limits_eq, hw.next_eq,
      hw.armed_eq, hw.id_eq, hw.browsing_eq, hw.keeps⟩, hw.unsaved⟩
  begin h _ _ _ := ⟨⟨⟨h.vacant, h.accounts⟩, h.slot_eq, h.below_eq, h.others_eq, h.limits_eq, h.next_eq,
    h.armed_eq, h.id_eq, h.browsing_eq, h.keeps⟩, h.unsaved⟩
  untype h := ⟨⟨⟨h.vacant, h.accounts⟩, h.slot_eq, h.below_eq, h.others_eq, h.limits_eq, h.next_eq,
    h.armed_eq, h.id_eq, h.browsing_eq, h.keeps⟩, h.unsaved⟩
  note h _ hw := h.trans (h.toHeld.inPlace_same hw.id_eq (by rw [hw.lines_eq]) hw.flags_eq)
  mark h l hl := by
    refine h.trans (h.toHeld.inPlace_same rfl ?_ rfl)
    show l.map Entry.content = _
    rw [← LineMap.content_clearMarks, hl, LineMap.content_clearMarks]
  record h _ _ hr := h.trans (.record h.toHeld hr)
  plan h _ _ hr hz _ tail := by
    refine (View.plan_yields h.toHeld.readable hr hz tail).mono fun plan _ => ?_
    cases plan with
    | edit change shape print => exact trivial
    | _ => exact trivial
  edit h _ hfit _ _ _ hrun := h.trans (.edit h.toHeld hfit hrun)
  type h _ _ _ _ := ⟨⟨⟨h.vacant, h.accounts⟩, h.slot_eq, h.below_eq, h.others_eq, h.limits_eq, h.next_eq,
    h.armed_eq, h.id_eq, h.browsing_eq, h.keeps⟩, h.unsaved⟩
  commit _ _ _ _ _ _ _ _ := trivial
  read h _ _ _ _ _ _ hr _ := h.trans (.read h.toHeld hr)

end

end Engine

end LineEditor
