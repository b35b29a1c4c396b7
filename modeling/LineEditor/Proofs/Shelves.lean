import LineEditor.Proofs.Frames
import LineEditor.Proofs.Pages

/-!
# What keeps pages

Each operation of the engine keeps what is known of pages. Work in the current window has to keep
its tokens only if it is a page; recording and undoing bring back what was there; a session or a
window that goes takes nothing with it that others show, and what is new is no page.
-/

namespace LineEditor

namespace Engine

section
variable {pages : Pages} {e : Engine}

theorem Shelved.listed (h : e.Shelved pages) :
    Listed pages e.pool e.nextWindow (e.session.below.reverse ++ [e.window]) e.session.undo.record :=
  h.shelf.listed _ List.mem_cons_self

theorem Shelved.current (h : e.Shelved pages) {tokens : List Bytes}
    (ht : pages e.window.id = some tokens) :
    e.window.flags.browsing = true ∧ e.pool.tokens e.window.lines = tokens :=
  h.listed.page _ (List.mem_append_right _ (List.mem_singleton_self _)) tokens ht

theorem Shelved.free (h : e.Shelved pages) (hb : e.window.flags.browsing = false) :
    pages e.window.id = none := by
  cases ht : pages e.window.id with
  | none => rfl
  | some tokens =>
    rw [(h.current ht).1] at hb
    cases hb

theorem Shelved.next_free (h : e.Shelved pages) : pages e.nextWindow = none := by
  cases ht : pages e.nextWindow with
  | none => rfl
  | some tokens => exact absurd (h.known _ tokens ht) (Nat.lt_irrefl _)

/-- The current window changes, and perhaps the record. -/
theorem Shelved.setCurrent (h : e.Shelved pages) {w : Window} {u : UndoSlot} {p : Pool}
    (hid : w.id = e.window.id) (hb : w.flags.browsing = e.window.flags.browsing)
    (ha : p.Accounts (w.lines.contents + (u.contents + e.elsewhere)))
    (hk : e.pool.Keeps p (e.elsewhere.map Prod.fst))
    (hw : ∀ tokens, pages e.window.id = some tokens → p.tokens w.lines = tokens)
    (hr : ∀ r, u.record = some r → r.window ∈ e.session.numbers ∧
      ∀ tokens, pages r.window = some tokens → p.tokens r.lines = tokens) :
    Shelved pages { e with pool := p, session := { e.session with current := w, undo := u } } where
  vacant := h.vacant
  accounts := ha
  shelf := by
    have hnum : Session.numbers { e.session with current := w, undo := u } = e.session.numbers := by
      have hid' : w.id = e.session.current.id := hid
      simp [Session.numbers, Session.windows, hid']
    refine h.shelf.head (h.listed.setLast hid hb hk (fun v => below_contents_subset) hw hr)
      (fun n hn => .inl (hnum ▸ hn)) (Nat.le_refl _) hk.right
  known := h.known
  entry t ht hwin := hb.trans (h.entry t ht (hwin.trans hid))

/-- Work in the current window keeps the tokens of a page. -/
theorem Shelved.work (h : e.Shelved pages) {w : Window} {p : Pool} {rows : List Row}
    (hs : Shows e.window e.pool e.beside rows w p)
    (hrows : ∀ tokens, pages e.window.id = some tokens →
      Row.tokens rows = Row.tokens (e.pool.rows e.window.lines)) :
    Shelved pages { e.setWindow w with pool := p } := by
  refine h.setCurrent hs.id_eq hs.browsing_eq hs.accounts hs.keeps.right (fun tokens ht => ?_)
    fun r hr => ⟨h.listed.record_mem r hr, fun tokens ht => ?_⟩
  · rw [← (h.current ht).2]
    unfold Pool.tokens
    rw [hs.rows_eq]
    exact hrows tokens ht
  · have hsub : r.lines.contents ⊆ e.session.undo.contents := by
      rw [UndoSlot.contents_of_some hr]
      exact fun c hc => hc
    rw [Pool.tokens_keeps hs.keeps.left hsub]
    exact h.listed.recorded r hr tokens ht

theorem Shelved.note (h : e.Shelved pages) {w : Window} (hid : w.id = e.window.id)
    (hb : w.flags.browsing = e.window.flags.browsing) (hl : w.lines = e.window.lines) :
    (e.setWindow w).Shelved pages := by
  have hs : Shows e.window e.pool e.beside (e.pool.rows e.window.lines) w e.pool := by
    refine ⟨hid, hb, ?_, .refl _ _, by rw [hl]⟩
    rw [hl]
    exact h.accounts
  exact h.work hs fun _ _ => rfl

theorem Shelved.recall (h : e.Shelved pages) (r : Recall) : (e.withRecall r).Shelved pages := by
  have hnote : (e.setWindow
      { e.window with lastSearch := r.search, lastReplacement := r.replacement }).Shelved pages :=
    h.note rfl rfl rfl
  exact ⟨⟨hnote.vacant, hnote.accounts⟩, hnote.shelf, hnote.known, hnote.entry⟩

/-- Marks hold no token. -/
theorem Shelved.mark (h : e.Shelved pages) {l : LineMap} (hl : l.clearMarks = e.window.lines.clearMarks) :
    (e.setWindow { e.window with lines := l }).Shelved pages := by
  have hcontent : l.map Entry.content = e.window.lines.map Entry.content := by
    rw [← LineMap.content_clearMarks, hl, LineMap.content_clearMarks]
  have ha := h.accounts
  unfold contents at ha
  rw [← LineMap.contents_of_clearMarks_eq hl] at ha
  have hs : Shows e.window e.pool e.beside (e.pool.rows l) { e.window with lines := l } e.pool :=
    ⟨rfl, rfl, ha, .refl _ _, rfl⟩
  exact h.work hs fun _ _ => e.pool.tokens_of_content hcontent

/-! ## Sessions -/

theorem Shelved.table (h : e.Shelved pages) : Shelf pages e.pool e.nextWindow e.table.sessions :=
  h.shelf.perm h.table_perm.symm

theorem Shelved.switch (h : e.Shelved pages) {n : Nat} {s : Session} (hs : e.table.get? n = some s) :
    (e.makeCurrent n s).Shelved pages where
  toHeld := h.toHeld.switch hs
  shelf := h.table.perm (SessionTable.take_perm hs)
  known := h.known
  entry t ht := by cases ht

theorem Shelved.switch_new (h : e.Shelved pages) {n : Nat} (h₁ : 1 ≤ n) (hn : n ≤ e.table.max)
    (hs : e.table.get? n = none) (flags : WindowFlags) :
    ((e.newWindow flags).2.makeCurrent n (.ofWindow (e.newWindow flags).1)).Shelved pages where
  toHeld := h.toHeld.switch_new h₁ hn hs flags
  shelf := by
    have hnone : Listed pages e.pool e.nextWindow [] none :=
      ⟨by simp, List.nodup_nil, by simp, by simp, by simp⟩
    show Shelf pages e.pool (e.nextWindow + 1)
      (.ofWindow (.empty e.nextWindow flags) :: (e.table.put n none).sessions)
    rw [SessionTable.put_self hs]
    refine h.table.cons_new (hnone.snoc rfl h.next_free) (fun k hk => ?_) (Nat.le_succ _)
    exact List.mem_singleton.mp hk
  known k tokens ht := Nat.lt_succ_of_lt (h.known k tokens ht)
  entry t ht := by cases ht

theorem Shelved.move (h : e.Shelved pages) {n : Nat} (h₁ : 1 ≤ n) (hn : n ≤ e.table.max)
    (hs : e.table.get? n = none) : Shelved pages { e with slot := n } where
  toHeld := h.toHeld.move h₁ hn hs
  shelf := h.shelf
  known := h.known
  entry := h.entry

theorem Shelved.close (h : e.Shelved pages) {n : Nat} {s : Session} {p : Pool}
    (hs : e.others.get? n = some s) (ha : p.Accounts e.others.contents)
    (hk : e.pool.Keeps p (e.others.contents.map Prod.fst)) : (e.closed n s p).Shelved pages where
  toHeld := held_of_take hs ha rfl rfl rfl
  shelf := (h.shelf.tail.keeps hk (Nat.le_refl _)).perm (SessionTable.take_perm hs)
  known := h.known
  entry t ht := by cases ht

/-! ## Windows -/

theorem Shelved.push (h : e.Shelved pages) (flags : WindowFlags) : (e.pushed flags).Shelved pages where
  toHeld := h.toHeld.push flags
  shelf := by
    have hlisted := h.listed.snoc (w := (e.newWindow flags).1) rfl h.next_free
    refine h.shelf.head (e.pushed_windows flags ▸ hlisted) (fun n hn => ?_) (Nat.le_succ _) (.refl _ _)
    unfold Session.numbers at hn
    rw [pushed_windows, List.map_append] at hn
    exact (List.mem_append.mp hn).imp_right List.mem_singleton.mp
  known k tokens ht := Nat.lt_succ_of_lt (h.known k tokens ht)
  entry t ht := by cases ht

section
variable {undo : UndoSlot} {p : Pool}

theorem Shelved.record (h : e.Shelved pages) (hr : e.Recording undo p) :
    (e.recorded undo p).Shelved pages := by
  have htokens (tokens : List Bytes) (ht : pages e.window.id = some tokens) :
      p.tokens e.window.lines = tokens := by
    unfold Pool.tokens
    rw [hr.rows_eq]
    exact (h.current ht).2
  obtain ⟨lines, hrec, hcontent⟩ := hr.record_eq
  refine h.setCurrent rfl rfl hr.accounts hr.keeps.right htokens fun r hr => ?_
  rw [hrec] at hr
  cases hr
  refine ⟨List.mem_map_of_mem (List.mem_append_right _ (List.mem_singleton_self _)), fun tokens ht => ?_⟩
  exact (p.tokens_of_content hcontent).trans (htokens tokens ht)

/-- Window and record change places, and with them what they show. -/
theorem Shelved.undone (h : e.Shelved pages) {r : UndoRecord} (hr : e.session.undo.record = some r)
    (hid : r.window = e.window.id) : (e.undone r).Shelved pages := by
  refine h.setCurrent rfl rfl (h.toHeld.accounts_swap hr) (.refl _ _) (fun tokens ht => ?_)
    fun r' hr' => ?_
  · exact h.listed.recorded r hr tokens (hid ▸ ht)
  · cases hr'
    refine ⟨?_, fun tokens ht => (h.current ht).2⟩
    exact List.mem_map_of_mem (List.mem_append_right _ (List.mem_singleton_self _))

section
variable (hd : e.Dropping undo p)
include hd

/-- What is left of the session when its current window goes. -/
theorem Shelved.without (h : e.Shelved pages) :
    Listed pages p e.nextWindow e.session.below.reverse undo.record := by
  refine (h.listed.dropLast hd.record).keeps hd.keeps (fun w hw c hc => ?_) (fun r hrec c hc => ?_)
    (Nat.le_refl _)
  · exact Multiset.mem_add.mpr (.inr (below_contents_subset hw hc))
  · rw [UndoSlot.contents_of_some hrec]
    exact Multiset.mem_add.mpr (.inl hc)

theorem Shelved.replace (h : e.Shelved pages) (flags : WindowFlags) :
    (e.replaced undo p flags).Shelved pages where
  toHeld := h.toHeld.replace hd.accounts flags
  shelf := by
    refine h.shelf.head ((h.without hd).snoc rfl h.next_free) (fun n hn => ?_) (Nat.le_succ _)
      hd.keeps.right.right
    unfold Session.numbers Session.windows at hn ⊢
    rw [List.map_append] at hn ⊢
    exact (List.mem_append.mp hn).imp (List.mem_append_left _) List.mem_singleton.mp
  known k tokens ht := Nat.lt_succ_of_lt (h.known k tokens ht)
  entry t ht := by cases ht

theorem Shelved.pop (h : e.Shelved pages) {w : Window} {rest : List Window}
    (hb : e.session.below = w :: rest) : (e.popped undo p w rest).Shelved pages where
  toHeld := h.toHeld.pop hb hd.accounts
  shelf := by
    have hlisted := h.without hd
    rw [← popped_windows hb] at hlisted
    refine h.shelf.head hlisted (fun n hn => .inl ?_) (Nat.le_refl _) hd.keeps.right.right
    unfold Session.numbers at hn ⊢
    rw [popped_windows hb] at hn
    unfold Session.windows
    rw [List.map_append]
    exact List.mem_append_left _ hn
  known := h.known
  entry t ht := by cases ht

end

end

/-- What brings no new lines keeps pages. -/
theorem framed_shelved (pages : Pages) {opens : WindowFlags → Prop} (hplain : opens .none) :
    Framed (Shelved pages) opens where
  held h := h.toHeld
  remember h r _ := h.recall r
  arm h armed := ⟨⟨h.vacant, h.accounts⟩, h.shelf, h.known, h.entry⟩
  interrupt h := ⟨⟨h.vacant, h.accounts⟩, h.shelf, h.known, h.entry⟩
  begin h hmode _ _ :=
    ⟨⟨h.vacant, h.accounts⟩, h.shelf, h.known, fun _ _ _ => browsing_of_mode hmode⟩
  untype h := ⟨⟨h.vacant, h.accounts⟩, h.shelf, h.known, fun t ht => by cases ht⟩
  note h _ hw := h.note hw.id_eq (by rw [hw.flags_eq]) hw.lines_eq
  mark h _ hl := h.mark hl
  record h _ _ hr := h.record hr
  save h := h.note rfl rfl rfl
  undo h _ hr hid := h.undone hr hid
  switch h _ _ hs := h.switch hs
  start h _ h₁ hn hs := h.switch_new h₁ hn hs .none
  move h _ h₁ hn hs := h.move h₁ hn hs
  close h _ _ _ hs ha hk := h.close hs ha hk
  plain := hplain
  push h flags _ := h.push flags
  replace h _ _ hd flags _ := h.replace hd flags
  pop h _ _ hd _ _ hb := h.pop hd hb

end

end Engine

end LineEditor
