import LineEditor.Proofs.Bulk
import LineEditor.Proofs.Frames

/-!
# Texts of windows and records

A property of texts holds everywhere if each window has it, and each record: of the texts of their
lines, and of whether the last one lacks its newline. Whatever moves windows and records about, shares
their lines or gives them up keeps such a property; only new lines can break it.
-/

namespace LineEditor

theorem Pool.texts_keeps {p q : Pool} {m : LineMap} {n : Multiset (Handle × Option Suffix)}
    (h : p.Keeps q (n.map Prod.fst)) (hm : m.contents ⊆ n) : q.texts m = p.texts m := by
  unfold texts
  rw [rows_keeps h hm]

theorem Pool.texts_of_content {k l : LineMap} (p : Pool)
    (h : k.map Entry.content = l.map Entry.content) : p.texts k = p.texts l := by
  have hread (m : LineMap) : p.texts m =
      (m.map Entry.content).map fun c => (p.text? c.1).getD [] := by
    unfold texts rows
    rw [List.map_map, List.map_map]
    rfl
  rw [hread, hread, h]

/-- Windows and record of a session have the property. -/
structure Session.Holds (Q : List Bytes → Bool → Prop) (p : Pool) (s : Session) : Prop where
  windows : ∀ w ∈ s.windows, Q (p.texts w.lines) w.flags.noFinalNewline
  record : ∀ r, s.undo.record = some r → Q (p.texts r.lines) r.noFinalNewline

namespace Session.Holds

section
variable {Q : List Bytes → Bool → Prop} {p q : Pool} {s : Session}

theorem keeps (h : s.Holds Q p) (hk : p.Keeps q (s.contents.map Prod.fst)) : s.Holds Q q where
  windows w hw := by
    rw [Pool.texts_keeps hk (window_contents_subset hw)]
    exact h.windows w hw
  record r hr := by
    rw [Pool.texts_keeps hk (record_contents_subset hr)]
    exact h.record r hr

theorem current (h : s.Holds Q p) : Q (p.texts s.current.lines) s.current.flags.noFinalNewline :=
  h.windows _ (List.mem_append_right _ (List.mem_singleton_self _))

theorem ofWindow {w : Window} (hw : Q (p.texts w.lines) w.flags.noFinalNewline) :
    (Session.ofWindow w).Holds Q p where
  windows v hv := by
    rw [List.mem_singleton.mp hv]
    exact hw
  record r hr := by cases hr

end

end Session.Holds

theorem SessionTable.holds_keeps {Q : List Bytes → Bool → Prop} {p q : Pool} {t : SessionTable}
    (h : ∀ s ∈ t.sessions, s.Holds Q p) (hk : p.Keeps q (t.contents.map Prod.fst)) :
    ∀ s ∈ t.sessions, s.Holds Q q :=
  fun s hs => (h s hs).keeps (hk.mono (Multiset.map_subset_map (contents_subset hs)))

/-- All windows and records have the property `Q`, and the lines of a text being typed have `C`. -/
structure Engine.Everywhere (Q : Limits → List Bytes → Bool → Prop) (C : Bytes → Prop) (e : Engine) :
    Prop extends e.Held where
  session : e.session.Holds (Q e.limits) e.pool
  others : ∀ s ∈ e.others.sessions, s.Holds (Q e.limits) e.pool
  typed : ∀ t, e.entry = some t → ∀ line ∈ t.lines, C line

namespace Engine

section
variable {Q : Limits → List Bytes → Bool → Prop} {C : Bytes → Prop} {e : Engine}

/-- The current window changes, and perhaps the record. -/
theorem Everywhere.setCurrent (h : e.Everywhere Q C) {w : Window} {u : UndoSlot} {p : Pool}
    (ha : p.Accounts (w.lines.contents + (u.contents + e.elsewhere)))
    (hk : e.pool.Keeps p (e.elsewhere.map Prod.fst))
    (hw : Q e.limits (p.texts w.lines) w.flags.noFinalNewline)
    (hr : ∀ r, u.record = some r → Q e.limits (p.texts r.lines) r.noFinalNewline) :
    Everywhere Q C { e with pool := p, session := { e.session with current := w, undo := u } } where
  vacant := h.vacant
  accounts := ha
  session := by
    refine ⟨fun v hv => ?_, hr⟩
    rcases List.mem_append.mp hv with hv | hv
    · show Q e.limits (p.texts v.lines) _
      rw [Pool.texts_keeps hk (below_contents_subset hv)]
      exact h.session.windows v (List.mem_append_left _ hv)
    · rw [List.mem_singleton.mp hv]
      exact hw
  others := SessionTable.holds_keeps h.others hk.right
  typed := h.typed

/-- Work in the current window leaves a text with the property. -/
theorem Everywhere.work (h : e.Everywhere Q C) {w : Window} {p : Pool} {rows : List Row}
    (hs : Shows e.window e.pool e.beside rows w p)
    (hrows : Q e.limits (rows.map Row.text) w.flags.noFinalNewline) :
    Everywhere Q C { e.setWindow w with pool := p } := by
  refine h.setCurrent hs.accounts hs.keeps.right ?_ fun r hr => ?_
  · unfold Pool.texts
    rw [hs.rows_eq]
    exact hrows
  · have hsub : r.lines.contents ⊆ e.session.undo.contents := by
      rw [UndoSlot.contents_of_some hr]
      exact fun c hc => hc
    rw [Pool.texts_keeps hs.keeps.left hsub]
    exact h.session.record r hr

/-- The window comes to stand for the same text. -/
theorem Everywhere.same (h : e.Everywhere Q C) {w : Window}
    (hl : w.lines.map Entry.content = e.window.lines.map Entry.content)
    (hf : w.flags.noFinalNewline = e.window.flags.noFinalNewline) :
    (e.setWindow w).Everywhere Q C := by
  have hcontents : w.lines.contents = e.window.lines.contents := by
    unfold LineMap.contents
    rw [hl]
  refine h.setCurrent ?_ (.refl _ _) ?_ h.session.record
  · rw [hcontents]
    exact h.accounts
  · rw [Pool.texts_of_content e.pool hl, hf]
    exact h.session.current

theorem Everywhere.noteEdit (h : e.Everywhere Q C) :
    (e.setWindow e.window.noteEdit).Everywhere Q C :=
  h.same (by rw [e.window.noteEdit_lines]) (by rw [e.window.noteEdit_flags])

theorem Everywhere.table (h : e.Everywhere Q C) :
    ∀ s ∈ e.table.sessions, s.Holds (Q e.limits) e.pool := by
  intro s hs
  rcases List.mem_cons.mp (h.table_perm.mem_iff.mp hs) with rfl | hs
  · exact h.session
  · exact h.others s hs

theorem everywhere_of_take {e' : Engine} (hheld : e'.Held) {t : SessionTable} {n : Nat} {s : Session}
    (hs : t.get? n = some s) (ht : ∀ s ∈ t.sessions, s.Holds (Q e'.limits) e'.pool)
    (hsession : e'.session = s) (hothers : e'.others = t.put n none) (hn : e'.entry = none) :
    e'.Everywhere Q C := by
  subst hsession
  have hperm := SessionTable.take_perm hs
  refine ⟨hheld, ht _ (hperm.mem_iff.mpr List.mem_cons_self), fun s hmem => ?_, fun t ht => ?_⟩
  · rw [hothers] at hmem
    exact ht s (hperm.mem_iff.mpr (List.mem_cons_of_mem _ hmem))
  · rw [hn] at ht
    cases ht

/-- The current session has other windows or another record, over a pool that keeps all the rest. -/
theorem Everywhere.setSession (h : e.Everywhere Q C) {e' : Engine} (hheld : e'.Held)
    (hlimits : e'.limits = e.limits) (hothers : e'.others = e.others)
    (hk : e.pool.Keeps e'.pool (e.others.contents.map Prod.fst)) (hn : e'.entry = none)
    (hs : e'.session.Holds (Q e.limits) e'.pool) : e'.Everywhere Q C where
  toHeld := hheld
  session := hlimits ▸ hs
  others := by
    rw [hlimits, hothers]
    exact SessionTable.holds_keeps h.others hk
  typed t ht := by
    rw [hn] at ht
    cases ht

theorem Everywhere.record (h : e.Everywhere Q C) {undo : UndoSlot} {p : Pool}
    (hr : e.Recording undo p) : (e.recorded undo p).Everywhere Q C := by
  have htexts : Q e.limits (p.texts e.window.lines) e.window.flags.noFinalNewline := by
    unfold Pool.texts
    rw [hr.rows_eq]
    exact h.session.current
  obtain ⟨lines, hrec, hcontent⟩ := hr.record_eq
  refine h.setCurrent hr.accounts hr.keeps.right htexts fun r hr => ?_
  rw [hrec] at hr
  cases hr
  show Q e.limits (p.texts lines) _
  rw [Pool.texts_of_content p hcontent]
  exact htexts

theorem Everywhere.undone (h : e.Everywhere Q C) {r : UndoRecord}
    (hr : e.session.undo.record = some r) : (e.undone r).Everywhere Q C := by
  refine h.setCurrent (h.toHeld.accounts_swap hr) (.refl _ _) (h.session.record r hr) fun r' hr' => ?_
  cases hr'
  exact h.session.current

/-! ## Sessions and windows -/

section
variable (hempty : ∀ limits f, Q limits [] f)
include hempty

theorem Everywhere.start (h : e.Everywhere Q C) {n : Nat} (h₁ : 1 ≤ n) (hn : n ≤ e.table.max)
    (hs : e.table.get? n = none) (flags : WindowFlags) :
    ((e.newWindow flags).2.makeCurrent n (.ofWindow (e.newWindow flags).1)).Everywhere Q C where
  toHeld := h.toHeld.switch_new h₁ hn hs flags
  session := .ofWindow (hempty _ _)
  others := by
    show ∀ s ∈ (e.table.put n none).sessions, s.Holds (Q e.limits) e.pool
    rw [SessionTable.put_self hs]
    exact h.table
  typed t ht := by cases ht

theorem Everywhere.push (h : e.Everywhere Q C) (flags : WindowFlags) :
    (e.pushed flags).Everywhere Q C := by
  refine h.setSession (h.toHeld.push flags) rfl rfl (.refl _ _) rfl ⟨fun w hw => ?_, h.session.record⟩
  rw [pushed_windows] at hw
  rcases List.mem_append.mp hw with hw | hw
  · exact h.session.windows w hw
  · rw [List.mem_singleton.mp hw]
    exact hempty _ _

end

section
variable {undo : UndoSlot} {p : Pool} (hd : e.Dropping undo p)
include hd

/-- What is left of the session when its current window goes. -/
theorem Everywhere.beneath (h : e.Everywhere Q C) {w : Window} (hw : w ∈ e.session.below.reverse) :
    Q e.limits (p.texts w.lines) w.flags.noFinalNewline := by
  rw [Pool.texts_keeps hd.keeps.right (below_contents_subset hw)]
  exact h.session.windows w (List.mem_append_left _ hw)

theorem Everywhere.kept_record (h : e.Everywhere Q C) {r : UndoRecord} (hr : undo.record = some r) :
    Q e.limits (p.texts r.lines) r.noFinalNewline := by
  rw [Pool.texts_keeps hd.keeps.left (fun c hc => by rwa [UndoSlot.contents_of_some hr])]
  exact h.session.record r (hd.record r hr).1

theorem Everywhere.replace (h : e.Everywhere Q C) (hempty : ∀ limits f, Q limits [] f)
    (flags : WindowFlags) : (e.replaced undo p flags).Everywhere Q C := by
  refine h.setSession (h.toHeld.replace hd.accounts flags) rfl rfl hd.keeps.right.right rfl
    ⟨fun w hw => ?_, fun r hr => h.kept_record hd hr⟩
  rcases List.mem_append.mp hw with hw | hw
  · exact h.beneath hd hw
  · rw [List.mem_singleton.mp hw]
    exact hempty _ _

theorem Everywhere.pop (h : e.Everywhere Q C) {w : Window} {rest : List Window}
    (hb : e.session.below = w :: rest) : (e.popped undo p w rest).Everywhere Q C := by
  refine h.setSession (h.toHeld.pop hb hd.accounts) rfl rfl hd.keeps.right.right rfl
    ⟨fun v hv => h.beneath hd ?_, fun r hr => h.kept_record hd hr⟩
  rwa [popped_windows hb] at hv

end

/-- What brings no new lines keeps a property that an empty text has. -/
theorem framed_everywhere (hempty : ∀ limits f, Q limits [] f) {opens : WindowFlags → Prop}
    (hplain : opens .none) : Framed (Everywhere Q C) opens where
  held h := h.toHeld
  remember {e} h r _ := by
    have hsame := h.same (w := { e.window with lastSearch := r.search, lastReplacement := r.replacement })
      rfl rfl
    exact ⟨⟨hsame.vacant, hsame.accounts⟩, hsame.session, hsame.others, hsame.typed⟩
  arm h _ := ⟨⟨h.vacant, h.accounts⟩, h.session, h.others, h.typed⟩
  interrupt h := ⟨⟨h.vacant, h.accounts⟩, h.session, h.others, h.typed⟩
  begin h _ _ _ := by
    refine ⟨⟨h.vacant, h.accounts⟩, h.session, h.others, fun t ht => ?_⟩
    cases ht
    exact fun line hl => by cases hl
  untype h := ⟨⟨h.vacant, h.accounts⟩, h.session, h.others, fun t ht => by cases ht⟩
  note h _ hw := by
    refine h.same (by rw [hw.lines_eq]) ?_
    rw [hw.flags_eq]
  mark {e} h l hl := by
    refine h.same ?_ rfl
    show l.map Entry.content = _
    rw [← LineMap.content_clearMarks, hl, LineMap.content_clearMarks]
  record h _ _ hr := h.record hr
  save h := h.same rfl rfl
  undo h _ hr _ := h.undone hr
  switch h _ _ hs := everywhere_of_take (h.toHeld.switch hs) hs h.table rfl rfl rfl
  start h _ h₁ hn hs := h.start hempty h₁ hn hs .none
  move h _ h₁ hn hs := ⟨h.toHeld.move h₁ hn hs, h.session, h.others, h.typed⟩
  close h _ _ _ hs ha hk :=
    everywhere_of_take (held_of_take hs ha rfl rfl rfl) hs (SessionTable.holds_keeps h.others hk)
      rfl rfl rfl
  plain := hplain
  push h flags _ := h.push hempty flags
  replace h _ _ hd flags _ := h.replace hd hempty flags
  pop h _ _ hd _ _ hb := h.pop hd hb

end

end Engine

end LineEditor
