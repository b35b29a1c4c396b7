import LineEditor.Proofs.KeptRuns
import LineEditor.Proofs.Shelves

/-!
# Browsing

The pages of an engine at some moment keep their tokens from then on, whatever lines are typed. In a
page only substitutions change lines, and they are planned so that no token is lost. Only bytes put
into a window from outside could change them, and those of a browsing layer do.
-/

namespace LineEditor

/-- On a page only edits that spare every token are allowed, and no bytes from outside go into one. -/
def Pages.terms (pages : Pages) : Terms where
  edits _ id rows change := ∀ tokens, pages id = some tokens → change.Spares rows
  takes e := pages e.window.id = none
  typed _ := True
  loaded _ := True
  opens _ := True

namespace Engine

section
variable {pages : Pages} {e e' : Engine}

theorem Shelved.mode_ne_normal (h : e.Shelved pages) {tokens : List Bytes}
    (ht : pages e.window.id = some tokens) : e.window.mode ≠ .normal := by
  intro hmode
  have hb := (h.current ht).1
  rw [browsing_of_mode hmode] at hb
  cases hb

theorem Shelved.receive (h : e.Shelved pages) (hfree : pages e.window.id = none) {place : Nat}
    {new : List Row} (hr : e.Received e' place new) : e'.Shelved pages := by
  have hwork := h.work hr.shows fun tokens ht => ?_
  · rwa [← hr.eq] at hwork
  · rw [hfree] at ht
    cases ht

theorem Shelved.noteEdit (h : e.Shelved pages) : (e.setWindow e.window.noteEdit).Shelved pages :=
  h.note e.window.noteEdit_id (by rw [e.window.noteEdit_flags]) e.window.noteEdit_lines

theorem kept_shelved (pages : Pages) : Kept (Shelved pages) pages.terms where
  toFramed := framed_shelved pages trivial
  plan h _ _ hr hz hall tail := by
    refine (View.plan_yields h.readable hr hz tail).mono fun plan hsuits => ?_
    cases plan with
    | edit change shape print => exact fun tokens ht => hsuits.spares (h.mode_ne_normal ht) hall
    | _ => exact trivial
  edit h _ hfit hspares _ _ hrun :=
    (h.work ((Edit.perform_shows h.accounts hfit).of_eq hrun) fun tokens ht =>
      (hspares tokens ht).tokens_eq hfit).noteEdit
  type h entry hentry _ _ := by
    refine ⟨⟨h.vacant, h.accounts⟩, h.shelf, h.known, fun t ht hwin => ?_⟩
    cases ht
    exact h.entry entry hentry hwin
  commit h entry hentry hsame _ _ _ _ tokens ht := by
    rw [h.free (h.entry entry hentry hsame)] at ht
    cases ht
  read h hmode _ _ _ _ _ hr _ := (h.receive (h.free (browsing_of_mode hmode)) hr).noteEdit
  receptive h hmode := h.free (browsing_of_mode hmode)
  bulk h hfree _ _ _ _ _ hr _ := h.receive hfree hr
  listing h hfree _ _ _ _ _ _ hr _ := h.receive hfree hr
  update _ hfree _ _ _ _ _ tokens ht := by
    have hnone : none = some tokens := hfree.symm.trans ht
    cases hnone

theorem Shelved.performAll (hs : e.Steady) (h : e.Shelved pages) {calls : List Call}
    (hcalls : ∀ c ∈ calls, c.brings = false) (hrun : e.performAll calls = .ok e') :
    e'.Shelved pages := by
  refine (kept_shelved pages).performAll hs h (fun c _ => ?_) (fun c _ => ?_) (fun c hc hb => ?_) hrun
  · exact c.supplies_any (fun _ => trivial) fun _ => trivial
  · exact c.opens_any fun _ => trivial
  · rw [hcalls c hc] at hb
    cases hb

/-! ## Pages of reachable engines -/

/-- Without pages, what is known is that numbers are given out once. -/
theorem shelved_new (limits : Limits) : (Engine.new limits).Shelved fun _ => none where
  toHeld := (steady_new limits).toHeld
  shelf := by
    rw [others_new]
    refine ⟨fun s hs => ?_, List.pairwise_singleton _ _⟩
    rw [List.mem_singleton] at hs
    subst hs
    have hempty : Listed (fun _ => none) (Engine.new limits).pool 1 [] none :=
      ⟨by simp, List.nodup_nil, by simp, by simp, by simp⟩
    exact hempty.snoc rfl rfl
  known n tokens ht := by cases ht
  entry t ht := by cases ht

theorem Reachable.performAll (h : e.Reachable) {calls : List Call}
    (hrun : e.performAll calls = .ok e') : e'.Reachable := by
  induction calls generalizing e with
  | nil =>
    cases hrun
    exact h
  | cons c calls ih =>
    obtain ⟨e₁, hfirst, hrest⟩ := bind_eq_ok.mp hrun
    exact ih (.call c h hfirst) hrest

theorem Reachable.shelved (h : e.Reachable) : e.Shelved fun _ => none :=
  (kept_shelved _).reachable (fun _ => trivial) (fun _ => trivial) (fun _ => trivial) (fun _ _ => rfl)
    shelved_new h

/-- The tokens of the current window, as those of the only page. -/
def currentPage (e : Engine) : Pages :=
  fun n => if n = e.window.id then some (e.pool.tokens e.window.lines) else none

theorem currentPage_eq_some {n : Nat} {tokens : List Bytes} (h : e.currentPage n = some tokens) :
    n = e.window.id ∧ e.pool.tokens e.window.lines = tokens := by
  unfold currentPage at h
  by_cases hn : n = e.window.id
  · rw [if_pos hn] at h
    cases h
    exact ⟨hn, rfl⟩
  · rw [if_neg hn] at h
    cases h

/-- No window but the current one has its number, and no record is of it. -/
theorem Shelved.shelve (h : e.Shelved pages) (hb : e.window.flags.browsing = true)
    (hr : e.session.undo.holds e.window.id = false) (ht : ∀ t, e.entry = some t → t.window ≠ e.window.id) :
    e.Shelved e.currentPage where
  toHeld := h.toHeld
  shelf := by
    have hnum : e.window.id ∈ e.session.numbers :=
      List.mem_map_of_mem (List.mem_append_right _ (List.mem_singleton_self _))
    obtain ⟨hfirst, -⟩ := List.pairwise_cons.mp h.shelf.apart
    refine ⟨fun s hs => ?_, h.shelf.apart⟩
    have hl := h.shelf.listed s hs
    refine ⟨hl.numbers_lt, hl.numbers_nodup, hl.record_mem, fun w hw tokens hp => ?_,
      fun r hrec tokens hp => ?_⟩
    · obtain ⟨hid, rfl⟩ := currentPage_eq_some hp
      rcases List.mem_cons.mp hs with rfl | hs
      · have hcurrent : e.window ∈ e.session.windows :=
          List.mem_append_right _ (List.mem_singleton_self _)
        have hw : w = e.window := List.inj_on_of_nodup_map hl.numbers_nodup hw hcurrent hid
        rw [hw]
        exact ⟨hb, rfl⟩
      · exact absurd (hid ▸ List.mem_map_of_mem hw) (hfirst s hs hnum)
    · obtain ⟨hid, -⟩ := currentPage_eq_some hp
      rcases List.mem_cons.mp hs with rfl | hs
      · unfold UndoSlot.holds at hr
        rw [hrec] at hr
        simp [hid] at hr
      · exact absurd (hid ▸ hl.record_mem r hrec) (hfirst s hs hnum)
  known n tokens hp := by
    obtain ⟨rfl, -⟩ := currentPage_eq_some hp
    exact h.listed.numbers_lt _ (List.mem_append_right _ (List.mem_singleton_self _))
  entry t hent hid := absurd hid (ht t hent)

theorem browsing_of_browse {w : Window} (h : w.mode = .browse) : w.flags.browsing = true := by
  unfold Window.mode at h
  by_cases hd : w.flags.directory = true
  · rw [if_pos hd] at h
    cases h
  · rw [if_neg hd] at h
    by_cases hb : w.flags.browsing = true
    · exact hb
    · rw [if_neg hb] at h
      cases h

/-- A page of which there is no record keeps its tokens, each byte of them and in their order, for as
long as it is there, whatever lines are typed and whatever becomes of the sessions around it. -/
theorem Reachable.pages_keep_tokens (h : e.Reachable) (hmode : e.window.mode = .browse)
    (hrecord : e.session.undo.holds e.window.id = false) {calls : List Call}
    (hcalls : ∀ c ∈ calls, c.brings = false) :
    ∃ tokens e', e.window.tokens e.pool = .ok tokens ∧ e.performAll calls = .ok e' ∧
      ∀ s ∈ e'.table.sessions, ∀ w ∈ s.windows, w.id = e.window.id →
        w.tokens e'.pool = .ok tokens := by
  have hb := browsing_of_browse hmode
  have htyped (t : TextEntry) (ht : e.entry = some t) : t.window ≠ e.window.id := by
    intro hid
    rw [h.shelved.entry t ht hid] at hb
    cases hb
  have hpage := h.shelved.shelve hb hrecord htyped
  have hself : e.currentPage e.window.id = some (e.pool.tokens e.window.lines) := if_pos rfl
  have hread {e : Engine} (h : e.Held) {s : Session} (hs : s ∈ e.table.sessions) {w : Window}
      (hw : w ∈ s.windows) : w.tokens e.pool = .ok (e.pool.tokens w.lines) := by
    have ha := h.accounts
    rw [← h.table_contents] at ha
    refine Window.tokens_eq ha fun c hc => SessionTable.contents_subset hs ?_
    exact Session.window_contents_subset hw hc
  obtain ⟨e', hrun, hs'⟩ := h.steady.performAll calls
  have hpage' := hpage.performAll h.steady hcalls hrun
  refine ⟨e.pool.tokens e.window.lines, e', ?_, hrun, fun s hs w hw hid => ?_⟩
  · exact hread hpage.toHeld (hpage.table_perm.mem_iff.mpr List.mem_cons_self)
      (List.mem_append_right _ (List.mem_singleton_self _))
  · rw [hread hpage'.toHeld hs hw]
    rw [← hid] at hself
    exact congrArg Except.ok ((hpage'.table.listed s hs).page w hw _ hself).2

/-- A page with the line `a-⟨1{⟩b` on which a line is typed that cuts it in two. -/
theorem pages_keep_tokens_split :
    ∃ e e', (Engine.new ⟨1, 10, 100⟩).performAll
        [.pushWindow { WindowFlags.none with browsing := true },
          .insertBulk 0 [97, 45, 0x80, 49, 0x7B, 98, 10]] = .ok e ∧
      e.performAll [.line FileTree.storage .empty ['s', '/', '-', '/', '\\', 'n', '/']] = .ok e' ∧
      e.window.tokens e.pool = .ok [[0x80, 49, 0x7B]] ∧
      ∀ s ∈ e'.table.sessions, ∀ w ∈ s.windows, w.id = e.window.id →
        w.tokens e'.pool = .ok [[0x80, 49, 0x7B]] := by
  have hcalls : ∀ c ∈ [Call.line FileTree.storage .empty ['s', '/', '-', '/', '\\', 'n', '/']],
      c.brings = false := by simp [Call.brings]
  obtain ⟨e, hstart, -⟩ := (steady_new ⟨1, 10, 100⟩).performAll
    [.pushWindow { WindowFlags.none with browsing := true },
      .insertBulk 0 [97, 45, 0x80, 49, 0x7B, 98, 10]]
  have hvalues : ((Engine.new ⟨1, 10, 100⟩).performAll
      [.pushWindow { WindowFlags.none with browsing := true },
        .insertBulk 0 [97, 45, 0x80, 49, 0x7B, 98, 10]]).map (fun e =>
          (e.window.mode, e.session.undo.holds e.window.id, (e.window.tokens e.pool).toOption)) =
      .ok (.browse, false, some [[0x80, 49, 0x7B]]) := by decide +kernel
  rw [hstart] at hvalues
  obtain ⟨hmode, hrest⟩ := Prod.mk.inj (Except.ok.inj hvalues)
  obtain ⟨hundo, htexts⟩ := Prod.mk.inj hrest
  obtain ⟨tokens, e', htokens, hrun, hkeep⟩ :=
    Reachable.pages_keep_tokens ((Reachable.new _).performAll hstart) hmode hundo hcalls
  rw [htokens] at htexts
  cases htexts
  exact ⟨e, e', hstart, hrun, htokens, hkeep⟩

end

end Engine

end LineEditor
