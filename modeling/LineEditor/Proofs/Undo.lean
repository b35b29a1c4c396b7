import LineEditor.Proofs.Edit

/-!
# The undo record

Whether a record takes over the lines of its predecessor or shares those of the window, it comes out
as the window is, without the marks: handles that are the same stand for the same lines, for the
pool accounts for both maps.
-/

namespace LineEditor

theorem LineMap.eq_clearMarks {k l : LineMap} (hk : k.Unmarked)
    (h : k.map Entry.content = l.map Entry.content) : k = l.clearMarks := by
  have hself : k.clearMarks = (k.map Entry.content).map fun c => ⟨c.1, false, c.2⟩ := by
    rw [List.map_map]
    rfl
  have hother : l.clearMarks = (l.map Entry.content).map fun c => ⟨c.1, false, c.2⟩ := by
    rw [List.map_map]
    rfl
  rw [hother, ← h, ← hself, hk.clearMarks_eq]

theorem LineMap.content_clearMarks (m : LineMap) :
    m.clearMarks.map Entry.content = m.map Entry.content := by
  rw [clearMarks, List.map_map]
  rfl

namespace UndoSlot

/-- What the record holds. -/
def contents (u : UndoSlot) : Multiset (Handle × Option Suffix) :=
  match u.record with
  | some r => r.lines.contents
  | none => 0

theorem contents_of_some {u : UndoSlot} {r : UndoRecord} (h : u.record = some r) :
    u.contents = r.lines.contents := by
  simp [contents, h]

theorem contents_of_none {u : UndoSlot} (h : u.record = none) : u.contents = 0 := by
  simp [contents, h]

section
variable {u : UndoSlot} {w : Window} {p : Pool} {m : Multiset (Handle × Option Suffix)}

theorem releaseRecord_accounts (ha : p.Accounts (u.contents + m)) :
    Succeeds (releaseRecord u.record p) fun q => q.Accounts m ∧ p.Keeps q (m.map Prod.fst) := by
  cases hr : u.record with
  | none =>
    rw [contents_of_none hr, zero_add] at ha
    exact Succeeds.pure_iff.mpr ⟨ha, .refl _ _⟩
  | some r =>
    rw [contents_of_some hr] at ha
    unfold releaseRecord LineMap.release
    simp only [Succeeds.bind_iff, Succeeds.pure_iff]
    exact ha.drop

/-- A record that could be kept holds what the one would that could be made. -/
theorem content_eq_of_sameLines (ha : p.Accounts (w.lines.contents + (u.contents + m)))
    {r : UndoRecord} (hr : u.record = some r) (hs : r.lines.sameLines w.lines) :
    r.lines.map Entry.content = w.lines.map Entry.content := by
  rw [contents_of_some hr] at ha
  refine ha.content_eq ?_ ?_ (by simpa [LineMap.sameLines] using hs)
  · exact fun c hc => Multiset.mem_add.mpr (.inr (Multiset.mem_add.mpr (.inl hc)))
  · exact fun c hc => Multiset.mem_add.mpr (.inl hc)

/-- What recording window `w` over the pool `p` comes to while others than window and record hold
`m`: the new record is the window as it is, whatever was recorded before. -/
structure Captured (w : Window) (p : Pool) (m : Multiset (Handle × Option Suffix)) (u' : UndoSlot)
    (w' : Window) (p' : Pool) : Prop where
  record_eq : u'.record = some (recordOf w w.lines.clearMarks)
  window_eq : w' = { w with flags.hasUndo := true }
  accounts : p'.Accounts (w.lines.contents + (u'.contents + m))
  keeps : p.Keeps p' ((w.lines.contents + m).map Prod.fst)

theorem capture_shared (ha : p.Accounts (w.lines.contents + (u.contents + m))) :
    Succeeds (do
      let (lines, p) ← w.lines.share p
      let p ← releaseRecord u.record p
      return ((⟨some (recordOf w lines), u.skipped⟩ : UndoSlot), { w with flags.hasUndo := true }, p))
      fun r => Captured w p m r.1 r.2.1 r.2.2 := by
  simp only [LineMap.share, Succeeds.bind_iff, Succeeds.pure_iff]
  refine (ha.share fun c hc => Multiset.mem_add.mpr (.inl hc)).mono fun q hq => ?_
  have hq' : q.Accounts (u.contents + (w.lines.contents + (w.lines.contents + m))) := by
    refine Eq.mp (congrArg _ ?_) hq.1
    abel
  refine (releaseRecord_accounts hq').mono fun q' hq'' => ⟨rfl, rfl, ?_, ?_⟩
  · simpa [contents, recordOf] using hq''.1
  · have hsub : w.lines.contents + m ⊆ w.lines.contents + (w.lines.contents + m) :=
      fun c hc => Multiset.mem_add.mpr (.inr hc)
    have hkeeps : p.Keeps q ((w.lines.contents + m).map Prod.fst) := fun h _ => hq.2 h
    exact hkeeps.trans (hq''.2.mono (Multiset.map_subset_map hsub))

/-- The record holds what the window holds, whether its lines were kept or shared; unless marked
lines were kept, it is unmarked. -/
theorem capture_recorded (ha : p.Accounts (w.lines.contents + (u.contents + m))) :
    Succeeds (u.capture w p) fun r =>
      ∃ lines, r.1.record = some (recordOf w lines) ∧
        lines.map Entry.content = w.lines.map Entry.content ∧
        ((∀ r, u.record = some r → r.lines.Unmarked) → lines.Unmarked) ∧
        r.2.1 = { w with flags.hasUndo := true } ∧
        r.2.2.Accounts (w.lines.contents + (r.1.contents + m)) ∧
        p.Keeps r.2.2 ((w.lines.contents + m).map Prod.fst) := by
  have hshared := (capture_shared ha).mono fun r hr =>
    show ∃ lines, r.1.record = some (recordOf w lines) ∧
        lines.map Entry.content = w.lines.map Entry.content ∧
        ((∀ r, u.record = some r → r.lines.Unmarked) → lines.Unmarked) ∧
        r.2.1 = { w with flags.hasUndo := true } ∧
        r.2.2.Accounts (w.lines.contents + (r.1.contents + m)) ∧
        p.Keeps r.2.2 ((w.lines.contents + m).map Prod.fst) from
      ⟨w.lines.clearMarks, hr.record_eq, LineMap.content_clearMarks _,
        fun _ => LineMap.unmarked_clearMarks _, hr.window_eq, hr.accounts, hr.keeps⟩
  unfold capture
  cases hr : u.record with
  | none =>
    rw [hr] at hshared
    exact hshared
  | some r =>
    rw [hr] at hshared
    -- a record of the same lines of the same window stays; any other gives way
    by_cases hc : (decide (r.window = w.id) && r.lines.sameLines w.lines) = true
    · simp only [Bool.and_eq_true] at hc
      have hlines := content_eq_of_sameLines ha hr hc.2
      simp only [hc, Bool.and_self, if_true, Succeeds.pure_iff]
      refine ⟨r.lines, rfl, hlines, fun hu => hu r rfl, trivial, ?_, .refl _ _⟩
      rw [contents_of_some hr] at ha
      exact ha
    · simp only [hc]
      exact hshared

theorem capture_captured (hu : ∀ r, u.record = some r → r.lines.Unmarked)
    (ha : p.Accounts (w.lines.contents + (u.contents + m))) :
    Succeeds (u.capture w p) fun r => Captured w p m r.1 r.2.1 r.2.2 := by
  refine (capture_recorded ha).mono ?_
  rintro r ⟨lines, hrec, hcontent, hunmarked, hwindow, hacc, hkeeps⟩
  refine ⟨?_, hwindow, hacc, hkeeps⟩
  rw [hrec, LineMap.eq_clearMarks (hunmarked hu) hcontent]

theorem discard_accounts (ha : p.Accounts (u.contents + m)) :
    Succeeds (u.discard p) fun r =>
      r.1.record = none ∧ r.2.Accounts m ∧ p.Keeps r.2 (m.map Prod.fst) := by
  unfold discard
  simp only [Succeeds.bind_iff, Succeeds.pure_iff, true_and]
  exact releaseRecord_accounts ha

/-- A record that stays is of another window. -/
theorem discardFor_accounts (id : Nat) (ha : p.Accounts (u.contents + m)) :
    Succeeds (u.discardFor id p) fun r =>
      (∀ r', r.1.record = some r' → u.record = some r' ∧ r'.window ≠ id) ∧
        r.2.Accounts (r.1.contents + m) ∧ p.Keeps r.2 ((r.1.contents + m).map Prod.fst) := by
  unfold discardFor
  split
  · refine (discard_accounts ha).mono fun r ⟨hnone, hacc, hkeeps⟩ => ⟨fun r' hr' => ?_, ?_⟩
    · rw [hnone] at hr'
      cases hr'
    · rw [contents_of_none hnone, zero_add]
      exact ⟨hacc, hkeeps⟩
  · rename_i hholds
    refine Succeeds.pure_iff.mpr ⟨fun r' hr' => ⟨hr', fun hid => hholds ?_⟩, ha, .refl _ _⟩
    have hrec : u.record = some r' := hr'
    simp [holds, hrec, hid]

end

end UndoSlot

end LineEditor
