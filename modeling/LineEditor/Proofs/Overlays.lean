import LineEditor.Proofs.Endings
import LineEditor.Proofs.Frames
import LineEditor.Proofs.FreshCaptures
import LineEditor.Proofs.Recorded

/-!
# What rewriting lines does not look at

Marks, the note that a window was changed and the texts it remembers lie over a window like a sheet
that can be lifted: whether it is put on before lines are rewritten or afterwards makes no difference.
Nor does it make a difference where dot was, or whether lines are rewritten all at once or one after
the other.
-/

namespace LineEditor

namespace Window

/-- A change of windows that can be made before lines are rewritten as well as afterwards. -/
structure Overlay (f : Window → Window) : Prop where
  dol_eq : ∀ w, (f w).dol = w.dol
  dropped_eq : ∀ w start remove, (f w).dropped start remove = w.dropped start remove
  labels_eq : ∀ w, (f w).labels = w.labels
  splice_eq : ∀ w start remove handles, (f w).splice start remove (LineMap.ofHandles handles) =
    f (w.splice start remove (LineMap.ofHandles handles))
  setDot_eq : ∀ w n, (f w).setDot n = f (w.setDot n)
  setLabels_eq : ∀ (w : Window) labels, { f w with labels := labels } = f { w with labels := labels }

theorem overlay_clearMarks : Overlay clearMarks where
  dol_eq w := List.length_map _
  dropped_eq w start remove := by
    unfold dropped clearMarks LineMap.clearMarks LineMap.removed
    rw [← List.map_drop, ← List.map_take, List.map_map]
    rfl
  labels_eq _ := rfl
  splice_eq w start remove handles := by
    have hnew : LineMap.clearMarks (LineMap.ofHandles handles) = LineMap.ofHandles handles := by
      unfold LineMap.clearMarks LineMap.ofHandles
      rw [List.map_map]
      rfl
    have hlines : (w.lines.clearMarks).splice start remove (LineMap.ofHandles handles) =
        (w.lines.splice start remove (LineMap.ofHandles handles)).clearMarks := by
      conv_lhs => rw [← hnew]
      exact (Sequence.map_splice Entry.unmark w.lines start remove _).symm
    have hempty (m : LineMap) : m.clearMarks.isEmpty = m.isEmpty := by cases m <;> rfl
    have hlength (m : LineMap) : m.clearMarks.length = m.length := List.length_map _
    unfold splice clearMarks
    simp only [hlines, hempty, hlength, dol]
    rfl
  setDot_eq _ _ := rfl
  setLabels_eq _ _ := rfl

theorem overlay_markChanged : Overlay markChanged :=
  ⟨fun _ => rfl, fun _ _ _ => rfl, fun _ => rfl, fun _ _ _ _ => rfl, fun _ _ => rfl, fun _ _ => rfl⟩

/-- The texts of a search and of a replacement are remembered. -/
def remember (source template : List Char) (w : Window) : Window :=
  { w with lastSearch := some source, lastReplacement := some template }

theorem overlay_remember (source template : List Char) : Overlay (remember source template) :=
  ⟨fun _ => rfl, fun _ _ _ => rfl, fun _ => rfl, fun _ _ _ _ => rfl, fun _ _ => rfl, fun _ _ => rfl⟩

theorem Overlay.comp {f g : Window → Window} (hf : Overlay f) (hg : Overlay g) : Overlay (f ∘ g) where
  dol_eq w := (hf.dol_eq _).trans (hg.dol_eq w)
  dropped_eq w start remove := (hf.dropped_eq _ _ _).trans (hg.dropped_eq w _ _)
  labels_eq w := (hf.labels_eq _).trans (hg.labels_eq w)
  splice_eq w start remove handles := by
    rw [Function.comp_apply, hf.splice_eq, hg.splice_eq]
    rfl
  setDot_eq w n := by
    rw [Function.comp_apply, hf.setDot_eq, hg.setDot_eq]
    rfl
  setLabels_eq w labels := by
    rw [Function.comp_apply, hf.setLabels_eq, hg.setLabels_eq]
    rfl

section
variable {w w' : Window} {p p' : Pool} {n : Nat} {lines : List Bytes}

/-- What a line becomes that is rewritten: dot is set anew, whatever it was. -/
theorem reviseLine_ok_iff (hne : lines ≠ []) : w.reviseLine p n lines = .ok (w', p') ↔
    1 ≤ n ∧ n ≤ w.dol ∧ ∃ count, (p.append lines).2.releaseAll (w.dropped (n - 1) 1) = .ok (p', count) ∧
      w' = { (w.splice (n - 1) 1 (LineMap.ofHandles (p.append lines).1)).setDot
          (n - 1 + lines.length) with
        labels := (w.splice (n - 1) 1 (LineMap.ofHandles (p.append lines).1)).labels.hold w.labels n } := by
  have hempty : lines.isEmpty = false := by simpa using hne
  have hone : n - n + 1 = 1 := by omega
  unfold reviseLine replaceLines
  simp only [exchange_eq]
  rw [hempty, hone]
  constructor
  · intro h
    obtain ⟨⟨w₁, p₁⟩, hrep, heq⟩ := bind_eq_ok.mp h
    obtain ⟨hin, hrep⟩ := guarded_eq_ok hrep
    obtain ⟨⟨w₂, p₂, count⟩, hex, hset⟩ := bind_eq_ok.mp hrep
    obtain ⟨hout, hex⟩ := guarded_eq_ok hex
    obtain ⟨⟨p₃, count⟩, hrelease, hsplice⟩ := bind_eq_ok.mp hex
    simp only [Bool.or_eq_true, decide_eq_true_eq] at hin
    cases hsplice
    cases hset
    cases heq
    exact ⟨by omega, by omega, _, hrelease, rfl⟩
  · rintro ⟨h₁, hn, count, hrelease, rfl⟩
    have hin : ¬(decide (n = 0) || decide (n < n)) = true := by
      simp only [Bool.or_eq_true, decide_eq_true_eq]
      omega
    have hout : ¬w.dol < n - 1 + 1 := by omega
    simp only [Bool.false_eq_true, if_false, if_neg hin, if_neg hout]
    show (((p.append lines).2.releaseAll (w.dropped (n - 1) 1) >>= _) >>= _) >>= _ = _
    rw [hrelease]
    rfl

/-- Where dot was makes no difference. -/
theorem reviseLine_setDot (hne : lines ≠ []) (dot : Nat)
    (h : w.reviseLine p n lines = .ok (w', p')) :
    (w.setDot dot).reviseLine p n lines = .ok (w', p') := by
  obtain ⟨h₁, hn, count, hrelease, rfl⟩ := (reviseLine_ok_iff hne).mp h
  exact (reviseLine_ok_iff hne).mpr ⟨h₁, hn, count, hrelease, rfl⟩

theorem Overlay.reviseLine {f : Window → Window} (hf : Overlay f) (hne : lines ≠ [])
    (h : w.reviseLine p n lines = .ok (w', p')) : (f w).reviseLine p n lines = .ok (f w', p') := by
  obtain ⟨h₁, hn, count, hrelease, rfl⟩ := (reviseLine_ok_iff hne).mp h
  refine (reviseLine_ok_iff hne).mpr ⟨h₁, by rwa [hf.dol_eq], count, by rwa [hf.dropped_eq], ?_⟩
  rw [hf.splice_eq, hf.setDot_eq, hf.labels_eq, hf.labels_eq, hf.setLabels_eq]

/-- One line after the other is rewritten as if each were the only one. -/
theorem reviseLines_cons_of_single {rest : List (Nat × List Bytes)} {shift : Nat} {r : Window × Pool}
    (h : w.reviseLines p shift [(n, lines)] = .ok (w', p'))
    (hrest : w'.reviseLines p' (shift + (lines.length - 1)) rest = .ok r) :
    w.reviseLines p shift ((n, lines) :: rest) = .ok r := by
  obtain ⟨w₁, p₁, hrevise, hpos, hdol, hsingle⟩ := reviseLines_cons_iff.mp h
  cases hsingle
  exact reviseLines_cons_iff.mpr ⟨w₁, p', hrevise, hpos, hdol, hrest⟩

/-- Numbers that are counted from further down need a smaller shift. -/
theorem reviseLines_map_add (changes : List (Nat × List Bytes)) {w : Window} {p : Pool} {shift : Nat}
    (more : Nat) {r : Window × Pool} : w.reviseLines p (shift + more) changes = .ok r ↔
      w.reviseLines p shift (changes.map fun c => (c.1 + more, c.2)) = .ok r := by
  induction changes generalizing w p shift with
  | nil => rfl
  | cons change rest ih =>
    obtain ⟨n, lines⟩ := change
    rw [List.map_cons, reviseLines_cons_iff, reviseLines_cons_iff]
    have hplace : n + (shift + more) = n + more + shift := by omega
    have hshift : shift + more + (lines.length - 1) = shift + (lines.length - 1) + more := by omega
    simp only [hplace, hshift, ih]

theorem reviseLines_setDot (hne : lines ≠ []) (dot : Nat) {rest : List (Nat × List Bytes)}
    {shift : Nat} {r : Window × Pool} (h : w.reviseLines p shift ((n, lines) :: rest) = .ok r) :
    (w.setDot dot).reviseLines p shift ((n, lines) :: rest) = .ok r := by
  obtain ⟨w₁, p₁, hrevise, hfit⟩ := reviseLines_cons_iff.mp h
  exact reviseLines_cons_iff.mpr ⟨w₁, p₁, reviseLine_setDot hne dot hrevise, hfit⟩

/-- No more of a window is rewritten than its lines, what is on them and how they end. -/
theorem reviseLines_frame (changes : List (Nat × List Bytes)) {w w' : Window} {p p' : Pool}
    {shift : Nat} (h : w.reviseLines p shift changes = .ok (w', p')) :
    ∃ dot lines labels last, w' = { w with
      dot := dot
      lines := lines
      labels := labels
      flags.noFinalNewline := last } := by
  induction changes generalizing w p shift with
  | nil =>
    cases h
    exact ⟨_, _, _, _, rfl⟩
  | cons change rest ih =>
    obtain ⟨n, lines⟩ := change
    obtain ⟨w₁, p₁, hrevise, hpos, -, hrest⟩ := reviseLines_cons_iff.mp h
    obtain ⟨-, -, count, -, rfl⟩ := (reviseLine_ok_iff (List.ne_nil_of_length_pos hpos)).mp hrevise
    obtain ⟨dot, lines, labels, last, rfl⟩ := ih hrest
    exact ⟨dot, lines, labels, last, rfl⟩

theorem Overlay.reviseLines {f : Window → Window} (hf : Overlay f)
    (changes : List (Nat × List Bytes)) {w w' : Window} {p p' : Pool} {shift : Nat}
    (h : w.reviseLines p shift changes = .ok (w', p')) :
    (f w).reviseLines p shift changes = .ok (f w', p') := by
  induction changes generalizing w p shift with
  | nil =>
    cases h
    rfl
  | cons change rest ih =>
    obtain ⟨n, lines⟩ := change
    obtain ⟨w₁, p₁, hrevise, hpos, hdol, hrest⟩ := reviseLines_cons_iff.mp h
    refine reviseLines_cons_iff.mpr ⟨f w₁, p₁, hf.reviseLine (List.ne_nil_of_length_pos hpos) hrevise,
      hpos, by rwa [hf.dol_eq], ?_⟩
    rw [hf.setDot_eq]
    exact ih hrest

end

end Window

/-! ## Recording -/

section
variable {u u' : UndoSlot} {w w' w₁ : Window} {p p' : Pool}

/-- What is recorded of a window is which lines it shows, and where dot and the labels are. -/
theorem UndoSlot.capture_same (h : u.capture w p = .ok (u', w₁, p')) (hid : w'.id = w.id)
    (hdot : w'.dot = w.dot) (hlabels : w'.labels = w.labels) (hflags : w'.flags = w.flags)
    (hlines : w'.lines.clearMarks = w.lines.clearMarks) :
    u.capture w' p = .ok (u', { w' with flags.hasUndo := true }, p') := by
  have hhandles : w'.lines.handles = w.lines.handles := by
    rw [← Engine.handles_clearMarks, hlines, Engine.handles_clearMarks]
  have hrecord (lines : LineMap) : recordOf w' lines = recordOf w lines := by
    unfold recordOf
    rw [hid, hdot, hlabels, hflags]
  have hstands (r : UndoRecord) : u.Stands w' r ↔ u.Stands w r := by
    unfold Stands LineMap.sameLines
    rw [hid, hhandles]
  by_cases hr : ∃ r, u.Stands w r
  · obtain ⟨r, hr⟩ := hr
    rw [capture_of_stands hr] at h
    cases h
    rw [capture_of_stands ((hstands r).mpr hr), hrecord]
  · have hnone (r : UndoRecord) : ¬u.Stands w r := not_exists.mp hr r
    rw [capture_of_not_stands hnone] at h
    have hshare : w'.lines.share p = w.lines.share p := by
      unfold LineMap.share
      rw [hlines, hhandles]
    obtain ⟨⟨lines, q⟩, hs, h⟩ := bind_eq_ok.mp h
    obtain ⟨q', hq, h⟩ := bind_eq_ok.mp h
    cases h
    rw [capture_of_not_stands fun r => mt (hstands r).mp (hnone r),
      captureAnew_of_share (hshare.trans hs) hq, hrecord]

end

/-- Whatever marks are set in the current window and whatever is remembered of it, the record of it
is `undo`, made with the pool `p`. -/
def Engine.RecordedAs (e : Engine) (undo : UndoSlot) (p : Pool) : Prop :=
  ∀ w : Window, w.id = e.window.id → w.dot = e.window.dot → w.labels = e.window.labels →
    w.flags = e.window.flags → w.lines.clearMarks = e.window.lines.clearMarks →
      Ends EditM.snapshot (e.setWindow w) (.sure fun _ s =>
        s = (e.recorded undo p).setWindow { w with flags.hasUndo := true })

theorem Engine.Sound.recordedAs {e : Engine} (h : e.Sound) : ∃ undo p,
    undo.record = some (UndoSlot.recordOf e.window e.window.lines.clearMarks) ∧
      e.RecordedAs undo p := by
  obtain ⟨⟨undo, w₁, p⟩, hcapture, hcaptured⟩ :=
    UndoSlot.capture_captured (fun r hr => (h.record r hr).unmarked) h.accounts
  refine ⟨undo, p, hcaptured.record_eq, fun w hid hdot hlabels hflags hlines => ?_⟩
  have hsame : (e.setWindow w).session.undo.capture (e.setWindow w).window (e.setWindow w).pool =
      .ok (undo, { w with flags.hasUndo := true }, p) :=
    UndoSlot.capture_same hcapture hid hdot hlabels hflags hlines
  unfold EditM.snapshot
  rw [ends_get_bind, ends_bind, ends_lift, hsame, Succeeds.ok_iff, Post.after_ok, ends_set]
  rfl

end LineEditor
