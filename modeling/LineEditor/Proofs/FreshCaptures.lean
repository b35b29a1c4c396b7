import LineEditor.Proofs.Desk
import LineEditor.Proofs.Resemblance

/-!
# Records made anew

A capture that finds the lines of the window recorded already does not copy them. A slot that always
makes its copy, and then gives back what was recorded before, does the same to the pool: the copy
takes the references that the old record gives back, and no slot of the pool is free in between. The
windows and the records are the same too, but for the marks of a record that is taken over.
-/

namespace LineEditor

/-! ## References taken and given back -/

namespace Pool

/-- The pool `q` is `p` with other counts of references, which `f` makes of the old ones. -/
structure Recounted (p q : Pool) (f : Handle → Nat → Nat) : Prop where
  size_eq : q.slots.size = p.slots.size
  free_eq : q.free = p.free
  live_eq : q.live = p.live
  stored?_eq : ∀ k, q.stored? k = (p.stored? k).map fun line => ⟨line.text, f k line.refs⟩

namespace Recounted

variable {p q r : Pool} {f g : Handle → Nat → Nat}

theorem refl (p : Pool) : p.Recounted p fun _ n => n :=
  ⟨rfl, rfl, rfl, fun k => by cases p.stored? k <;> rfl⟩

theorem trans (hf : p.Recounted q f) (hg : q.Recounted r g) :
    p.Recounted r fun k n => g k (f k n) where
  size_eq := hg.size_eq.trans hf.size_eq
  free_eq := hg.free_eq.trans hf.free_eq
  live_eq := hg.live_eq.trans hf.live_eq
  stored?_eq k := by
    rw [hg.stored?_eq, hf.stored?_eq, Option.map_map]
    rfl

theorem congr (h : p.Recounted q f)
    (hfg : ∀ k line, p.stored? k = some line → f k line.refs = g k line.refs) : p.Recounted q g where
  size_eq := h.size_eq
  free_eq := h.free_eq
  live_eq := h.live_eq
  stored?_eq k := by
    rw [h.stored?_eq]
    cases hs : p.stored? k with
    | none => rfl
    | some line => rw [Option.map_some, Option.map_some, hfg k line hs]

/-- With the same counts the pool is the same. -/
theorem eq (h : p.Recounted q fun _ n => n) : q = p := by
  have hslots : q.slots = p.slots := by
    refine Array.ext h.size_eq fun k hq hp => ?_
    have hk := h.stored?_eq k
    unfold stored? at hk
    rw [Array.getElem?_eq_getElem hq, Array.getElem?_eq_getElem hp, Option.join_some,
      Option.join_some] at hk
    rw [hk]
    cases p.slots[k] <;> rfl
  have hfree := h.free_eq
  have hlive := h.live_eq
  cases p
  cases q
  congr

theorem stored (h : p.Recounted q f) {k : Handle} {line : StoredLine} (hs : p.stored? k = some line) :
    q.stored? k = some ⟨line.text, f k line.refs⟩ := by
  rw [h.stored?_eq, hs]
  rfl

end Recounted

variable {p : Pool}

theorem recounted_recount {h : Handle} {line : StoredLine} (hs : p.stored? h = some line) (n : Nat) :
    p.Recounted (p.recount hs n) fun k old => if k = h then n else old where
  size_eq := by simp [recount]
  free_eq := rfl
  live_eq := rfl
  stored?_eq k := by
    rw [stored?_recount]
    by_cases hk : k = h
    · rw [if_pos hk, hk, hs]
      simp
    · simp only [if_neg hk]
      cases p.stored? k <;> rfl

/-- References that are taken are counted, and nothing else changes. -/
theorem retainAll_recounted (hs : List Handle) {p : Pool}
    (hstored : ∀ h ∈ hs, ∃ line, p.stored? h = some line) :
    Succeeds (p.retainAll hs) fun q => p.Recounted q fun k n => n + hs.count k := by
  induction hs generalizing p with
  | nil => exact Succeeds.pure_iff.mpr (.refl p)
  | cons h hs ih =>
    obtain ⟨line, hline⟩ := hstored h (by simp)
    have hq := recounted_recount hline (line.refs + 1)
    rw [retainAll_cons (retain_of_stored hline)]
    refine (ih fun k hk => ?_).mono fun r hr => (hq.trans hr).congr fun k old hk => ?_
    · obtain ⟨old, hold⟩ := hstored k (by simp [hk])
      exact ⟨_, hq.stored hold⟩
    · by_cases heq : k = h
      · subst heq
        obtain rfl : line = old := Option.some.inj (hline.symm.trans hk)
        simp
        omega
      · simp [heq, Ne.symm heq]

/-- References that are given back are counted, and nothing else changes as long as each line has
one that stays. -/
theorem releaseAll_recounted (hs : List Handle) {p : Pool}
    (hstored : ∀ h ∈ hs, ∃ line, p.stored? h = some line ∧ hs.count h < line.refs) :
    Succeeds (p.releaseAll hs) fun r => p.Recounted r.1 fun k n => n - hs.count k := by
  induction hs generalizing p with
  | nil => exact Succeeds.pure_iff.mpr (.refl p)
  | cons h hs ih =>
    obtain ⟨line, hline, hcount⟩ := hstored h (by simp)
    rw [List.count_cons_self] at hcount
    have hq := recounted_recount hline (line.refs - 1)
    have hrelease : p.release h = .ok (p.recount hline (line.refs - 1), false) := by
      exact release_of_more hline (by omega)
    obtain ⟨⟨r, n⟩, hr, hrq⟩ := ih (p := p.recount hline (line.refs - 1)) fun k hk => by
      obtain ⟨old, hold, hlt⟩ := hstored k (by simp [hk])
      refine ⟨_, hq.stored hold, ?_⟩
      by_cases heq : k = h
      · subst heq
        simp
        omega
      · simpa [heq, List.count_cons, Ne.symm heq] using hlt
    refine ⟨_, releaseAll_cons hrelease hr, (hq.trans hrq).congr fun k old hk => ?_⟩
    by_cases heq : k = h
    · subst heq
      obtain rfl : line = old := Option.some.inj (hline.symm.trans hk)
      simp
      omega
    · simp [heq, Ne.symm heq]

/-- A pool that takes a reference to each of some lines it holds and gives them back is as it was. -/
theorem Balanced.retainAll_releaseAll {m : Multiset Handle} (hb : p.Balanced m) {hs : List Handle}
    (hm : ∀ h ∈ hs, h ∈ m) :
    Succeeds (p.retainAll hs) fun q => Succeeds (q.releaseAll hs) fun r => r.1 = p := by
  refine (retainAll_recounted hs fun h hh => (hb.mem_iff h).mp (hm h hh)).mono fun q hq => ?_
  refine (releaseAll_recounted hs fun h hh => ?_).mono fun r hr => ?_
  · obtain ⟨line, hline⟩ := (hb.mem_iff h).mp (hm h hh)
    have hpos := hb.refs_pos h line hline
    refine ⟨_, hq.stored hline, ?_⟩
    dsimp only
    omega
  · refine ((hq.trans hr).congr fun k line _ => ?_).eq
    exact Nat.add_sub_cancel _ _

end Pool

/-! ## One capture -/

namespace UndoSlot

/-- Records how a window looks over a copy of its lines, whatever is recorded already. -/
def captureAnew (u : UndoSlot) (w : Window) (p : Pool) :
    Except Breach (UndoSlot × Window × Pool) := do
  let (lines, p) ← w.lines.share p
  let p ← releaseRecord u.record p
  return (⟨some (recordOf w lines), u.skipped⟩, { w with flags.hasUndo := true }, p)

section
variable {u : UndoSlot} {w : Window} {p : Pool} {m : Multiset (Handle × Option Suffix)}

/-- What is recorded already has the lines of the window, so that a capture makes no copy. -/
def Stands (u : UndoSlot) (w : Window) (r : UndoRecord) : Prop :=
  u.record = some r ∧ r.window = w.id ∧ r.lines.sameLines w.lines = true

/-- A record that stands has no marks. -/
def TakesNoMarks (u : UndoSlot) (w : Window) : Prop := ∀ r, u.Stands w r → r.lines.Unmarked

theorem capture_of_stands {r : UndoRecord} (h : u.Stands w r) : u.capture w p =
    .ok (⟨some (recordOf w r.lines), u.skipped + 1⟩, { w with flags.hasUndo := true }, p) := by
  obtain ⟨hr, hid, hsame⟩ := h
  simp only [capture, hr, hid, hsame]
  rfl

theorem capture_of_not_stands (h : ∀ r, ¬u.Stands w r) : u.capture w p = u.captureAnew w p := by
  unfold capture captureAnew
  cases hr : u.record with
  | none => rfl
  | some r =>
    have hc : (decide (r.window = w.id) && r.lines.sameLines w.lines) = false := by
      by_contra hc
      simp only [Bool.not_eq_false, Bool.and_eq_true, decide_eq_true_eq] at hc
      exact h r ⟨hr, hc⟩
    simp only [hc]
    rfl

theorem captureAnew_of_share {lines : LineMap} {q q' : Pool} (hshare : w.lines.share p = .ok (lines, q))
    (hrelease : releaseRecord u.record q = .ok q') : u.captureAnew w p =
      .ok (⟨some (recordOf w lines), u.skipped⟩, { w with flags.hasUndo := true }, q') :=
  bind_eq_ok.mpr ⟨_, hshare, bind_eq_ok.mpr ⟨_, hrelease, rfl⟩⟩

/-- The copy takes the references that a standing record gives back. -/
theorem captureAnew_of_stands (ha : p.Accounts (w.lines.contents + (u.contents + m)))
    {r : UndoRecord} (h : u.Stands w r) : u.captureAnew w p =
      .ok (⟨some (recordOf w w.lines.clearMarks), u.skipped⟩, { w with flags.hasUndo := true }, p) := by
  obtain ⟨hr, hid, hsame⟩ := h
  have hhandles : r.lines.handles = w.lines.handles := by simpa [LineMap.sameLines] using hsame
  have hmem : ∀ h ∈ w.lines.handles, h ∈ (w.lines.contents + (u.contents + m)).map Prod.fst := by
    intro h hh
    rw [Multiset.map_add, LineMap.map_fst_contents]
    exact Multiset.mem_add.mpr (.inl hh)
  obtain ⟨q, hq, ⟨p', n⟩, hback, rfl⟩ := ha.balanced.retainAll_releaseAll hmem
  refine captureAnew_of_share (bind_eq_ok.mpr ⟨_, hq, rfl⟩) ?_
  rw [hr]
  rw [← hhandles] at hback
  exact bind_eq_ok.mpr ⟨_, hback, rfl⟩

/-- The same record and window over the same pool come of both ways to capture, but for the marks of
a record that stands. -/
theorem capture_anew (ha : p.Accounts (w.lines.contents + (u.contents + m))) :
    ∃ lines skipped q,
      u.capture w p =
        .ok (⟨some (recordOf w lines), skipped⟩, { w with flags.hasUndo := true }, q) ∧
      u.captureAnew w p = .ok (⟨some (recordOf w w.lines.clearMarks), u.skipped⟩,
        { w with flags.hasUndo := true }, q) ∧
      lines.clearMarks = w.lines.clearMarks ∧
      (lines = w.lines.clearMarks ↔ u.TakesNoMarks w) := by
  by_cases h : ∃ r, u.Stands w r
  · obtain ⟨r, hr⟩ := h
    have hcontent := content_eq_of_sameLines ha hr.1 hr.2.2
    have hclear : r.lines.clearMarks = w.lines.clearMarks :=
      LineMap.eq_clearMarks (LineMap.unmarked_clearMarks _)
        ((LineMap.content_clearMarks _).trans hcontent)
    refine ⟨_, _, _, capture_of_stands hr, captureAnew_of_stands ha hr, hclear, ?_⟩
    constructor
    · rintro hlines r' hr'
      obtain rfl : r = r' := Option.some.inj (hr.1.symm.trans hr'.1)
      exact hlines ▸ LineMap.unmarked_clearMarks _
    · exact fun hunmarked => LineMap.eq_clearMarks (hunmarked r hr) hcontent
  · have hnone (r : UndoRecord) : ¬u.Stands w r := not_exists.mp h r
    obtain ⟨q, hq, hacc⟩ := ha.share fun c hc => Multiset.mem_add.mpr (.inl hc)
    have hacc' : q.Accounts (u.contents + (w.lines.contents + (w.lines.contents + m))) := by
      refine Eq.mp (congrArg _ ?_) hacc.1
      abel
    obtain ⟨q', hq', -⟩ := releaseRecord_accounts hacc'
    have hanew := captureAnew_of_share (bind_eq_ok.mpr ⟨_, hq, rfl⟩) hq'
    refine ⟨_, _, _, (capture_of_not_stands hnone).trans hanew, hanew,
      (LineMap.unmarked_clearMarks _).clearMarks_eq, ?_⟩
    simp only [true_iff]
    exact fun r hr => (hnone r hr).elim

end

end UndoSlot

/-! ## Desks side by side -/

/-- What is done to a window apart from its lines. -/
inductive Adjustment where
  | dot (n : Nat)
  | label (name : Char) (n : Nat)
  | flags (new : WindowFlags)
  | notes (fileName lastSearch lastReplacement : Option (List Char))
  deriving Repr, DecidableEq

def Adjustment.apply (w : Window) : Adjustment → Window
  | dot n => w.setDot n
  | label name n => (w.setLabel name n).getD w
  | flags new => { w with flags := new }
  | notes fileName lastSearch lastReplacement => { w with fileName, lastSearch, lastReplacement }

theorem Adjustment.apply_same (w : Window) (change : Adjustment) :
    (change.apply w).id = w.id ∧ (change.apply w).lines = w.lines := by
  cases change with
  | label name n =>
    by_cases hc : (n ≤ w.dol && Labels.isName name) = true
    · simp [apply, Window.setLabel, hc]
    · simp [apply, Window.setLabel, hc]
  | dot | flags | notes => exact ⟨rfl, rfl⟩

/-- What is done at a desk, be it to lines or not. -/
inductive Step where
  | act (a : Act)
  | adjust (k : Nat) (change : Adjustment)
  deriving Repr, DecidableEq

/-- A way to record how a window looks. -/
abbrev Capture := UndoSlot → Window → Pool → Except Breach (UndoSlot × Window × Pool)

namespace Desk

/-- One step at a desk where windows are recorded by `take`. -/
def step (take : Capture) (d : Desk) : Step → Except Breach Desk
  | .act (.capture k) => do
    let (u, w, p) ← take d.undo (← d.window k) d.pool
    return ⟨p, d.windows.set k w, u⟩
  | .act a => d.apply a
  | .adjust k change => d.work k fun w p => return (change.apply w, p)

def runSteps (take : Capture) (d : Desk) : List Step → Except Breach Desk
  | [] => return d
  | s :: rest => do (← d.step take s).runSteps take rest

theorem step_act (d : Desk) (a : Act) : d.step UndoSlot.capture (.act a) = d.apply a := by
  cases a <;> rfl

end Desk

/-- The step is in range. -/
def Step.Fits (s : Sheet) : Step → Prop
  | .act a => a.Fits s
  | .adjust k _ => k < s.windows.length

instance (s : Sheet) : (a : Step) → Decidable (a.Fits s)
  | .act a => inferInstanceAs (Decidable (a.Fits s))
  | .adjust k _ => inferInstanceAs (Decidable (k < s.windows.length))

namespace Sheet

def step (s : Sheet) : Step → Sheet
  | .act a => s.apply a
  | .adjust _ _ => s

/-- Each step of the list is in range when its turn comes. -/
def FitsSteps (s : Sheet) : List Step → Prop
  | [] => True
  | a :: rest => a.Fits s ∧ (s.step a).FitsSteps rest

instance decidableFitsSteps : (s : Sheet) → (steps : List Step) → Decidable (s.FitsSteps steps)
  | _, [] => inferInstanceAs (Decidable True)
  | s, a :: rest =>
    have := decidableFitsSteps (s.step a) rest
    inferInstanceAs (Decidable (a.Fits s ∧ (s.step a).FitsSteps rest))

theorem FitsSteps.take {s : Sheet} {steps : List Step} (h : s.FitsSteps steps) (n : Nat) :
    s.FitsSteps (steps.take n) := by
  induction steps generalizing s n with
  | nil => simpa using h
  | cons a rest ih =>
    cases n with
    | zero => trivial
    | succ n => exact ⟨h.1, ih h.2 n⟩

end Sheet

namespace UndoRecord

def seen (marks : Bool) (r : UndoRecord) : UndoRecord := { r with lines := r.lines.seen marks }

def clearMarks (r : UndoRecord) : UndoRecord := { r with lines := r.lines.clearMarks }

end UndoRecord

section
variable {marks : Bool} {w w' : Window}

theorem Window.Resembles.recordOf (h : w.Resembles marks w') {lines lines' : LineMap}
    (hl : lines.seen marks = lines'.seen marks) :
    (UndoSlot.recordOf w lines).seen marks = (UndoSlot.recordOf w' lines').seen marks := by
  unfold UndoSlot.recordOf UndoRecord.seen
  rw [h.id_eq, h.dot_eq, h.labels_eq, h.flags_eq, hl]

/-- Windows that look alike do so with records in their place that look alike. -/
theorem Window.Resembles.swap (h : w.Resembles marks w') {r r' : UndoRecord}
    (hr : r.seen marks = r'.seen marks) :
    Window.Resembles marks
      { w with
        dot := r.dot
        labels := r.labels
        lines := r.lines
        flags.noFinalNewline := r.noFinalNewline }
      { w' with
        dot := r'.dot
        labels := r'.labels
        lines := r'.lines
        flags.noFinalNewline := r'.noFinalNewline } := by
  obtain ⟨-, hdot, hlabels, hlines, hlast⟩ := UndoRecord.mk.inj hr
  obtain ⟨hid, -, -, -, hflags, hname, hsearch, hreplacement⟩ := Window.mk.inj h.seen_eq
  unfold Window.Resembles Window.seen
  dsimp only
  rw [hid, hdot, hlabels, hlines, hlast, hflags, hname, hsearch, hreplacement]

theorem Window.Resembles.adjust (h : w.Resembles marks w') (change : Adjustment) :
    (change.apply w).Resembles marks (change.apply w') := by
  refine h.congr (f := fun v => change.apply v) fun v => ?_
  cases change with
  | dot n => rfl
  | label name n =>
    have hdol : (v.seen marks).dol = v.dol := LineMap.length_seen _
    unfold Adjustment.apply Window.setLabel
    dsimp only
    rw [hdol]
    split <;> rfl
  | flags new => rfl
  | notes fileName lastSearch lastReplacement => rfl

end

namespace Desk

/-- The desks have the same pool, and their windows and records look alike. -/
structure Resembles (marks : Bool) (d d' : Desk) : Prop where
  pool_eq : d.pool = d'.pool
  windows_eq : d.windows.map (Window.seen marks) = d'.windows.map (Window.seen marks)
  record_eq : d.undo.record.map (UndoRecord.seen marks) = d'.undo.record.map (UndoRecord.seen marks)

section
variable {marks : Bool} {d d' : Desk}

theorem Resembles.window (h : d.Resembles marks d') (k : Nat) :
    Mirrors (Window.Resembles marks) (d.window k) (d'.window k) := by
  intro w hw
  unfold Desk.window at hw ⊢
  have hk := congrArg (fun l : List Window => l[k]?) h.windows_eq
  simp only [List.getElem?_map] at hk
  cases hd : d.windows[k]? with
  | none => simp [hd] at hw
  | some v =>
    simp only [hd] at hw
    obtain rfl : v = w := Except.ok.inj hw
    rw [hd, Option.map_some] at hk
    obtain ⟨w', hw', hseen⟩ := Option.map_eq_some_iff.mp hk.symm
    exact ⟨w', by rw [hw'], hseen.symm⟩

theorem Resembles.setWindow (h : d.Resembles marks d') {w w' : Window} (hw : w.Resembles marks w')
    (p : Pool) (k : Nat) :
    Resembles marks { d with pool := p, windows := d.windows.set k w }
      { d' with pool := p, windows := d'.windows.set k w' } where
  pool_eq := rfl
  windows_eq := by
    rw [List.map_set, List.map_set, h.windows_eq, hw.seen_eq]
  record_eq := h.record_eq

theorem Resembles.work (h : d.Resembles marks d') (k : Nat)
    {f f' : Window → Pool → Except Breach (Window × Pool)}
    (hf : ∀ w w', w.Resembles marks w' → ∀ p, Mirrors (Window.ResembleOver marks) (f w p) (f' w' p)) :
    Mirrors (Resembles marks) (d.work k f) (d'.work k f') := by
  unfold Desk.work
  rw [← h.pool_eq]
  refine (h.window k).bind fun w w' hw => (hf w w' hw _).bind ?_
  rintro ⟨v, p⟩ ⟨v', p'⟩ ⟨hv, rfl⟩
  exact .pure (h.setWindow hv p k)

theorem Resembles.stock (h : d.Resembles marks d') (piece : Piece) :
    Mirrors (fun r r' => r.1.seen marks = r'.1.seen marks ∧ r.2.Resembles marks r'.2)
      (d.stock piece) (d'.stock piece) := by
  cases piece with
  | new row =>
    unfold Desk.stock
    dsimp only
    rw [h.pool_eq]
    exact .pure ⟨rfl, rfl, h.windows_eq, h.record_eq⟩
  | shared k n marked =>
    refine (h.window k).bind fun w w' hw => ?_
    have hentry := hw.entry?_eq n
    cases hx : w.entry? n with
    | none => exact .throw _ _
    | some x =>
      rw [hx] at hentry
      obtain ⟨x', hx', hseen⟩ := Option.map_eq_some_iff.mp hentry.symm
      obtain ⟨hhandle, -, hsuffix⟩ := Entry.mk.inj hseen
      rw [hx', h.pool_eq]
      dsimp only
      rw [show x'.handle = x.handle from hhandle]
      refine .bind (.refl (fun _ => Eq.refl _) _) ?_
      rintro p _ rfl
      refine .pure ⟨?_, rfl, h.windows_eq, h.record_eq⟩
      simp only [Entry.seen, hsuffix.symm]

theorem Resembles.stockAll (pieces : List Piece) {d d' : Desk} (h : d.Resembles marks d') :
    Mirrors (fun r r' => LineMap.seen marks r.1 = LineMap.seen marks r'.1 ∧ r.2.Resembles marks r'.2)
      (d.stockAll pieces) (d'.stockAll pieces) := by
  induction pieces generalizing d d' with
  | nil => exact .pure ⟨rfl, h⟩
  | cons piece rest ih =>
    unfold Desk.stockAll
    refine (h.stock piece).bind ?_
    rintro ⟨x, e⟩ ⟨x', e'⟩ ⟨hx, he⟩
    refine (ih he).bind ?_
    rintro ⟨xs, e⟩ ⟨xs', e'⟩ ⟨hxs, he⟩
    exact .pure ⟨congrArg₂ List.cons hx hxs, he⟩

theorem Resembles.records (h : d.Resembles marks d') :
    (d.undo.record = none ∧ d'.undo.record = none) ∨ ∃ r r', d.undo.record = some r ∧
      d'.undo.record = some r' ∧ r.seen marks = r'.seen marks := by
  have hrecord := h.record_eq
  cases hr : d.undo.record with
  | none =>
    rw [hr] at hrecord
    exact .inl ⟨rfl, Option.map_eq_none_iff.mp hrecord.symm⟩
  | some r =>
    rw [hr] at hrecord
    obtain ⟨r', hr', hseen⟩ := Option.map_eq_some_iff.mp hrecord.symm
    exact .inr ⟨r, r', rfl, hr', hseen.symm⟩

theorem Resembles.undo (h : d.Resembles marks d') (k : Nat) :
    Mirrors (Resembles marks) (d.apply (.undo k)) (d'.apply (.undo k)) := by
  refine (h.window k).bind fun w w' hw => ?_
  unfold UndoSlot.undo?
  obtain ⟨hr, hr'⟩ | ⟨r, r', hr, hr', hseen⟩ := h.records
  · rw [hr, hr']
    exact .pure h
  · obtain ⟨howner, -⟩ := UndoRecord.mk.inj hseen
    have hid : r.window = w.id ↔ r'.window = w'.id := by
      rw [show r.window = r'.window from howner, hw.id_eq]
    rw [hr, hr']
    dsimp only
    by_cases hheld : r.window = w.id
    · rw [if_pos hheld, if_pos (hid.mp hheld)]
      refine .pure ⟨h.pool_eq, ?_, ?_⟩
      · exact (h.setWindow (hw.swap hseen) d.pool k).windows_eq
      · exact congrArg some (hw.recordOf hw.lines_eq)
    · rw [if_neg hheld, if_neg (mt hid.mpr hheld)]
      exact .pure h

theorem Resembles.releaseRecord (h : d.Resembles marks d') (p : Pool) :
    UndoSlot.releaseRecord d.undo.record p = UndoSlot.releaseRecord d'.undo.record p := by
  obtain ⟨hr, hr'⟩ | ⟨r, r', hr, hr', hseen⟩ := h.records
  · rw [hr, hr']
  · have hhandles := congrArg (fun v : UndoRecord => v.lines.handles) hseen
    simp only [UndoRecord.seen, LineMap.handles_seen] at hhandles
    rw [hr, hr']
    unfold UndoSlot.releaseRecord LineMap.release
    dsimp only
    rw [hhandles]

theorem Resembles.holds_eq (h : d.Resembles marks d') (id : Nat) :
    d.undo.holds id = d'.undo.holds id := by
  obtain ⟨hr, hr'⟩ | ⟨r, r', hr, hr', hseen⟩ := h.records
  · rw [UndoSlot.holds, UndoSlot.holds, hr, hr']
  · obtain ⟨howner, -⟩ := UndoRecord.mk.inj hseen
    rw [UndoSlot.holds, UndoSlot.holds, hr, hr', Option.any_some, Option.any_some,
      show r.window = r'.window from howner]

theorem Resembles.discard (h : d.Resembles marks d') :
    Mirrors (Resembles marks) (d.apply .discard) (d'.apply .discard) := by
  unfold Desk.apply UndoSlot.discard
  rw [h.releaseRecord, h.pool_eq]
  simp only [bind_assoc, pure_bind]
  refine .bind (.refl (fun _ => Eq.refl _) _) ?_
  rintro p _ rfl
  exact .pure ⟨rfl, h.windows_eq, rfl⟩

/-- An act that records nothing does the same at desks that look alike. -/
theorem Resembles.apply (h : d.Resembles marks d') {a : Act} (ha : ∀ k, a ≠ .capture k) :
    Mirrors (Resembles marks) (d.apply a) (d'.apply a) := by
  cases a with
  | openWindow id =>
    refine .pure ⟨h.pool_eq, ?_, h.record_eq⟩
    rw [List.map_append, List.map_append, h.windows_eq]
  | edit k change =>
    unfold Desk.apply
    exact h.work k fun w w' hw p => hw.perform change
  | insertEntries k after entries =>
    unfold Desk.apply
    exact h.work k fun w w' hw p => hw.insertEntries after entries
  | rewrite k n lines =>
    unfold Desk.apply
    exact h.work k fun w w' hw p => hw.reviseLine n lines
  | splice k start remove pieces =>
    unfold Desk.apply
    refine (stockAll pieces h).bind ?_
    rintro ⟨insert, e⟩ ⟨insert', e'⟩ ⟨hi, he⟩
    refine he.work k fun w w' hw p => (hw.exchange start remove hi).bind ?_
    rintro ⟨v, q, n⟩ ⟨v', q', n'⟩ ⟨hv, hq⟩
    obtain ⟨rfl, rfl⟩ := Prod.mk.inj hq
    exact .pure ⟨hv, rfl⟩
  | mark k n on =>
    unfold Desk.apply
    exact h.work k fun w w' hw p => .pure ⟨hw.setMark n on, rfl⟩
  | clearMarks k =>
    unfold Desk.apply
    refine h.work k fun w w' hw p => .pure ⟨?_, rfl⟩
    exact congrArg (Window.seen marks) hw.clearMarks
  | capture k => exact absurd rfl (ha k)
  | undo k => exact h.undo k
  | discard => exact h.discard
  | discardFor id =>
    have hholds := h.holds_eq id
    by_cases hid : d.undo.holds id = true
    · have hdiscard (e : Desk) (he : e.undo.holds id = true) :
          e.apply (.discardFor id) = e.apply .discard := by
        simp only [Desk.apply, UndoSlot.discardFor, he, if_true]
      rw [hdiscard d hid, hdiscard d' (hholds ▸ hid)]
      exact h.discard
    · have hkeep (e : Desk) (he : ¬e.undo.holds id = true) :
          e.apply (.discardFor id) = pure e := by
        simp only [Desk.apply, UndoSlot.discardFor, he]
        rfl
      rw [hkeep d hid, hkeep d' (hholds ▸ hid)]
      exact .pure h
  | closeWindow k =>
    unfold Desk.apply
    refine (h.window k).bind fun w w' hw => ?_
    unfold Window.release LineMap.release
    rw [hw.handles_eq, h.pool_eq]
    refine .bind (.refl (fun _ => Eq.refl _) _) ?_
    rintro r _ rfl
    refine .pure ⟨rfl, ?_, h.record_eq⟩
    dsimp only
    rw [← List.eraseIdx_map, ← List.eraseIdx_map, h.windows_eq]

/-- A record made anew does not depend on what is seen of marks. -/
theorem Resembles.captureAnew (h : d.Resembles marks d') (k : Nat) :
    Mirrors (Resembles marks) (d.step UndoSlot.captureAnew (.act (.capture k)))
      (d'.step UndoSlot.captureAnew (.act (.capture k))) := by
  refine (h.window k).bind fun w w' hw => ?_
  unfold UndoSlot.captureAnew LineMap.share
  rw [hw.handles_eq, hw.clearMarks_eq, h.pool_eq]
  simp only [bind_assoc, pure_bind]
  refine .bind (.refl (fun _ => Eq.refl _) _) ?_
  rintro p _ rfl
  rw [h.releaseRecord]
  refine .bind (.refl (fun _ => Eq.refl _) _) ?_
  rintro q _ rfl
  have hflagged := hw.congr (f := fun v => { v with flags.hasUndo := true }) fun _ => rfl
  exact .pure ⟨rfl, (h.setWindow hflagged d.pool k).windows_eq, congrArg some (hw.recordOf rfl)⟩

end

/-- The step takes no marks along: a capture finds no marked record of the same lines. -/
def TakesNoMarks (d : Desk) : Step → Prop
  | .act (.capture k) => ∀ w, d.windows[k]? = some w → d.undo.TakesNoMarks w
  | _ => True

section
variable {marks : Bool} {d d' : Desk}

theorem step_capture {take : Capture} {k : Nat} {w w' : Window} {u : UndoSlot} {p : Pool}
    (hw : d.windows[k]? = some w) (htake : take d.undo w d.pool = .ok (u, w', p)) :
    d.step take (.act (.capture k)) = .ok ⟨p, d.windows.set k w', u⟩ :=
  bind_eq_ok.mpr ⟨w, window_eq hw, bind_eq_ok.mpr ⟨_, htake, rfl⟩⟩

/-- The two ways to capture lead to desks that look alike, with their marks just if none are taken
along. -/
theorem capture_resembles (hd : d.Sound) {k : Nat} (hk : k < d.windows.length) :
    ∃ e e', d.step UndoSlot.capture (.act (.capture k)) = .ok e ∧
      d.step UndoSlot.captureAnew (.act (.capture k)) = .ok e' ∧ e.Resembles false e' ∧
      (e.Resembles true e' ↔ d.TakesNoMarks (.act (.capture k))) := by
  have hw : d.windows[k]? = some d.windows[k] := List.getElem?_eq_getElem hk
  rw [Sound, contents_split hw, add_comm (d.others k)] at hd
  obtain ⟨lines, skipped, q, hcapture, hanew, hclear, hunmarked⟩ := UndoSlot.capture_anew hd
  have hseen (marks : Bool) (hlines : lines.seen marks = d.windows[k].lines.clearMarks.seen marks) :
      Resembles marks ⟨q, d.windows.set k { d.windows[k] with flags.hasUndo := true },
          ⟨some (UndoSlot.recordOf d.windows[k] lines), skipped⟩⟩
        ⟨q, d.windows.set k { d.windows[k] with flags.hasUndo := true },
          ⟨some (UndoSlot.recordOf d.windows[k] d.windows[k].lines.clearMarks), d.undo.skipped⟩⟩ :=
    ⟨rfl, rfl, congrArg some (Window.Resembles.recordOf (Eq.refl _) hlines)⟩
  refine ⟨_, _, step_capture hw hcapture, step_capture hw hanew, hseen false ?_, ?_⟩
  · rw [LineMap.seen_false, LineMap.seen_clearMarks, hclear]
  · have htakes : d.TakesNoMarks (.act (.capture k)) ↔ d.undo.TakesNoMarks d.windows[k] := by
      constructor
      · exact fun h => h _ hw
      · intro h w hw'
        obtain rfl := Option.some.inj (hw.symm.trans hw')
        exact h
    rw [htakes, ← hunmarked]
    constructor
    · intro h
      have hrecord := Option.some.inj h.record_eq
      have hlines := congrArg UndoRecord.lines hrecord
      simpa [UndoRecord.seen, UndoSlot.recordOf, LineMap.seen_true] using hlines
    · exact fun h => hseen true (congrArg _ h)

theorem lt_of_lt_sheet {k : Nat} (h : k < d.sheet.windows.length) : k < d.windows.length := by
  simpa [sheet] using h

theorem Resembles.symm (h : d.Resembles marks d') : d'.Resembles marks d :=
  ⟨h.pool_eq.symm, h.windows_eq.symm, h.record_eq.symm⟩

theorem Resembles.trans {d'' : Desk} (h : d.Resembles marks d') (h' : d'.Resembles marks d'') :
    d.Resembles marks d'' :=
  ⟨h.pool_eq.trans h'.pool_eq, h.windows_eq.trans h'.windows_eq, h.record_eq.trans h'.record_eq⟩

/-- One step at two desks that look alike, of which one makes its records anew. -/
theorem Resembles.step (h : d.Resembles marks d') (hd : d.Sound) {s : Step} (hs : s.Fits d.sheet)
    (hmarks : marks = true → d.TakesNoMarks s) :
    Mirrors (Resembles marks) (d.step UndoSlot.capture s) (d'.step UndoSlot.captureAnew s) := by
  have hact {a : Act} (ha : ∀ k, a ≠ .capture k) :
      d'.step UndoSlot.captureAnew (.act a) = d'.apply a := by
    cases a <;> first | rfl | exact absurd rfl (ha _)
  cases s with
  | act a =>
    by_cases ha : ∃ k, a = .capture k
    · obtain ⟨k, rfl⟩ := ha
      obtain ⟨e, e', he, he', hfalse, htrue⟩ := capture_resembles hd (lt_of_lt_sheet hs)
      have hee : e.Resembles marks e' := by
        cases hm : marks with
        | false => exact hfalse
        | true => exact htrue.mpr (hmarks hm)
      obtain ⟨e'', he'', hlike⟩ := h.captureAnew k e' he'
      intro x hx
      obtain rfl : e = x := Except.ok.inj (he.symm.trans hx)
      exact ⟨e'', he'', hee.trans hlike⟩
    · rw [step_act, hact (not_exists.mp ha)]
      exact h.apply (not_exists.mp ha)
  | adjust k change =>
    unfold Desk.step
    exact h.work k fun w w' hw p => .pure ⟨hw.adjust change, rfl⟩

/-- What a step shows. -/
theorem step_shows (hd : d.Sound) {s : Step} (hs : s.Fits d.sheet) :
    Succeeds (d.step UndoSlot.capture s) (Becomes d.sheet (d.sheet.step s)) := by
  cases s with
  | act a =>
    rw [step_act]
    exact apply_shows hd hs
  | adjust k change =>
    obtain ⟨w, hw⟩ := exists_window hs
    have hid : (change.apply w).id = w.id := change.apply_same w |>.1
    have hlines : (change.apply w).lines = w.lines := change.apply_same w |>.2
    refine ⟨⟨d.pool, d.windows.set k (change.apply w), d.undo⟩, ?_, .of_eq ?_ ?_⟩
    · exact bind_eq_ok.mpr ⟨w, window_eq hw, rfl⟩
    · rw [Sound, contents_set hw, hlines, ← contents_split hw]
      exact hd
    · have hsame : (d.sheet.work k id).windows = d.sheet.windows := List.modify_id k _
      have hwindows := windows_set hw (f := id) hid (congrArg d.pool.rows hlines) (.refl _ _) d.undo
      exact Sheet.mk.injEq .. |>.mpr ⟨hwindows.trans hsame, rfl⟩

theorem step_unmark (s : Sheet) (a : Step) : (s.step a).unmark = (s.unmark.step a).unmark := by
  cases a with
  | act a => exact s.unmark_apply a
  | adjust k change => simp [Sheet.step, Sheet.unmark]

theorem fits_unmark (s : Sheet) (a : Step) : a.Fits s.unmark ↔ a.Fits s := by
  cases a with
  | act a => exact s.fits_unmark a
  | adjust k change =>
    unfold Step.Fits
    rw [show s.unmark.windows.length = s.windows.length from List.length_map _]

end

/-- No step of the list takes marks along. -/
def NeverTakesMarks (d : Desk) : List Step → Prop
  | [] => True
  | s :: rest => d.TakesNoMarks s ∧ ∀ e, d.step UndoSlot.capture s = .ok e → e.NeverTakesMarks rest

/-- A run step by step at two desks that look alike. -/
theorem runSteps_resembles {marks : Bool} (steps : List Step) {d d' : Desk} {s : Sheet}
    (h : d.Resembles marks d') (hd : d.Sound) (hs : d.sheet.unmark = s.unmark)
    (hfit : s.FitsSteps steps) (hmarks : marks = true → d.NeverTakesMarks steps) :
    ∃ e e', d.runSteps UndoSlot.capture steps = .ok e ∧
      d'.runSteps UndoSlot.captureAnew steps = .ok e' ∧ e.Resembles marks e' := by
  induction steps generalizing d d' s with
  | nil => exact ⟨d, d', rfl, rfl, h⟩
  | cons a rest ih =>
    have hin : a.Fits d.sheet := by
      rw [← fits_unmark, hs, fits_unmark]
      exact hfit.1
    obtain ⟨e, he, hshows⟩ := step_shows hd hin
    obtain ⟨e', he', hlike⟩ := h.step hd hin (fun hm => (hmarks hm).1) e he
    have hs' : e.sheet.unmark = (s.step a).unmark := by
      rw [hshows.alike, step_unmark, hs, ← step_unmark]
    obtain ⟨f, f', hf, hf', hend⟩ := ih hlike hshows.sound hs' hfit.2 fun hm => (hmarks hm).2 e he
    exact ⟨f, f', bind_eq_ok.mpr ⟨e, he, hf⟩, bind_eq_ok.mpr ⟨e', he', hf'⟩, hend⟩

/-- Desks that are the same stay the same at every point of a run only if no step takes marks
along. -/
theorem neverTakesMarks_of_runSteps (steps : List Step) {d d' : Desk} {s : Sheet}
    (h : d.Resembles true d') (hd : d.Sound) (hs : d.sheet.unmark = s.unmark)
    (hfit : s.FitsSteps steps)
    (hsame : ∀ n, ∃ e e', d.runSteps UndoSlot.capture (steps.take n) = .ok e ∧
      d'.runSteps UndoSlot.captureAnew (steps.take n) = .ok e' ∧ e.Resembles true e') :
    d.NeverTakesMarks steps := by
  induction steps generalizing d d' s with
  | nil => trivial
  | cons a rest ih =>
    have hin : a.Fits d.sheet := by
      rw [← fits_unmark, hs, fits_unmark]
      exact hfit.1
    obtain ⟨e, he, hshows⟩ := step_shows hd hin
    obtain ⟨e₁, e₁', he₁, he₁', hlike⟩ := hsame 1
    obtain ⟨_, he₂, ⟨⟩⟩ := bind_eq_ok.mp he₁
    obtain ⟨_, he₂', ⟨⟩⟩ := bind_eq_ok.mp he₁'
    obtain rfl := Except.ok.inj (he.symm.trans he₂)
    refine ⟨?_, fun f hf => ?_⟩
    · cases a with
      | act a =>
        by_cases ha : ∃ k, a = .capture k
        · obtain ⟨k, rfl⟩ := ha
          obtain ⟨f, f', hf, hf', -, htrue⟩ := capture_resembles hd (lt_of_lt_sheet hin)
          obtain ⟨g, hg, hfg⟩ := h.captureAnew k f' hf'
          obtain rfl := Except.ok.inj (he.symm.trans hf)
          obtain rfl := Except.ok.inj (he₂'.symm.trans hg)
          exact htrue.mp (hlike.trans hfg.symm)
        · cases a <;> first | trivial | exact absurd ⟨_, rfl⟩ ha
      | adjust k change => trivial
    · obtain rfl := Except.ok.inj (he.symm.trans hf)
      have hs' : e.sheet.unmark = (s.step a).unmark := by
        rw [hshows.alike, step_unmark, hs, ← step_unmark]
      refine ih hlike hshows.sound hs' hfit.2 fun n => ?_
      obtain ⟨g, g', hg, hg', hend⟩ := hsame (n + 1)
      obtain ⟨_, hfirst, hg⟩ := bind_eq_ok.mp hg
      obtain ⟨_, hfirst', hg'⟩ := bind_eq_ok.mp hg'
      obtain rfl := Except.ok.inj (he.symm.trans hfirst)
      obtain rfl := Except.ok.inj (he₂'.symm.trans hfirst')
      exact ⟨g, g', hg, hg', hend⟩

theorem NeverTakesMarks.take {steps : List Step} {d : Desk} (h : d.NeverTakesMarks steps) (n : Nat) :
    d.NeverTakesMarks (steps.take n) := by
  induction steps generalizing d n with
  | nil => simpa using h
  | cons a rest ih =>
    cases n with
    | zero => trivial
    | succ n => exact ⟨h.1, fun e he => ih (h.2 e he) n⟩

section
variable {d d' : Desk}

theorem resembles_false : d.Resembles false d' ↔ d.pool = d'.pool ∧
    d.windows.map Window.clearMarks = d'.windows.map Window.clearMarks ∧
    d.undo.record.map UndoRecord.clearMarks = d'.undo.record.map UndoRecord.clearMarks := by
  have hwindow : Window.seen false = Window.clearMarks := by
    funext w
    rw [Window.seen, LineMap.seen_false, Window.clearMarks]
  have hrecord : UndoRecord.seen false = UndoRecord.clearMarks := by
    funext r
    rw [UndoRecord.seen, LineMap.seen_false, UndoRecord.clearMarks]
  rw [← hwindow, ← hrecord]
  exact ⟨fun h => ⟨h.pool_eq, h.windows_eq, h.record_eq⟩, fun h => ⟨h.1, h.2.1, h.2.2⟩⟩

theorem resembles_true : d.Resembles true d' ↔ d.pool = d'.pool ∧ d.windows = d'.windows ∧
    d.undo.record = d'.undo.record := by
  have hwindow : Window.seen true = id := by
    funext w
    rw [Window.seen, LineMap.seen_true]
    rfl
  have hrecord : UndoRecord.seen true = id := by
    funext r
    rw [UndoRecord.seen, LineMap.seen_true]
    rfl
  constructor
  · rintro ⟨hp, hw, hr⟩
    rw [hwindow, List.map_id, List.map_id] at hw
    rw [hrecord, Option.map_id, id_eq, id_eq] at hr
    exact ⟨hp, hw, hr⟩
  · rintro ⟨hp, hw, hr⟩
    exact ⟨hp, congrArg _ hw, congrArg _ hr⟩

end

/-- Whether a desk makes each record anew or keeps what has the same lines, nothing ever differs but
marks: the pool is the same down to its counts and the order of its free slots, and so are windows
and records. Marks differ just if some capture takes them along. -/
theorem runSteps_anew {steps : List Step} (hfit : Sheet.empty.FitsSteps steps) :
    (∀ n, ∃ d d', Desk.empty.runSteps UndoSlot.capture (steps.take n) = .ok d ∧
      Desk.empty.runSteps UndoSlot.captureAnew (steps.take n) = .ok d' ∧ d.pool = d'.pool ∧
      d.windows.map Window.clearMarks = d'.windows.map Window.clearMarks ∧
      d.undo.record.map UndoRecord.clearMarks = d'.undo.record.map UndoRecord.clearMarks) ∧
    ((∀ n, ∃ d d', Desk.empty.runSteps UndoSlot.capture (steps.take n) = .ok d ∧
      Desk.empty.runSteps UndoSlot.captureAnew (steps.take n) = .ok d' ∧ d.pool = d'.pool ∧
      d.windows = d'.windows ∧ d.undo.record = d'.undo.record) ↔
        Desk.empty.NeverTakesMarks steps) := by
  have hempty : Desk.empty.Sound := Pool.Accounts.empty
  have hrefl (marks : Bool) : Desk.empty.Resembles marks Desk.empty := ⟨rfl, rfl, rfl⟩
  simp only [← resembles_false, ← resembles_true]
  refine ⟨fun n => ?_, fun hsame => ?_, fun hnever n => ?_⟩
  · exact runSteps_resembles _ (hrefl false) hempty rfl (hfit.take n) (by simp)
  · exact neverTakesMarks_of_runSteps steps (hrefl true) hempty rfl hfit hsame
  · exact runSteps_resembles _ (hrefl true) hempty rfl (hfit.take n) fun _ => hnever.take n

/-- One desk makes two copies and the other three; a line is replaced and comes back in between. -/
theorem runSteps_anew_copies :
    let steps := [.act (.openWindow 1), .act (.edit 0 (.insert 0 [[97], [98]])), .act (.capture 0),
      .adjust 0 (.dot 1), .act (.capture 0), .act (.edit 0 (.replace 1 1 [[99]])), .act (.undo 0),
      .act (.undo 0), .act (.capture 0)]
    Sheet.empty.FitsSteps steps ∧ ∃ d d', Desk.empty.runSteps UndoSlot.capture steps = .ok d ∧
      Desk.empty.runSteps UndoSlot.captureAnew steps = .ok d' ∧ d.pool = d'.pool ∧
      d.undo.skipped = 1 ∧ d'.undo.skipped = 0 := by
  intro steps
  have hfit : Sheet.empty.FitsSteps steps := by decide
  obtain ⟨d, d', hd, hd', hpool, -⟩ := (runSteps_anew hfit).1 steps.length
  have hskipped : ((Desk.empty.runSteps UndoSlot.capture steps).map fun d => d.undo.skipped) = .ok 1 ∧
      ((Desk.empty.runSteps UndoSlot.captureAnew steps).map fun d => d.undo.skipped) = .ok 0 := by
    decide
  rw [List.take_length] at hd hd'
  rw [hd, hd'] at hskipped
  exact ⟨hfit, d, d', hd, hd', hpool, Except.ok.inj hskipped.1, Except.ok.inj hskipped.2⟩

/-- An undo gives the record a marked line, the next capture keeps that record, and the next undo
shows the mark in the window; of a record made anew the line comes back unmarked. -/
theorem runSteps_anew_differ :
    let steps := [.act (.openWindow 1), .act (.edit 0 (.insert 0 [[97]])), .act (.capture 0),
      .act (.mark 0 1 true), .act (.undo 0), .act (.capture 0), .act (.undo 0)]
    Sheet.empty.FitsSteps steps ∧ ∃ d d', Desk.empty.runSteps UndoSlot.capture steps = .ok d ∧
      Desk.empty.runSteps UndoSlot.captureAnew steps = .ok d' ∧ d.windows ≠ d'.windows := by
  intro steps
  exact ⟨by decide, _, _, rfl, rfl, by decide⟩

end Desk

end LineEditor
