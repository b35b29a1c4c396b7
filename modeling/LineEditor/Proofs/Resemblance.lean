import LineEditor.Buffer.Edit
import LineEditor.Proofs.Leads
import LineEditor.Proofs.Sequence

/-!
# Windows that look alike

No operation on windows looks at marks, except for those that set them. Windows that are the same but
for marks are so after each operation too, and the pool is the same. How windows look is given with
marks or without, so that what is said of windows that look alike is said of windows that are the
same as well.
-/

namespace LineEditor

/-! ## Computations side by side -/

/-- Where one computation gives a value, the other gives one that `R` relates to it. -/
def Mirrors (R : α → β → Prop) (x : Except Breach α) (y : Except Breach β) : Prop :=
  ∀ a, x = .ok a → ∃ b, y = .ok b ∧ R a b

namespace Mirrors

variable {R : α → β → Prop}

protected theorem pure {a : α} {b : β} (h : R a b) : Mirrors R (pure a) (pure b) := by
  rintro _ ⟨⟩
  exact ⟨b, rfl, h⟩

protected theorem throw (b : Breach) (y : Except Breach β) : Mirrors R (throw b) y := by
  rintro _ ⟨⟩

theorem refl {R : α → α → Prop} (h : ∀ a, R a a) (x : Except Breach α) : Mirrors R x x :=
  fun a ha => ⟨a, ha, h a⟩

protected theorem bind {S : γ → δ → Prop} {x : Except Breach α} {y : Except Breach β}
    {f : α → Except Breach γ} {g : β → Except Breach δ} (h : Mirrors R x y)
    (hfg : ∀ a b, R a b → Mirrors S (f a) (g b)) : Mirrors S (x >>= f) (y >>= g) := by
  intro c hc
  obtain ⟨a, ha, hf⟩ := bind_eq_ok.mp hc
  obtain ⟨b, hb, hab⟩ := h a ha
  obtain ⟨d, hd, hcd⟩ := hfg a b hab c hf
  exact ⟨d, bind_eq_ok.mpr ⟨b, hb, hd⟩, hcd⟩

/-- A check that both make. -/
protected theorem check {c : Prop} [Decidable c] {b₁ b₂ : Breach} {x : Except Breach α}
    {y : Except Breach β} (h : Mirrors R x y) :
    Mirrors R (if c then throw b₁ else x) (if c then throw b₂ else y) := by
  split
  · exact .throw _ _
  · exact h

end Mirrors

/-! ## Lines as they are seen -/

/-- The entry as it is seen, with its mark or without. -/
def Entry.seen (marks : Bool) (x : Entry) : Entry := { x with marked := x.marked && marks }

namespace LineMap

def seen (marks : Bool) (m : LineMap) : LineMap := m.map (Entry.seen marks)

theorem seen_true (m : LineMap) : m.seen true = m := by
  refine (List.map_congr_left fun x _ => ?_).trans (List.map_id m)
  simp [Entry.seen]

theorem seen_false (m : LineMap) : m.seen false = m.clearMarks := by
  refine List.map_congr_left fun x _ => ?_
  simp [Entry.seen, Entry.unmark]

variable {marks : Bool} {l m : LineMap}

@[simp] theorem length_seen (m : LineMap) : (m.seen marks).length = m.length := List.length_map _

@[simp] theorem handles_seen (m : LineMap) : (m.seen marks).handles = m.handles := by
  rw [seen, handles, List.map_map]
  rfl

@[simp] theorem clearMarks_seen (m : LineMap) : (m.seen marks).clearMarks = m.clearMarks := by
  rw [seen, clearMarks, List.map_map]
  rfl

@[simp] theorem seen_clearMarks (m : LineMap) : m.clearMarks.seen marks = m.clearMarks := by
  rw [seen, clearMarks, List.map_map]
  rfl

theorem seen_splice (m : LineMap) (start remove : Nat) (insert : List Entry) :
    (m.splice start remove insert).seen marks =
      (m.seen marks).splice start remove (seen marks insert) :=
  Sequence.map_splice _ m start remove insert

theorem seen_removed (m : LineMap) (start remove : Nat) :
    seen marks (m.removed start remove) = (m.seen marks).removed start remove := by
  simp only [seen, removed, List.map_take, List.map_drop]

theorem seen_relocate (m : LineMap) (start count after : Nat) :
    (m.relocate start count after).seen marks = (m.seen marks).relocate start count after := by
  unfold relocate
  split <;> simp only [seen, removed, List.map_append, List.map_take, List.map_drop]

end LineMap

namespace Window

def seen (marks : Bool) (w : Window) : Window := { w with lines := w.lines.seen marks }

/-- The windows look alike, be it with their marks or without. -/
def Resembles (marks : Bool) (w w' : Window) : Prop := w.seen marks = w'.seen marks

/-- Windows that look alike over the same pool. -/
def ResembleOver (marks : Bool) (r r' : Window × Pool) : Prop := r.1.Resembles marks r'.1 ∧ r.2 = r'.2

theorem resembles_true {w w' : Window} : w.Resembles true w' ↔ w = w' := by
  simp only [Resembles, seen, LineMap.seen_true]

theorem resembles_false {w w' : Window} : w.Resembles false w' ↔ w.clearMarks = w'.clearMarks := by
  simp only [Resembles, seen, LineMap.seen_false, clearMarks]

namespace Resembles

variable {marks : Bool} {w w' : Window}

theorem seen_eq (h : w.Resembles marks w') : w.seen marks = w'.seen marks := h

theorem lines_eq (h : w.Resembles marks w') : w.lines.seen marks = w'.lines.seen marks :=
  congrArg Window.lines h.seen_eq

theorem id_eq (h : w.Resembles marks w') : w.id = w'.id :=
  show (w.seen marks).id = (w'.seen marks).id from congrArg _ h.seen_eq

theorem dot_eq (h : w.Resembles marks w') : w.dot = w'.dot :=
  show (w.seen marks).dot = (w'.seen marks).dot from congrArg _ h.seen_eq

theorem labels_eq (h : w.Resembles marks w') : w.labels = w'.labels :=
  show (w.seen marks).labels = (w'.seen marks).labels from congrArg _ h.seen_eq

theorem flags_eq (h : w.Resembles marks w') : w.flags = w'.flags :=
  show (w.seen marks).flags = (w'.seen marks).flags from congrArg _ h.seen_eq

theorem dol_eq (h : w.Resembles marks w') : w.dol = w'.dol := by
  simpa [dol] using congrArg List.length h.lines_eq

theorem handles_eq (h : w.Resembles marks w') : w.lines.handles = w'.lines.handles := by
  simpa using congrArg LineMap.handles h.lines_eq

theorem clearMarks_eq (h : w.Resembles marks w') : w.lines.clearMarks = w'.lines.clearMarks := by
  simpa using congrArg LineMap.clearMarks h.lines_eq

theorem dropped_eq (h : w.Resembles marks w') (start remove : Nat) :
    w.dropped start remove = w'.dropped start remove := by
  have hremoved := congrArg (LineMap.removed · start remove) h.lines_eq
  simp only [← LineMap.seen_removed] at hremoved
  have hhandles := congrArg LineMap.handles hremoved
  rwa [LineMap.handles_seen, LineMap.handles_seen] at hhandles

theorem entry?_eq (h : w.Resembles marks w') (n : Nat) :
    (w.entry? n).map (Entry.seen marks) = (w'.entry? n).map (Entry.seen marks) := by
  cases n with
  | zero => rfl
  | succ i =>
    have hi := congrArg (fun l : LineMap => l[i]?) h.lines_eq
    simp only [LineMap.seen, List.getElem?_map] at hi
    exact hi

/-- An operation that does the same whatever is seen of marks. -/
theorem congr (h : w.Resembles marks w') {f : Window → Window}
    (hf : ∀ v : Window, (f v).seen marks = f (v.seen marks)) : (f w).Resembles marks (f w') := by
  unfold Resembles at h ⊢
  rw [hf, hf, h]

theorem setDot (h : w.Resembles marks w') (n : Nat) : (w.setDot n).Resembles marks (w'.setDot n) :=
  h.congr (f := fun v => v.setDot n) fun _ => rfl

theorem splice (h : w.Resembles marks w') (start remove : Nat) {insert insert' : List Entry}
    (hi : LineMap.seen marks insert = LineMap.seen marks insert') :
    (w.splice start remove insert).Resembles marks (w'.splice start remove insert') := by
  have hsplice (v : Window) (i : List Entry) : (v.splice start remove i).seen marks =
      (v.seen marks).splice start remove (LineMap.seen marks i) := by
    unfold Window.splice Window.seen
    dsimp only
    rw [← LineMap.seen_splice]
    simp only [dol, LineMap.seen, List.isEmpty_map, List.length_map]
    rfl
  unfold Resembles at h ⊢
  rw [hsplice, hsplice, h, hi]

theorem move (h : w.Resembles marks w') (start stop after : Nat) :
    (w.move start stop after).Resembles marks (w'.move start stop after) := by
  refine h.congr (f := fun v => v.move start stop after) fun v => ?_
  unfold Window.move Window.seen
  simp only [LineMap.seen_relocate, dol, LineMap.length_seen]

end Resembles

/-! ## Operations -/

section
variable {marks : Bool} {w w' : Window} {p : Pool}

theorem Resembles.exchange (h : w.Resembles marks w') (start remove : Nat)
    {insert insert' : List Entry} (hi : LineMap.seen marks insert = LineMap.seen marks insert') :
    Mirrors (fun r r' => r.1.Resembles marks r'.1 ∧ r.2 = r'.2)
      (w.exchange p start remove insert) (w'.exchange p start remove insert') := by
  rw [exchange_eq, exchange_eq, h.dol_eq, h.dropped_eq]
  refine .check (.bind (.refl (fun _ => Eq.refl _) _) ?_)
  rintro r _ rfl
  exact .pure ⟨h.splice start remove hi, rfl⟩

theorem Resembles.insertEntries (h : w.Resembles marks w') (after : Nat)
    (entries : List (Bytes × Option Suffix)) :
    Mirrors (ResembleOver marks) (w.insertEntries p after entries) (w'.insertEntries p after entries) := by
  unfold Window.insertEntries
  refine .bind (h.exchange after 0 rfl) ?_
  rintro ⟨v, q, n⟩ ⟨v', q', n'⟩ ⟨hv, hq⟩
  obtain ⟨rfl, rfl⟩ := Prod.mk.inj hq
  refine .pure ⟨?_, rfl⟩
  dsimp only
  split
  · exact hv
  · exact hv.setDot _

theorem Resembles.deleteLines (h : w.Resembles marks w') (start stop : Nat) :
    Mirrors (ResembleOver marks) (w.deleteLines p start stop) (w'.deleteLines p start stop) := by
  unfold Window.deleteLines
  refine .check (.bind (h.exchange _ _ rfl) ?_)
  rintro ⟨v, q, n⟩ ⟨v', q', n'⟩ ⟨hv, hq⟩
  obtain ⟨rfl, rfl⟩ := Prod.mk.inj hq
  refine .pure ⟨?_, rfl⟩
  dsimp only at hv ⊢
  rw [hv.dol_eq]
  exact hv.setDot _

theorem Resembles.replaceLines (h : w.Resembles marks w') (start stop : Nat) (lines : List Bytes) :
    Mirrors (ResembleOver marks) (w.replaceLines p start stop lines)
      (w'.replaceLines p start stop lines) := by
  unfold Window.replaceLines
  split
  · exact h.deleteLines start stop
  · refine .check (.bind (h.exchange _ _ rfl) ?_)
    rintro ⟨v, q, n⟩ ⟨v', q', n'⟩ ⟨hv, hq⟩
    obtain ⟨rfl, rfl⟩ := Prod.mk.inj hq
    exact .pure ⟨hv.setDot _, rfl⟩

theorem Resembles.reviseLine (h : w.Resembles marks w') (n : Nat) (lines : List Bytes) :
    Mirrors (ResembleOver marks) (w.reviseLine p n lines) (w'.reviseLine p n lines) := by
  unfold Window.reviseLine
  refine .bind (h.replaceLines n n lines) ?_
  rintro ⟨v, q⟩ ⟨v', q'⟩ ⟨hv, hq⟩
  refine .pure ⟨?_, hq⟩
  dsimp only at hv ⊢
  split
  · exact hv
  · rw [h.labels_eq]
    exact hv.congr (f := fun u => { u with labels := u.labels.hold w'.labels n }) fun _ => rfl

theorem Resembles.reviseLines (changes : List (Nat × List Bytes)) {w w' : Window} {p : Pool}
    (h : w.Resembles marks w') (shift : Nat) :
    Mirrors (ResembleOver marks) (w.reviseLines p shift changes) (w'.reviseLines p shift changes) := by
  induction changes generalizing w w' p shift with
  | nil => exact .pure ⟨h, rfl⟩
  | cons change rest ih =>
    obtain ⟨n, lines⟩ := change
    unfold Window.reviseLines
    refine .bind (h.reviseLine _ lines) ?_
    rintro ⟨v, q⟩ ⟨v', q'⟩ ⟨hv, rfl⟩
    refine .bind (.refl (fun _ => Eq.refl _) _) ?_
    rintro more _ rfl
    refine .bind (.refl (fun _ => Eq.refl _) _) ?_
    rintro last _ rfl
    dsimp only at hv ⊢
    refine .bind (R := Resembles marks) ?_ fun u u' hu => ih hu _
    unfold Window.goto
    rw [hv.dol_eq]
    exact .check (.pure (hv.setDot _))

theorem Resembles.copyLines (h : w.Resembles marks w') (start stop after : Nat) :
    Mirrors (ResembleOver marks) (w.copyLines p start stop after) (w'.copyLines p start stop after) := by
  have hcopies : (w.lines.removed (start - 1) (stop - start + 1)).map Entry.unmark =
      (w'.lines.removed (start - 1) (stop - start + 1)).map Entry.unmark := by
    have hclear := congrArg (LineMap.removed · (start - 1) (stop - start + 1)) h.clearMarks_eq
    simpa only [LineMap.clearMarks, LineMap.removed, List.map_take, List.map_drop] using hclear
  unfold Window.copyLines
  rw [hcopies, h.dol_eq]
  refine .check (.bind (.refl (fun _ => Eq.refl _) _) ?_)
  rintro q _ rfl
  refine .bind (h.exchange _ _ rfl) ?_
  rintro ⟨v, q, n⟩ ⟨v', q', n'⟩ ⟨hv, hq⟩
  obtain ⟨rfl, rfl⟩ := Prod.mk.inj hq
  exact .pure ⟨hv.setDot _, rfl⟩

theorem Resembles.moveLines (h : w.Resembles marks w') (start stop after : Nat) :
    Mirrors (Resembles marks) (w.moveLines start stop after) (w'.moveLines start stop after) := by
  rw [moveLines_eq, moveLines_eq, h.dol_eq]
  exact .check (.check (.check (.pure (h.move start stop after))))

theorem Resembles.perform (h : w.Resembles marks w') (change : Edit) :
    Mirrors (ResembleOver marks) (change.perform w p) (change.perform w' p) := by
  cases change with
  | insert after lines => exact h.insertEntries after _
  | delete start stop => exact h.deleteLines start stop
  | replace start stop lines => exact h.replaceLines start stop lines
  | copy start stop after => exact h.copyLines start stop after
  | move start stop after =>
    exact (h.moveLines start stop after).bind fun v v' hv => .pure ⟨hv, rfl⟩
  | revise changes => exact Resembles.reviseLines changes h 0

theorem Resembles.setMark (h : w.Resembles marks w') (n : Nat) (on : Bool) :
    (w.setMark n on).Resembles marks (w'.setMark n on) := by
  cases n with
  | zero => exact h
  | succ i =>
    have hmark (x : Entry) : ({ x with marked := on } : Entry).seen marks =
        { x.seen marks with marked := on && marks } := rfl
    have hset (v : Window) : (v.setMark (i + 1) on).seen marks =
        (v.seen marks).setMark (i + 1) (on && marks) :=
      congrArg (fun lines : LineMap => { v with lines })
        (Sequence.map_update (Entry.seen marks) hmark v.lines (i + 1))
    unfold Resembles at h ⊢
    rw [hset, hset, h]

theorem Resembles.clearMarks (h : w.Resembles marks w') : w.clearMarks = w'.clearMarks := by
  have hclear := congrArg Window.clearMarks h
  simpa [Window.clearMarks, Window.seen] using hclear

end

end Window

end LineEditor
