import LineEditor.Buffer.Undo
import LineEditor.Proofs.Accounts

/-!
# Consistent windows

Dot and labels are placed in a text of some size if they name its lines, and dot is 0 only where
there is none. A window is consistent if its dot and labels are placed in its lines. Splices and
moves renumber labels, each by a rule with cases of its own; all that is asked of a rule is that it
takes lines of the old text to lines of the new one.
-/

namespace LineEditor

namespace Labels

/-- The labels renumbered by a rule that is no breach anywhere. -/
def remap (l : Labels) (f : Nat → Option Nat) : Labels := ⟨l.lines.map (·.bind f)⟩

theorem renumber_eq (l : Labels) {rule : Nat → Except Breach (Option Nat)} {f : Nat → Option Nat}
    (h : ∀ n, rule n = .ok (f n)) : l.renumber rule = .ok (l.remap f) := by
  have hlines : l.lines.toList.mapM (Option.bindM rule) = .ok (l.lines.toList.map (·.bind f)) := by
    refine mapM_ok fun line _ => ?_
    cases line with
    | none => rfl
    | some n => exact h n
  unfold renumber remap
  rw [hlines]
  refine congrArg (Except.ok ∘ Labels.mk) (Vector.ext fun i hi => ?_)
  simp

/-- Each label that is set names one of `size` lines. -/
def Within (l : Labels) (size : Nat) : Prop := ∀ name n, l.get? name = some n → 1 ≤ n ∧ n ≤ size

theorem get?_none (name : Char) : Labels.none.get? name = Option.none := by
  unfold get? Labels.none
  split <;> simp

theorem get?_put (l : Labels) (name : Char) (line : Option Nat) (other : Char) :
    (l.put name line).get? other = line ∨ (l.put name line).get? other = l.get? other := by
  unfold put get?
  cases hn : index? name with
  | none => exact .inr rfl
  | some i =>
    cases index? other with
    | none => exact .inr rfl
    | some j =>
      by_cases hij : i = j
      · left
        simp [hij]
      · right
        have hval : i.val ≠ j.val := fun h => hij (Fin.ext h)
        simp [hval]

theorem get?_remap (l : Labels) (f : Nat → Option Nat) (name : Char) :
    (l.remap f).get? name = (l.get? name).bind f := by
  unfold remap get?
  cases index? name <;> simp

theorem get?_hold (l before : Labels) (n : Nat) (name : Char) :
    (l.hold before n).get? name = if before.get? name = some n then some n else l.get? name := by
  unfold hold get?
  cases index? name <;> simp

theorem within_none (size : Nat) : Labels.none.Within size := by
  intro name n h
  rw [get?_none] at h
  cases h

theorem Within.put {l : Labels} {size : Nat} (h : l.Within size) (name : Char) {line : Option Nat}
    (hline : ∀ n, line = some n → 1 ≤ n ∧ n ≤ size) : (l.put name line).Within size := by
  intro other n hn
  rcases l.get?_put name line other with he | he
  · exact hline n (he ▸ hn)
  · exact h other n (he ▸ hn)

theorem Within.remap {l : Labels} {size size' : Nat} (h : l.Within size) {f : Nat → Option Nat}
    (hf : ∀ n, 1 ≤ n → n ≤ size → ∀ k, f n = some k → 1 ≤ k ∧ k ≤ size') :
    (l.remap f).Within size' := by
  intro name k hk
  rw [get?_remap] at hk
  obtain ⟨n, hn, hfn⟩ := Option.bind_eq_some_iff.mp hk
  exact hf n (h name n hn).1 (h name n hn).2 k hfn

theorem Within.hold {l : Labels} {size n : Nat} (h : l.Within size) (before : Labels) (h₁ : 1 ≤ n)
    (hn : n ≤ size) : (l.hold before n).Within size := by
  intro name k hk
  rw [get?_hold] at hk
  split at hk
  · cases hk
    exact ⟨h₁, hn⟩
  · exact h name k hk

theorem index?_nameAt : ∀ i : Fin 26, index? (nameAt i) = some i := by decide

theorem Within.named {l : Labels} {size : Nat} (h : l.Within size) : ∀ n ∈ l.named, n ≤ size := by
  intro n hn
  unfold Labels.named toList at hn
  rw [List.mem_map] at hn
  obtain ⟨⟨name, line⟩, hmem, rfl⟩ := hn
  obtain ⟨i, -, hi⟩ := List.mem_filterMap.mp hmem
  obtain ⟨k, hk, hpair⟩ := Option.map_eq_some_iff.mp hi
  cases hpair
  refine (h (nameAt i) line ?_).2
  unfold get?
  rw [index?_nameAt]
  exact hk

end Labels

/-- Dot and labels name lines of a text with `size` lines; dot is 0 only where there is none. -/
structure Placed (dot : Nat) (labels : Labels) (size : Nat) : Prop where
  dot_le : dot ≤ size
  dot_eq_zero_iff : dot = 0 ↔ size = 0
  labels_within : labels.Within size

theorem Placed.at_line {n size : Nat} {labels : Labels} (h₁ : 1 ≤ n) (hn : n ≤ size)
    (hl : labels.Within size) : Placed n labels size :=
  ⟨hn, by omega, hl⟩

namespace Window

/-- Dot and labels are placed in the lines of the window. -/
def Consistent (w : Window) : Prop := Placed w.dot w.labels w.dol

theorem consistent_empty (id : Nat) (flags : WindowFlags) : (Window.empty id flags).Consistent :=
  ⟨Nat.le_refl _, Iff.rfl, Labels.within_none _⟩

section
variable {w : Window}

theorem Consistent.setDot (hw : w.Consistent) {n : Nat} (h₁ : 1 ≤ n) (hn : n ≤ w.dol) :
    (w.setDot n).Consistent :=
  .at_line h₁ hn hw.labels_within

theorem Consistent.setLabel (hw : w.Consistent) (name : Char) (n : Nat) :
    ((w.setLabel name n).getD w).Consistent := by
  unfold Window.setLabel
  split
  · rename_i hc
    simp only [Bool.and_eq_true, decide_eq_true_eq] at hc
    refine ⟨hw.dot_le, hw.dot_eq_zero_iff, hw.labels_within.put name ?_⟩
    intro k hk
    split at hk
    · cases hk
    · cases hk
      exact ⟨by omega, hc.1⟩
  · exact hw

theorem Consistent.isConsistent (hw : w.Consistent) : w.isConsistent = true := by
  unfold Window.isConsistent
  simp only [Bool.and_eq_true, decide_eq_true_eq, beq_iff_eq, List.all_eq_true]
  refine ⟨⟨hw.dot_le, ?_⟩, hw.labels_within.named⟩
  rw [Bool.eq_iff_iff, beq_iff_eq, beq_iff_eq]
  exact hw.dot_eq_zero_iff

theorem setLabel_lines (name : Char) (n : Nat) : ((w.setLabel name n).getD w).lines = w.lines := by
  unfold Window.setLabel
  split <;> rfl

theorem setLabel_id (name : Char) (n : Nat) : ((w.setLabel name n).getD w).id = w.id := by
  unfold Window.setLabel
  split <;> rfl

/-! ## Splices and moves -/

/-- Where line `n` stands after a splice; lines taken out stand nowhere. -/
def spliceRule (start remove added n : Nat) : Option Nat :=
  if n ≤ start then some n
  else if n ≤ start + remove then none
  else some (n - remove + added)

theorem shifted_eq (start remove added n : Nat) :
    shifted start remove added n = .ok (spliceRule start remove added n) := by
  unfold shifted spliceRule
  split
  · rfl
  · split
    · rfl
    · rw [difference_of_le (by omega)]
      rfl

/-- The window after a splice of its lines. -/
def splice (w : Window) (start remove : Nat) (insert : List Entry) : Window :=
  let lines := w.lines.splice start remove insert
  let atEnd := (0 < remove || !insert.isEmpty) && w.dol ≤ start + remove
  { w with
    lines := lines
    labels := w.labels.remap (spliceRule start remove insert.length)
    dot := if lines.isEmpty then 0 else max 1 (min w.dot lines.length)
    flags.noFinalNewline := w.flags.noFinalNewline && !atEnd }

def dropped (w : Window) (start remove : Nat) : List Handle :=
  (w.lines.removed start remove).map Entry.handle

theorem exchange_eq (w : Window) (p : Pool) (start remove : Nat) (insert : List Entry) :
    w.exchange p start remove insert = (do
      if w.dol < start + remove then throw (.linesOutside (start + 1) (start + remove) w.dol)
      let (p, count) ← p.releaseAll (w.dropped start remove)
      return (w.splice start remove insert, p, count)) := by
  unfold exchange LineMap.replace
  rw [w.labels.renumber_eq (shifted_eq start remove insert.length)]
  by_cases hfit : w.dol < start + remove
  · rw [if_pos hfit, if_pos (show w.lines.length < start + remove from hfit)]
    rfl
  · rw [if_neg hfit, if_neg (show ¬w.lines.length < start + remove from hfit)]
    show ((p.releaseAll (w.dropped start remove) >>= _) >>= _) = _
    rw [bind_assoc]
    rfl

/-- Where line `n` stands after lines `start` to `stop` were moved behind line `after`. -/
def moveRule (start stop after n : Nat) : Nat :=
  if stop ≤ after then
    if start ≤ n && n ≤ stop then n + (after - stop)
    else if stop < n && n ≤ after then n - (stop - start + 1)
    else n
  else if start ≤ n && n ≤ stop then n - (start - 1 - after)
  else if after < n && n < start then n + (stop - start + 1)
  else n

theorem carried_eq {start stop after : Nat} (h₁ : 1 ≤ start) (hs : start ≤ stop)
    (hout : ¬(start ≤ after ∧ after < stop)) (n : Nat) :
    carried start stop (stop - start + 1) after n = .ok (moveRule start stop after n) := by
  unfold carried moveRule
  simp only [Bool.and_eq_true, decide_eq_true_eq]
  split
  · split
    · rw [difference_of_le (by omega)]
      rfl
    · split
      · exact difference_of_le (by omega)
      · rfl
  · split
    · rw [difference_of_le h₁]
      show (difference (start - 1) after >>= fun gap => difference n gap) = _
      rw [difference_of_le (by omega)]
      exact difference_of_le (by omega)
    · split <;> rfl

/-- The window after lines `start` to `stop` were moved behind line `after`. -/
def move (w : Window) (start stop after : Nat) : Window :=
  let count := stop - start + 1
  { w with
    lines := w.lines.relocate (start - 1) count after
    labels := w.labels.remap fun n => some (moveRule start stop after n)
    dot := if stop ≤ after then after else after + count
    flags.noFinalNewline :=
      w.flags.noFinalNewline && !(stop == w.dol || after == w.dol) }

theorem moveLines_eq (w : Window) (start stop after : Nat) :
    w.moveLines start stop after = (do
      if start = 0 || stop < start || w.dol < stop then throw (.linesOutside start stop w.dol)
      if w.dol < after then throw (.placeOutside after w.dol)
      if start ≤ after && after < stop then throw (.movedInside start stop after)
      return w.move start stop after) := by
  unfold moveLines
  by_cases hin : (start = 0 || stop < start || w.dol < stop) = true
  · rw [if_pos hin, if_pos hin]
    rfl
  rw [if_neg hin, if_neg hin]
  by_cases hafter : w.dol < after
  · rw [if_pos hafter, if_pos hafter]
    rfl
  rw [if_neg hafter, if_neg hafter]
  by_cases hout : (start ≤ after && after < stop) = true
  · rw [if_pos hout, if_pos hout]
    rfl
  rw [if_neg hout, if_neg hout]
  simp only [Bool.or_eq_true, Bool.and_eq_true, decide_eq_true_eq, not_or] at hin hout
  have h₁ : 1 ≤ start := by omega
  have hs : start ≤ stop := by omega
  have hlabels := w.labels.renumber_eq fun n =>
    congrArg (Functor.map some) (carried_eq h₁ hs hout n)
  rw [difference_of_le hs, difference_of_le h₁]
  show (w.labels.renumber (fun n => some <$> carried start stop (stop - start + 1) after n) >>= _) = _
  rw [hlabels]
  rfl

/-- The rule for a splice takes the lines that stay to lines of the new text. -/
theorem shifted_within {start remove added n k : Nat} (hfit : start + remove ≤ size) (h₁ : 1 ≤ n)
    (hn : n ≤ size) (hk : spliceRule start remove added n = some k) :
    1 ≤ k ∧ k ≤ size - remove + added := by
  unfold spliceRule at hk
  split at hk
  · cases hk
    omega
  · split at hk
    · cases hk
    · cases hk
      omega

theorem splice_lines (start remove : Nat) (insert : List Entry) :
    (w.splice start remove insert).lines = w.lines.splice start remove insert := rfl

theorem dol_splice {start remove : Nat} (insert : List Entry) (hfit : start + remove ≤ w.dol) :
    (w.splice start remove insert).dol = w.dol - remove + insert.length :=
  w.lines.length_splice insert hfit

theorem Consistent.splice (hw : w.Consistent) {start remove : Nat} (insert : List Entry)
    (hfit : start + remove ≤ w.dol) : (w.splice start remove insert).Consistent := by
  have hdol := dol_splice insert hfit
  have hlabels : (w.splice start remove insert).labels.Within (w.splice start remove insert).dol := by
    rw [hdol]
    exact hw.labels_within.remap fun n h₁ hn k hk => shifted_within hfit h₁ hn hk
  have hdot : (w.splice start remove insert).dot =
      if (w.splice start remove insert).lines.isEmpty then 0
      else max 1 (min w.dot (w.splice start remove insert).dol) := rfl
  cases hl : (w.splice start remove insert).lines with
  | nil =>
    have hzero : (w.splice start remove insert).dol = 0 := by simp [dol, hl]
    rw [hl, List.isEmpty_nil, if_pos rfl] at hdot
    exact ⟨by omega, by omega, hlabels⟩
  | cons x rest =>
    have hpos : (w.splice start remove insert).dol = rest.length + 1 := by simp [dol, hl]
    rw [hl, List.isEmpty_cons, if_neg (by simp)] at hdot
    exact ⟨by omega, by omega, hlabels⟩

/-- The rule for a move takes lines to lines. -/
theorem carried_within {start stop after n size : Nat} (h₁ : 1 ≤ start) (hs : start ≤ stop)
    (hstop : stop ≤ size) (hafter : after ≤ size) (hn₁ : 1 ≤ n) (hn : n ≤ size) :
    1 ≤ moveRule start stop after n ∧ moveRule start stop after n ≤ size := by
  unfold moveRule
  simp only [Bool.and_eq_true, decide_eq_true_eq]
  split
  · split
    · omega
    · split <;> omega
  · split
    · omega
    · split <;> omega

theorem Consistent.move (hw : w.Consistent) {start stop after : Nat} (h₁ : 1 ≤ start)
    (hs : start ≤ stop) (hstop : stop ≤ w.dol) (hafter : after ≤ w.dol)
    (hout : ¬(start ≤ after ∧ after < stop)) : (w.move start stop after).Consistent := by
  have hperm : (w.move start stop after).lines.Perm w.lines :=
    w.lines.relocate_perm (by omega)
  have hdol : (w.move start stop after).dol = w.dol := hperm.length_eq
  have hdot : (w.move start stop after).dot =
      if stop ≤ after then after else after + (stop - start + 1) := rfl
  refine .at_line ?_ ?_ ?_
  · rw [hdot]
    split <;> omega
  · rw [hdot, hdol]
    split <;> omega
  · rw [hdol]
    refine hw.labels_within.remap fun n hn₁ hn k hk => ?_
    cases hk
    exact carried_within h₁ hs hstop hafter hn₁ hn

end

end Window

/-- Dot and labels of a record are placed in its lines, and none of these has a mark. -/
structure UndoRecord.Settled (r : UndoRecord) : Prop where
  placed : Placed r.dot r.labels r.lines.length
  unmarked : r.lines.Unmarked

/-- A window as it is between commands: consistent, and no entry has a mark. -/
structure Window.Settled (w : Window) : Prop where
  consistent : w.Consistent
  unmarked : w.lines.Unmarked

theorem Window.settled_empty (id : Nat) (flags : WindowFlags) : (Window.empty id flags).Settled :=
  ⟨consistent_empty id flags, fun _ hx => by cases hx⟩

end LineEditor
