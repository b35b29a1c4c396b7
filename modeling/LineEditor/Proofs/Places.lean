import LineEditor.Proofs.Endings
import LineEditor.Proofs.Origins

/-!
# Labels stay on their lines

Labels are renumbered by arithmetic on line numbers, apart from the change of the lines themselves.
Here the arithmetic is compared with the lines. Each operation on a window is also done to a list of
numbers, which tells of every line where it stood before; the main statement is that a label names
the line of which this list tells its old place, and is unset if the list tells it of none.
-/

namespace LineEditor

/-! ## Where the items of a list go -/

namespace Sequence

section
variable {α : Type}

/-- The item that was on line `n` of `l` is on line `k` of `l'`, where `rule` takes `n` to `k`. -/
def Carries (rule : Nat → Option Nat) (l l' : List α) : Prop :=
  ∀ n k, 1 ≤ n → n ≤ l.length → rule n = some k → 1 ≤ k ∧ l'[k - 1]? = l[n - 1]?

theorem carries_splice (l : List α) {start remove : Nat} (insert : List α)
    (hfit : start + remove ≤ l.length) :
    Carries (Window.spliceRule start remove insert.length) l (splice l start remove insert) := by
  intro n k h₁ hn hk
  unfold Window.spliceRule at hk
  split at hk
  · rename_i hfront
    obtain rfl := Option.some.inj hk
    have hlen : n - 1 < (l.take start).length := by
      rw [List.length_take]
      omega
    refine ⟨h₁, ?_⟩
    rw [splice, List.append_assoc, List.getElem?_append_left hlen,
      List.getElem?_take_of_lt (by omega)]
  · split at hk
    · cases hk
    · obtain rfl := Option.some.inj hk
      have hnew : n - remove + insert.length - 1 = start + insert.length + (n - 1 - start - remove) := by
        omega
      have hold : start + remove + (n - 1 - start - remove) = n - 1 := by omega
      refine ⟨by omega, ?_⟩
      rw [hnew, getElem?_splice_behind l insert hfit, hold]

theorem getElem?_splice_new (l : List α) {start remove : Nat} {insert : List α}
    (hstart : start ≤ l.length) {i : Nat} (hi : i < insert.length) :
    (splice l start remove insert)[start + i]? = insert[i]? := by
  have hlen : (l.take start).length = start := by
    rw [List.length_take]
    omega
  rw [splice, List.append_assoc, List.getElem?_append_right (by omega), hlen,
    Nat.add_sub_cancel_left, List.getElem?_append_left hi]

theorem length_run (l : List α) {start stop : Nat} (h₁ : 1 ≤ start) (hs : start ≤ stop)
    (hstop : stop ≤ l.length) : (run l start stop).length = stop - start + 1 := by
  rw [run, List.length_take, List.length_drop]
  omega

/-- Moving lines is taking them out and putting them in again. -/
theorem move_eq_splice (l : List α) {start stop : Nat} (h₁ : 1 ≤ start) (hs : start ≤ stop)
    (after : Nat) : move l start stop after =
      splice (splice l (start - 1) (stop - start + 1) [])
        (if stop ≤ after then after - (stop - start + 1) else after) 0 (run l start stop) := by
  have hend : start - 1 + (stop - start + 1) = stop := by omega
  unfold move splice
  rw [hend, List.append_nil]
  rfl

theorem carries_move (l : List α) {start stop after : Nat} (h₁ : 1 ≤ start) (hs : start ≤ stop)
    (hstop : stop ≤ l.length) (hafter : after ≤ l.length) (hout : ¬(start ≤ after ∧ after < stop)) :
    Carries (fun n => some (Window.moveRule start stop after n)) l (move l start stop after) := by
  intro n k hn₁ hn hk
  obtain rfl := Option.some.inj hk
  generalize hplace : (if stop ≤ after then after - (stop - start + 1) else after) = place
  have hrun := length_run l h₁ hs hstop
  have hfit : start - 1 + (stop - start + 1) ≤ l.length := by omega
  have hrest := length_splice l [] hfit
  rw [List.length_nil, Nat.add_zero] at hrest
  rw [move_eq_splice l h₁ hs, hplace]
  refine ⟨(Window.carried_within h₁ hs hstop hafter hn₁ hn).1, ?_⟩
  by_cases hin : start ≤ n ∧ n ≤ stop
  · -- a line of the run is found in what is put in again
    have hto : Window.moveRule start stop after n - 1 = place + (n - start) := by
      unfold Window.moveRule
      simp only [Bool.and_eq_true, decide_eq_true_eq, if_pos hin]
      split <;> split at hplace <;> omega
    have hspot : place ≤ (splice l (start - 1) (stop - start + 1) []).length := by
      split at hplace <;> omega
    rw [hto, getElem?_splice_new _ hspot (by omega), getElem?_run l h₁ hin.1 hin.2]
  · -- another line stays where it is when the run is taken out, and when it is put in again
    have hout₁ : Window.spliceRule (start - 1) (stop - start + 1) ([] : List α).length n =
        some (if n < start then n else n - (stop - start + 1)) := by
      unfold Window.spliceRule
      rw [List.length_nil]
      split
      · rw [if_pos (by omega)]
      · rw [if_neg (by omega), if_neg (by omega), Nat.add_zero]
    have hin₂ : Window.spliceRule place 0 (run l start stop).length
        (if n < start then n else n - (stop - start + 1)) =
          some (Window.moveRule start stop after n) := by
      unfold Window.spliceRule Window.moveRule
      simp only [Bool.and_eq_true, decide_eq_true_eq, if_neg hin, hrun]
      split at hplace <;> grind
    have hspot : place + 0 ≤ (splice l (start - 1) (stop - start + 1) []).length := by
      split at hplace <;> omega
    have hthere : (if n < start then n else n - (stop - start + 1)) ≤
        (splice l (start - 1) (stop - start + 1) []).length := by
      rw [hrest]
      split <;> omega
    obtain ⟨hpos, hfirst⟩ := carries_splice l [] hfit n _ hn₁ hn hout₁
    obtain ⟨-, hlast⟩ := carries_splice _ (run l start stop) hspot _ _ hpos hthere hin₂
    rw [hlast, hfirst]

end

end Sequence

/-! ## Old places of lines -/

namespace Origins

/-- The places of the lines of a text to which nothing has been done yet. -/
def fresh (size : Nat) : Origins := (List.range size).map some

@[simp] theorem length_fresh (size : Nat) : (fresh size).length = size := by
  rw [fresh, List.length_map, List.length_range]

theorem getElem?_fresh {size i : Nat} (hi : i < size) : (fresh size)[i]? = some (some i) := by
  rw [fresh, List.getElem?_map, List.getElem?_range hi, Option.map_some]

theorem count_fresh_le (size i : Nat) : (fresh size).count (some i) ≤ 1 :=
  List.nodup_iff_count_le_one.mp (List.nodup_range.map (Option.some_injective Nat)) _

theorem lt_of_mem_fresh {size i : Nat} (h : some i ∈ fresh size) : i < size := by
  obtain ⟨j, hj, heq⟩ := List.mem_map.mp h
  cases heq
  exact List.mem_range.mp hj

/-- The origins are those of a text with `size` lines to which something was done that takes line
`n` to line `rule n`. -/
structure Told (o : Origins) (size : Nat) (rule : Nat → Option Nat) : Prop where
  carries : Sequence.Carries rule (fresh size) o
  gone : ∀ n, 1 ≤ n → n ≤ size → rule n = none → some (n - 1) ∉ o
  count_le : ∀ i, o.count (some i) ≤ 1
  old : ∀ i, some i ∈ o → i < size

theorem told_splice {size start remove : Nat} (added : Nat) (hfit : start + remove ≤ size) :
    Told (Sequence.splice (fresh size) start remove (List.replicate added none)) size
      (Window.spliceRule start remove added) where
  carries := by
    have h := Sequence.carries_splice (fresh size) (List.replicate added none)
      (by rwa [length_fresh])
    rwa [List.length_replicate] at h
  gone n h₁ hn hgone hmem := by
    have hrange : start < n ∧ n ≤ start + remove := by
      unfold Window.spliceRule at hgone
      split at hgone
      · cases hgone
      · split at hgone
        · omega
        · cases hgone
    unfold Sequence.splice at hmem
    rcases List.mem_append.mp hmem with hmem | hback
    · rcases List.mem_append.mp hmem with hfront | hnew
      · obtain ⟨i, hi, heq⟩ := List.mem_take_iff_getElem.mp hfront
        rw [length_fresh] at hi
        simp only [fresh, List.getElem_map, List.getElem_range, Option.some.injEq] at heq
        omega
      · cases List.eq_of_mem_replicate hnew
    · obtain ⟨i, hi, heq⟩ := List.mem_drop_iff_getElem.mp hback
      simp only [fresh, List.getElem_map, List.getElem_range, Option.some.injEq] at heq
      omega
  count_le i := by
    refine Nat.le_trans (Sequence.countP_splice_le (· == some i) _ _ _ fun x hx => ?_)
      (count_fresh_le size i)
    cases List.eq_of_mem_replicate hx
    rfl
  old i hi := by
    rcases Sequence.mem_splice hi with h | h
    · exact lt_of_mem_fresh h
    · cases List.eq_of_mem_replicate h

theorem told_move {size start stop after : Nat} (h₁ : 1 ≤ start) (hs : start ≤ stop)
    (hstop : stop ≤ size) (hafter : after ≤ size) (hout : ¬(start ≤ after ∧ after < stop)) :
    Told (Sequence.move (fresh size) start stop after) size
      fun n => some (Window.moveRule start stop after n) where
  carries := Sequence.carries_move _ h₁ hs (by rwa [length_fresh]) (by rwa [length_fresh]) hout
  gone n _ _ hgone := by cases hgone
  count_le i := by
    rw [(Sequence.move_perm (fresh size) h₁ hs after).count_eq]
    exact count_fresh_le size i
  old i hi := lt_of_mem_fresh ((Sequence.move_perm (fresh size) h₁ hs after).mem_iff.mp hi)

section
variable {o : Origins} {size : Nat} {rule : Nat → Option Nat}

theorem Told.gone_iff (h : o.Told size rule) {i : Nat} (hi : i < size) :
    rule (i + 1) = none ↔ some i ∉ o := by
  refine ⟨h.gone (i + 1) (by omega) hi, fun hnot => ?_⟩
  cases hrule : rule (i + 1) with
  | none => rfl
  | some m =>
    obtain ⟨-, hm⟩ := h.carries (i + 1) m (by omega) (by rwa [length_fresh]) hrule
    rw [Nat.add_sub_cancel, getElem?_fresh hi] at hm
    exact absurd (List.mem_of_getElem? hm) hnot

/-- An old line is on the line to which the rule takes it, and on no other. -/
theorem Told.place_iff (h : o.Told size rule) {i : Nat} (hi : i < size) (k : Nat) :
    rule (i + 1) = some (k + 1) ↔ o[k]? = some (some i) := by
  have hto {m : Nat} (hm : rule (i + 1) = some m) : 1 ≤ m ∧ o[m - 1]? = some (some i) := by
    obtain ⟨hpos, hm⟩ := h.carries (i + 1) m (by omega) (by rwa [length_fresh]) hm
    rw [Nat.add_sub_cancel, getElem?_fresh hi] at hm
    exact ⟨hpos, hm⟩
  refine ⟨fun hrule => (hto hrule).2, fun hk => ?_⟩
  cases hrule : rule (i + 1) with
  | none => exact absurd (List.mem_of_getElem? hk) ((h.gone_iff hi).mp hrule)
  | some m =>
    obtain ⟨hpos, hm⟩ := hto hrule
    have hmk : m - 1 = k := Sequence.place_unique (h.count_le i) hm hk
    rw [show m = k + 1 by omega]

/-- What is done to the lines in the same way is told of by the origins. -/
theorem Told.getElem?_eq {α : Type} {l l' : List α} (h : o.Told l.length rule)
    (hl : Sequence.Carries rule l l') {i k : Nat} (hk : o[k]? = some (some i)) : l'[k]? = l[i]? := by
  have hi : i < l.length := h.old i (List.mem_of_getElem? hk)
  have hrule : rule (i + 1) = some (k + 1) := (h.place_iff hi k).mpr hk
  exact (hl (i + 1) (k + 1) (by omega) hi hrule).2

end

end Origins

/-- A row that a window shows is read off it. -/
theorem Shows.text? {w w' : Window} {p p' : Pool} {m : Multiset (Handle × Option Suffix)}
    {rows : List Row} (h : Shows w p m rows w' p') {i : Nat} {row : Row} (hi : rows[i]? = some row) :
    w'.text? p' (i + 1) = .ok (some row.text) := by
  rw [← h.rows_eq, Pool.rows, List.getElem?_map] at hi
  obtain ⟨x, hx, rfl⟩ := Option.map_eq_some_iff.mp hi
  have hmem : x.content ∈ w'.lines.contents + m :=
    Multiset.mem_add.mpr (.inl (LineMap.mem_contents.mpr ⟨x, List.mem_of_getElem? hx, rfl⟩))
  obtain ⟨text, hget, htext⟩ := h.accounts.get hmem
  have hentry : w'.entry? (i + 1) = some x := hx
  unfold Window.text?
  rw [hentry]
  dsimp only
  rw [hget, Pool.row, htext]
  rfl

namespace Window

/-- Lines of `w'` of which `origins` tell an old place are those lines of `w`, and a label names the
line of which they tell its old place, or is unset if they tell it of none. Only on line `held` do
labels stay whatever has become of it. -/
structure Follows (w w' : Window) (origins : Origins) (held : Option Nat) : Prop where
  length_eq : origins.length = w'.dol
  lines_eq : ∀ i k : Nat, origins[k]? = some (some i) → w'.lines[k]? = w.lines[i]?
  unset : ∀ name, w.labels.get? name = none → w'.labels.get? name = none
  names_iff : ∀ name i, w.labels.get? name = some (i + 1) → held ≠ some (i + 1) →
    ∀ k : Nat, w'.labels.get? name = some (k + 1) ↔ origins[k]? = some (some i)
  gone_iff : ∀ name i, w.labels.get? name = some (i + 1) → held ≠ some (i + 1) →
    (w'.labels.get? name = none ↔ some i ∉ origins)
  held_eq : ∀ name n, w.labels.get? name = some n → held = some n → w'.labels.get? name = some n

section
variable {w w' : Window} {origins : Origins}

/-- Where dot is makes no difference. -/
theorem Follows.setDot {held : Option Nat} (h : w.Follows w' origins held) (n : Nat) :
    w.Follows (w'.setDot n) origins held :=
  ⟨h.length_eq, h.lines_eq, h.unset, h.names_iff, h.gone_iff, h.held_eq⟩

theorem follows_remap {rule : Nat → Option Nat} (hw : w.Consistent) (ho : origins.Told w.dol rule)
    (hlen : origins.length = w'.dol) (hlines : Sequence.Carries rule w.lines w'.lines)
    (hlabels : w'.labels = w.labels.remap rule) : w.Follows w' origins none := by
  have hlabel (name : Char) : w'.labels.get? name = (w.labels.get? name).bind rule := by
    rw [hlabels, Labels.get?_remap]
  have hset {name : Char} {i : Nat} (hn : w.labels.get? name = some (i + 1)) : i < w.dol ∧
      w'.labels.get? name = rule (i + 1) := by
    rw [hlabel, hn]
    exact ⟨(hw.labels_within name _ hn).2, rfl⟩
  refine ⟨hlen, fun i k => ho.getElem?_eq hlines, fun name hn => ?_, fun name i hn _ k => ?_,
    fun name i hn _ => ?_, fun _ _ _ hheld => by cases hheld⟩
  · rw [hlabel, hn]
    rfl
  · rw [(hset hn).2]
    exact ho.place_iff (hset hn).1 k
  · rw [(hset hn).2]
    exact ho.gone_iff (hset hn).1

theorem follows_splice (hw : w.Consistent) {start remove : Nat} (hfit : start + remove ≤ w.dol)
    {insert : List Entry} {added : Nat} (hadded : insert.length = added) :
    w.Follows (w.splice start remove insert)
      (Sequence.splice (Origins.fresh w.dol) start remove (List.replicate added none)) none := by
  subst hadded
  refine follows_remap hw (Origins.told_splice _ hfit) ?_
    (Sequence.carries_splice w.lines insert hfit) rfl
  rw [dol_splice insert hfit, Sequence.length_splice _ _ (by rwa [Origins.length_fresh]),
    Origins.length_fresh, List.length_replicate]

theorem follows_move (hw : w.Consistent) {start stop after : Nat} (h₁ : 1 ≤ start)
    (hs : start ≤ stop) (hstop : stop ≤ w.dol) (hafter : after ≤ w.dol)
    (hout : ¬(start ≤ after ∧ after < stop)) : w.Follows (w.move start stop after)
      (Sequence.move (Origins.fresh w.dol) start stop after) none := by
  have hlines : (w.move start stop after).lines = Sequence.move w.lines start stop after :=
    w.lines.relocate_eq_move h₁ hs hstop hout
  have hdol : (w.move start stop after).dol = w.dol :=
    (congrArg List.length hlines).trans (Sequence.move_perm w.lines h₁ hs after).length_eq
  refine follows_remap hw (Origins.told_move h₁ hs hstop hafter hout) ?_ ?_ rfl
  · rw [hdol, (Sequence.move_perm _ h₁ hs after).length_eq, Origins.length_fresh]
  · rw [hlines]
    exact Sequence.carries_move w.lines h₁ hs hstop hafter hout

/-- Labels of line `n` that are put on it again stay there; the others are as they were. -/
theorem Follows.hold (h : w.Follows w' origins none) (n : Nat) :
    w.Follows { w' with labels := w'.labels.hold w.labels n } origins (some n) := by
  have hother {name : Char} {m : Nat} (hm : w.labels.get? name = some m) (hne : some n ≠ some m) :
      (w'.labels.hold w.labels n).get? name = w'.labels.get? name := by
    rw [Labels.get?_hold, hm, if_neg hne.symm]
  refine ⟨h.length_eq, h.lines_eq, fun name hn => ?_, fun name i hn hne k => ?_,
    fun name i hn hne => ?_, fun name m hm heq => ?_⟩
  · rw [Labels.get?_hold, hn, if_neg (by simp)]
    exact h.unset name hn
  · rw [hother hn hne]
    exact h.names_iff name i hn (by simp) k
  · rw [hother hn hne]
    exact h.gone_iff name i hn (by simp)
  · rw [Labels.get?_hold, hm, if_pos heq.symm, heq]

end

theorem replaceLines_follows {w w' : Window} {p p' : Pool} (hw : w.Consistent) {start stop : Nat}
    {lines : List Bytes} (h : w.replaceLines p start stop lines = .ok (w', p')) :
    w.Follows w' (Sequence.splice (Origins.fresh w.dol) (start - 1) (stop - start + 1)
      (List.replicate lines.length none)) none := by
  cases lines with
  | nil =>
    obtain ⟨hin, rfl⟩ := deleteLines_eq_ok h
    exact (follows_splice hw hin rfl).setDot _
  | cons line rest =>
    obtain ⟨new, hlen, -, hin, rfl⟩ := replaceLines_eq_ok (List.cons_ne_nil line rest) h
    exact (follows_splice hw hin hlen).setDot _

/-- The operations that change the lines of a window. -/
inductive Operation where
  | splice (start remove : Nat) (entries : List Entry)
  | insertLines (after : Nat) (lines : List Bytes)
  | insertEntries (after : Nat) (entries : List (Bytes × Option Suffix))
  | deleteLines (start stop : Nat)
  | replaceLines (start stop : Nat) (lines : List Bytes)
  | rewriteLine (n : Nat) (lines : List Bytes)
  | copyLines (start stop after : Nat)
  | moveLines (start stop after : Nat)
  deriving Repr, DecidableEq

namespace Operation

def perform (w : Window) (p : Pool) : Operation → Except Breach (Window × Pool)
  | splice start remove entries => do
    let (w, p, _) ← w.exchange p start remove entries
    return (w, p)
  | insertLines after lines => w.insertLines p after lines
  | insertEntries after entries => w.insertEntries p after entries
  | deleteLines start stop => w.deleteLines p start stop
  | replaceLines start stop lines => w.replaceLines p start stop lines
  | rewriteLine n lines => w.reviseLine p n lines
  | copyLines start stop after => w.copyLines p start stop after
  | moveLines start stop after => return (← w.moveLines start stop after, p)

/-- The lines of the operation are lines of a text with `size` lines, its places lie in that text,
and lines are not moved into themselves. -/
def Fits (size : Nat) : Operation → Prop
  | splice start remove _ => start + remove ≤ size
  | insertLines after _ | insertEntries after _ => after ≤ size
  | deleteLines start stop | replaceLines start stop _ => 1 ≤ start ∧ start ≤ stop ∧ stop ≤ size
  | rewriteLine n _ => 1 ≤ n ∧ n ≤ size
  | copyLines start stop after => 1 ≤ start ∧ start ≤ stop ∧ stop ≤ size ∧ after ≤ size
  | moveLines start stop after =>
    1 ≤ start ∧ start ≤ stop ∧ stop ≤ size ∧ after ≤ size ∧ ¬(start ≤ after ∧ after < stop)

instance (size : Nat) : (op : Operation) → Decidable (op.Fits size)
  | splice start remove _ => inferInstanceAs (Decidable (start + remove ≤ size))
  | insertLines after _ | insertEntries after _ => inferInstanceAs (Decidable (after ≤ size))
  | deleteLines start stop | replaceLines start stop _ =>
    inferInstanceAs (Decidable (1 ≤ start ∧ start ≤ stop ∧ stop ≤ size))
  | rewriteLine n _ => inferInstanceAs (Decidable (1 ≤ n ∧ n ≤ size))
  | copyLines start stop after =>
    inferInstanceAs (Decidable (1 ≤ start ∧ start ≤ stop ∧ stop ≤ size ∧ after ≤ size))
  | moveLines start stop after =>
    inferInstanceAs (Decidable (1 ≤ start ∧ start ≤ stop ∧ stop ≤ size ∧ after ≤ size ∧
      ¬(start ≤ after ∧ after < stop)))

/-- What the operation is given that is in the pool already. -/
def brought : Operation → Multiset (Handle × Option Suffix)
  | splice _ _ entries => LineMap.contents entries
  | _ => 0

/-- For each line after the operation, its place in the text with `size` lines before it. -/
def origins (size : Nat) : Operation → Origins
  | splice start remove entries =>
    Sequence.splice (Origins.fresh size) start remove (List.replicate entries.length none)
  | insertLines after lines =>
    Sequence.splice (Origins.fresh size) after 0 (List.replicate lines.length none)
  | insertEntries after entries =>
    Sequence.splice (Origins.fresh size) after 0 (List.replicate entries.length none)
  | deleteLines start stop => Sequence.splice (Origins.fresh size) (start - 1) (stop - start + 1) []
  | replaceLines start stop lines =>
    Sequence.splice (Origins.fresh size) (start - 1) (stop - start + 1)
      (List.replicate lines.length none)
  | rewriteLine n lines =>
    Sequence.splice (Origins.fresh size) (n - 1) 1 (List.replicate lines.length none)
  | copyLines start stop after =>
    Sequence.splice (Origins.fresh size) after 0 (List.replicate (stop - start + 1) none)
  | moveLines start stop after => Sequence.move (Origins.fresh size) start stop after

/-- The line that is rewritten and does not vanish, with its new text. -/
def rewritten? : Operation → Option (Nat × Bytes)
  | rewriteLine n (line :: _) => some (n, line)
  | _ => none

section
variable {w : Window} {p : Pool} {m : Multiset (Handle × Option Suffix)} {op : Operation}

/-- An operation that fits its window is no breach. -/
theorem perform_succeeds (hfit : op.Fits w.dol)
    (ha : p.Accounts (op.brought + (w.lines.contents + m))) :
    Succeeds (op.perform w p) fun _ => True := by
  have hkept : op.brought = 0 → p.Accounts (w.lines.contents + m) :=
    fun hzero => by rwa [hzero, zero_add] at ha
  cases op with
  | splice start remove entries =>
    unfold perform
    simp only [Succeeds.bind_iff, Succeeds.pure_iff]
    exact (exchange_accounts ha hfit).mono fun _ _ => trivial
  | insertLines after lines => exact (insertLines_shows (hkept rfl) hfit lines).mono fun _ _ => trivial
  | insertEntries after entries =>
    exact (insertEntries_shows (hkept rfl) hfit entries).mono fun _ _ => trivial
  | deleteLines start stop =>
    obtain ⟨h₁, hs, hstop⟩ := hfit
    exact (deleteLines_shows h₁ hs hstop (hkept rfl)).mono fun _ _ => trivial
  | replaceLines start stop lines =>
    obtain ⟨h₁, hs, hstop⟩ := hfit
    exact (replaceLines_shows h₁ hs hstop (hkept rfl) lines).mono fun _ _ => trivial
  | rewriteLine n lines =>
    exact (reviseLine_shows (hkept rfl) hfit.1 hfit.2 lines).mono fun _ _ => trivial
  | copyLines start stop after =>
    obtain ⟨h₁, hs, hstop, hafter⟩ := hfit
    exact (copyLines_shows h₁ hs hstop (hkept rfl) hafter).mono fun _ _ => trivial
  | moveLines start stop after =>
    obtain ⟨h₁, hs, hstop, hafter, hout⟩ := hfit
    unfold perform
    simp only [Succeeds.bind_iff, Succeeds.pure_iff]
    exact (moveLines_shows h₁ hs hstop (hkept rfl) hafter hout).mono fun _ _ => trivial

/-- The first of the lines that a line becomes is where that line was. -/
theorem text_rewritten {w' : Window} {p' : Pool} {n : Nat} {line : Bytes} (hfit : op.Fits w.dol)
    (ha : p.Accounts (op.brought + (w.lines.contents + m))) (hn : op.rewritten? = some (n, line))
    (h : op.perform w p = .ok (w', p')) : w'.text? p' n = .ok (some line) := by
  unfold rewritten? at hn
  split at hn
  · rename_i k first rest
    cases hn
    change p.Accounts (0 + _) at ha
    rw [zero_add] at ha
    have hshows := (reviseLine_shows ha hfit.1 hfit.2 (line :: rest)).of_eq h
    have hin : n - 1 ≤ (p.rows w.lines).length := by
      rw [Pool.length_rows]
      exact show n - 1 ≤ w.dol from Nat.le_trans (Nat.sub_le n 1) hfit.2
    have hrow : (Sequence.splice (p.rows w.lines) (n - 1) 1
        ((line :: rest).map Row.plain))[n - 1]? = some (.plain line) :=
      Sequence.getElem?_splice_new _ hin (i := 0) (by simp)
    have htext := hshows.text? hrow
    rwa [Nat.sub_add_cancel hfit.1] at htext
  · cases hn

theorem perform_follows (hw : w.Consistent) (hfit : op.Fits w.dol) {w' : Window} {p' : Pool}
    (h : op.perform w p = .ok (w', p')) :
    w.Follows w' (op.origins w.dol) (op.rewritten?.map Prod.fst) := by
  cases op with
  | splice start remove entries =>
    obtain ⟨⟨w₁, p₁, count⟩, hex, heq⟩ := bind_eq_ok.mp h
    obtain ⟨rfl, -⟩ := exchange_eq_ok hex
    cases heq
    exact follows_splice hw hfit rfl
  | insertLines after lines =>
    obtain ⟨new, hlen, hafter, dot, rfl⟩ := insertEntries_eq_ok h
    rw [List.length_map] at hlen
    exact (follows_splice hw (show after + 0 ≤ w.dol from hafter) hlen).setDot _
  | insertEntries after entries =>
    obtain ⟨new, hlen, hafter, dot, rfl⟩ := insertEntries_eq_ok h
    exact (follows_splice hw (show after + 0 ≤ w.dol from hafter) hlen).setDot _
  | deleteLines start stop =>
    obtain ⟨hin, rfl⟩ := deleteLines_eq_ok h
    exact (follows_splice hw hin rfl).setDot _
  | replaceLines start stop lines => exact replaceLines_follows hw h
  | rewriteLine n lines =>
    have hone : n - n + 1 = 1 := by omega
    cases lines with
    | nil =>
      obtain ⟨⟨w₁, p₁⟩, hrep, heq⟩ := bind_eq_ok.mp h
      have hfollows := replaceLines_follows hw hrep
      rw [hone] at hfollows
      cases heq
      exact hfollows
    | cons line rest =>
      obtain ⟨w₁, hrep, rfl⟩ := reviseLine_eq_ok (List.cons_ne_nil _ _) h
      have hfollows := replaceLines_follows hw hrep
      rw [hone] at hfollows
      exact hfollows.hold n
  | copyLines start stop after =>
    obtain ⟨⟨h₁, hs, hstop⟩, hafter, rfl⟩ := copyLines_eq_ok h
    have hlen : ((Sequence.run w.lines start stop).map Entry.unmark).length = stop - start + 1 := by
      rw [List.length_map, Sequence.length_run w.lines h₁ hs hstop]
    exact (follows_splice hw (show after + 0 ≤ w.dol from hafter) hlen).setDot _
  | moveLines start stop after =>
    obtain ⟨h₁, hs, hstop, hafter, hout⟩ := hfit
    obtain ⟨w₁, hmove, heq⟩ := bind_eq_ok.mp h
    cases heq
    rw [moveLines_eq_ok hmove]
    exact follows_move hw h₁ hs hstop hafter hout

/-- Whatever is done to the lines of a window, its labels stay on their text: the places of lines and
of labels are found in different ways and come to the same. -/
theorem labels_stay_on_lines (hw : w.Consistent) (hfit : op.Fits w.dol)
    (ha : p.Accounts (op.brought + (w.lines.contents + m))) :
    Succeeds (op.perform w p) fun r =>
      w.Follows r.1 (op.origins w.dol) (op.rewritten?.map Prod.fst) ∧
        ∀ n line, op.rewritten? = some (n, line) → r.1.text? r.2 n = .ok (some line) := by
  obtain ⟨⟨w', p'⟩, h, -⟩ := perform_succeeds hfit ha
  exact ⟨(w', p'), h, perform_follows hw hfit h, fun n line hn => text_rewritten hfit ha hn h⟩

end

/-- The last two of four lines go behind the first, and the label on the last goes with it. -/
theorem labels_stay_on_lines_backward :
    let stored := Pool.empty.append [[97], [98], [99], [100]]
    let w : Window := { Window.empty 1 .none with
      dot := 2, lines := .ofHandles stored.1, labels := .put (.put .none 'a' (some 2)) 'z' (some 4) }
    w.Consistent ∧ Succeeds ((moveLines 3 4 1).perform w stored.2) fun r =>
      r.1.labels.get? 'a' = some 4 ∧ r.1.labels.get? 'z' = some 3 ∧
        r.1.labels.get? 'b' = none ∧ r.1.lines[2]? = w.lines[3]? := by
  intro stored w
  have hw : w.Consistent := by
    refine ⟨by decide, by decide, ?_⟩
    exact ((Labels.within_none 4).put 'a' (by simp)).put 'z' (by simp)
  have ha : stored.2.Accounts ((moveLines 3 4 1).brought + (w.lines.contents + 0)) := by
    have hnew : LineMap.handles w.lines = stored.1 := by decide
    have h := (Pool.Accounts.empty.enter [[97], [98], [99], [100]] hnew).1
    exact (zero_add (w.lines.contents + 0)).symm ▸ h
  refine ⟨hw, (labels_stay_on_lines hw (by decide) ha).mono fun r hr => ?_⟩
  exact ⟨(hr.1.names_iff 'a' 1 (by decide) (by decide) 3).mpr (by decide),
    (hr.1.names_iff 'z' 3 (by decide) (by decide) 2).mpr (by decide),
    hr.1.unset 'b' (by decide), hr.1.lines_eq 3 2 (by decide)⟩

end Operation

end Window

end LineEditor
