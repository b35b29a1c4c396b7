import LineEditor.Buffer.LineMap
import Mathlib.Data.List.Basic

/-!
# Sequences of lines

What editing does to the lines of a text is the same whatever a line is taken to be: an entry of a
map, a text with its suffix, or only a name by which the line is followed. The operations are given
here for lists of anything, with lines numbered from 1, and those of line maps are instances.
-/

namespace LineEditor.Sequence

variable {α β : Type}

/-- The list with `remove` items behind the first `start` replaced. -/
def splice (l : List α) (start remove : Nat) (insert : List α) : List α :=
  l.take start ++ insert ++ l.drop (start + remove)

/-- Lines `start` to `stop`. -/
def run (l : List α) (start stop : Nat) : List α := (l.drop (start - 1)).take (stop - start + 1)

/-- The list with lines `start` to `stop` taken out and put behind line `after`, which is not one of
them or is the last. -/
def move (l : List α) (start stop after : Nat) : List α :=
  let rest := l.take (start - 1) ++ l.drop stop
  let place := if stop ≤ after then after - (stop - start + 1) else after
  rest.take place ++ run l start stop ++ rest.drop place

/-- The list with the line `n` changed. -/
def update (l : List α) (n : Nat) (f : α → α) : List α :=
  match n with
  | 0 => l
  | i + 1 => l.modify i f

section
variable (f : α → β)

theorem map_splice (l : List α) (start remove : Nat) (insert : List α) :
    (splice l start remove insert).map f = splice (l.map f) start remove (insert.map f) := by
  simp only [splice, List.map_append, List.map_take, List.map_drop]

theorem map_run (l : List α) (start stop : Nat) :
    (run l start stop).map f = run (l.map f) start stop := by
  simp only [run, List.map_take, List.map_drop]

theorem map_move (l : List α) (start stop after : Nat) :
    (move l start stop after).map f = move (l.map f) start stop after := by
  simp only [move, List.map_append, List.map_take, List.map_drop, map_run]

theorem map_update {g : α → α} {g' : β → β} (h : ∀ a, f (g a) = g' (f a)) (l : List α) (n : Nat) :
    (update l n g).map f = update (l.map f) n g' := by
  cases n with
  | zero => rfl
  | succ i =>
    refine List.ext_getElem? fun j => ?_
    simp only [update, List.getElem?_map, List.getElem?_modify]
    cases l[j]? with
    | none => rfl
    | some a =>
      by_cases hj : i = j
      · simp [hj, h]
      · simp [hj]

end

theorem update_id (l : List α) (n : Nat) : update l n id = l := by
  cases n with
  | zero => rfl
  | succ i => exact List.modify_id i l

theorem length_update (l : List α) (n : Nat) (f : α → α) : (update l n f).length = l.length := by
  cases n with
  | zero => rfl
  | succ i => exact List.length_modify _ _ _

theorem update_middle (front back : List α) (x : α) (f : α → α) :
    update (front ++ x :: back) (front.length + 1) f = front ++ f x :: back := by
  have hlt : front.length < (front ++ x :: back).length := by simp
  show (front ++ x :: back).modify front.length f = _
  rw [List.modify_eq_take_cons_drop hlt]
  simp

theorem splice_middle (front back new : List α) (x : α) :
    splice (front ++ x :: back) front.length 1 new = front ++ new ++ back := by
  simp [splice, List.drop_append]

theorem length_splice (l : List α) {start remove : Nat} (insert : List α)
    (hfit : start + remove ≤ l.length) :
    (splice l start remove insert).length = l.length - remove + insert.length := by
  simp only [splice, List.length_append, List.length_take, List.length_drop]
  omega

/-- Behind what was replaced, the list goes on as before. -/
theorem getElem?_splice_behind (l : List α) {start remove : Nat} (insert : List α)
    (hfit : start + remove ≤ l.length) (i : Nat) :
    (splice l start remove insert)[start + insert.length + i]? = l[start + remove + i]? := by
  have hlen : (l.take start ++ insert).length = start + insert.length := by
    rw [List.length_append, List.length_take]
    omega
  unfold splice
  rw [List.getElem?_append_right (by omega), hlen, Nat.add_sub_cancel_left, List.getElem?_drop]

/-- What stays is in the order it was in. -/
theorem take_append_drop_sublist (l : List α) (start remove : Nat) :
    (l.take start ++ l.drop (start + remove)).Sublist l := by
  have hback : (l.drop (start + remove)).Sublist (l.drop start) := by
    rw [← List.drop_drop]
    exact List.drop_sublist _ _
  have h := (List.Sublist.refl (l.take start)).append hback
  rwa [List.take_append_drop] at h

theorem countP_splice_le (q : α → Bool) (l : List α) (start remove : Nat) {insert : List α}
    (hinsert : ∀ x ∈ insert, q x = false) :
    (splice l start remove insert).countP q ≤ l.countP q := by
  have hnew : insert.countP q = 0 := List.countP_eq_zero.mpr fun x hx => by simp [hinsert x hx]
  have hold : (l.take start ++ l.drop (start + remove)).countP q ≤ l.countP q :=
    (take_append_drop_sublist l start remove).countP_le
  rw [List.countP_append] at hold
  unfold splice
  rw [List.countP_append, List.countP_append, hnew]
  exact hold

theorem countP_update {q : α → Bool} {f : α → α} {l : List α} {k : Nat} {a : α} (hk : l[k]? = some a)
    (ha : q a = true) (hfa : q (f a) = false) :
    (update l (k + 1) f).countP q + 1 = l.countP q := by
  obtain ⟨hlt, rfl⟩ := List.getElem?_eq_some_iff.mp hk
  have hupdate : update l (k + 1) f = l.take k ++ f l[k] :: l.drop (k + 1) :=
    List.modify_eq_take_cons_drop hlt
  have hl : l = l.take k ++ l[k] :: l.drop (k + 1) := by
    rw [List.getElem_cons_drop hlt, List.take_append_drop]
  conv_rhs => rw [hl]
  rw [hupdate, List.countP_append, List.countP_append, List.countP_cons_of_pos ha,
    List.countP_cons_of_neg (by simp [hfa])]
  rfl

/-- An item that occurs once stands at one place. -/
theorem place_unique [BEq α] [LawfulBEq α] {l : List α} {a : α} (hcount : l.count a ≤ 1) {j k : Nat}
    (hj : l[j]? = some a) (hk : l[k]? = some a) : j = k := by
  have hnot {j k : Nat} (hj : l[j]? = some a) (hk : l[k]? = some a) : ¬j < k := by
    intro hlt
    have hfront : a ∈ l.take k := by
      refine List.mem_of_getElem? (i := j) ?_
      rw [List.getElem?_take_of_lt hlt, hj]
    have hback : a ∈ l.drop k := by
      refine List.mem_of_getElem? (i := 0) ?_
      rw [List.getElem?_drop, Nat.add_zero, hk]
    have hsum : l.count a = (l.take k).count a + (l.drop k).count a := by
      rw [← List.count_append, List.take_append_drop]
    have h₁ := List.count_pos_iff.mpr hfront
    have h₂ := List.count_pos_iff.mpr hback
    omega
  have h₁ := hnot hj hk
  have h₂ := hnot hk hj
  omega

theorem mem_splice {l insert : List α} {a : α} {start remove : Nat}
    (h : a ∈ splice l start remove insert) : a ∈ l ∨ a ∈ insert := by
  unfold splice at h
  rcases List.mem_append.mp h with h | h
  · rcases List.mem_append.mp h with h | h
    · exact .inl (List.mem_of_mem_take h)
    · exact .inr h
  · exact .inl (List.mem_of_mem_drop h)

theorem mem_run {l : List α} {a : α} {start stop : Nat} (h : a ∈ run l start stop) : a ∈ l :=
  List.mem_of_mem_drop (List.mem_of_mem_take h)

theorem getElem?_run (l : List α) {start stop n : Nat} (h₁ : 1 ≤ start) (hn : start ≤ n)
    (hstop : n ≤ stop) : (run l start stop)[n - start]? = l[n - 1]? := by
  have hfrom : start - 1 + (n - start) = n - 1 := by omega
  rw [run, List.getElem?_take_of_lt (by omega), List.getElem?_drop, hfrom]

/-- A run and what is behind it. -/
theorem run_append_drop (l : List α) {start stop : Nat} (h₁ : 1 ≤ start) (hs : start ≤ stop) :
    run l start stop ++ l.drop stop = l.drop (start - 1) := by
  have hstop : start - 1 + (stop - start + 1) = stop := by omega
  rw [run, ← hstop, ← List.drop_drop, hstop, List.take_append_drop]

theorem move_perm (l : List α) {start stop : Nat} (h₁ : 1 ≤ start) (hs : start ≤ stop) (after : Nat) :
    (move l start stop after).Perm l := by
  have hrun := run_append_drop l h₁ hs
  have hfront (rest : List α) (place : Nat) :
      (rest.take place ++ run l start stop ++ rest.drop place).Perm (run l start stop ++ rest) := by
    have hswap : (rest.take place ++ run l start stop).Perm (run l start stop ++ rest.take place) :=
      List.perm_append_comm
    have h := hswap.append_right (rest.drop place)
    rwa [List.append_assoc (run l start stop), List.take_append_drop] at h
  refine (hfront _ _).trans ?_
  rw [← List.append_assoc]
  refine (List.perm_append_comm.append_right _).trans ?_
  rw [List.append_assoc, hrun, List.take_append_drop]

end LineEditor.Sequence

namespace LineEditor.LineMap

theorem splice_eq (m : LineMap) (start remove : Nat) (insert : List Entry) :
    m.splice start remove insert = Sequence.splice m start remove insert := rfl

theorem removed_eq_run (m : LineMap) {start : Nat} (stop : Nat) :
    m.removed (start - 1) (stop - start + 1) = Sequence.run m start stop := rfl

/-- Whether the run is carried past the lines before it or past those behind it, it comes to stand
at its place among the others. -/
theorem relocate_eq_move (m : LineMap) {start stop after : Nat} (h₁ : 1 ≤ start) (hs : start ≤ stop)
    (hstop : stop ≤ m.length) (hout : ¬(start ≤ after ∧ after < stop)) :
    m.relocate (start - 1) (stop - start + 1) after = Sequence.move m start stop after := by
  have hend : start - 1 + (stop - start + 1) = stop := by omega
  have hlen : (m.take (start - 1)).length = start - 1 := by
    rw [List.length_take]
    omega
  unfold relocate Sequence.move
  rw [hend]
  dsimp only
  by_cases hle : stop ≤ after
  · have hplace : after - (stop - start + 1) = start - 1 + (after - stop) := by omega
    have hdrop : stop + (after - stop) = after := by omega
    have htake : (m.take (start - 1) ++ m.drop stop).take (start - 1 + (after - stop)) =
        m.take (start - 1) ++ (m.drop stop).take (after - stop) := by
      rw [List.take_append, hlen, Nat.add_sub_cancel_left, List.take_of_length_le (by omega)]
    have hrest : (m.take (start - 1) ++ m.drop stop).drop (start - 1 + (after - stop)) =
        m.drop after := by
      rw [List.drop_append, hlen, Nat.add_sub_cancel_left, List.drop_of_length_le (by omega),
        List.drop_drop, hdrop, List.nil_append]
    rw [if_pos hle, if_pos hle, hplace, htake, hrest]
    rfl
  · have hbefore : after ≤ start - 1 := by omega
    have htake : (m.take (start - 1) ++ m.drop stop).take after = m.take after := by
      rw [List.take_append_of_le_length (by omega), List.take_take, Nat.min_eq_left hbefore]
    have hrest : (m.take (start - 1) ++ m.drop stop).drop after =
        (m.drop after).take (start - 1 - after) ++ m.drop stop := by
      rw [List.drop_append_of_le_length (by omega), List.drop_take]
    rw [if_neg hle, if_neg hle, htake, hrest, List.append_assoc, List.append_assoc, List.append_assoc]
    rfl

end LineEditor.LineMap
