import LineEditor.Proofs.Rows

/-!
# Origins

Beside the rows of a window stands a list that tells of each where it came from: its place in some
earlier text, or nothing if it was written or copied since. An edit does to this list what it does to
the rows, so no place is ever told of two rows, and a row that tells of its place is the row that
stood there.
-/

namespace LineEditor

/-! ## Edits of any list -/

section
variable {α β : Type}

/-- Items of which some, by number from top to bottom, are replaced by those of new lines. -/
def reviseItems (new : Bytes → α) (l : List α) (shift : Nat) : List (Nat × List Bytes) → List α
  | [] => l
  | (n, lines) :: rest =>
    reviseItems new (Sequence.splice l (n + shift - 1) 1 (lines.map new))
      (shift + (lines.length - 1)) rest

/-- What an edit does to a list with an item for each line: `new` gives the item of a line that it
writes, `copy` that of a copy. -/
def Edit.items (new : Bytes → α) (copy : α → α) (l : List α) : Edit → List α
  | .insert after lines => Sequence.splice l after 0 (lines.map new)
  | .delete start stop => Sequence.splice l (start - 1) (stop - start + 1) []
  | .replace start stop lines => Sequence.splice l (start - 1) (stop - start + 1) (lines.map new)
  | .copy start stop after => Sequence.splice l after 0 ((Sequence.run l start stop).map copy)
  | .move start stop after => Sequence.move l start stop after
  | .revise changes => reviseItems new l 0 changes

variable {new : Bytes → α} {copy : α → α}

theorem map_reviseItems {new' : Bytes → β} {f : α → β} (hnew : ∀ text, f (new text) = new' text)
    (changes : List (Nat × List Bytes)) (l : List α) (shift : Nat) :
    (reviseItems new l shift changes).map f = reviseItems new' (l.map f) shift changes := by
  induction changes generalizing l shift with
  | nil => rfl
  | cons c rest ih =>
    obtain ⟨n, lines⟩ := c
    unfold reviseItems
    rw [ih, Sequence.map_splice, List.map_map]
    exact congrArg (fun g => reviseItems new' (Sequence.splice _ _ _ (lines.map g)) _ rest)
      (funext hnew)

theorem Edit.map_items {new' : Bytes → β} {copy' : β → β} {f : α → β}
    (hnew : ∀ text, f (new text) = new' text) (hcopy : ∀ x, f (copy x) = copy' (f x)) (l : List α)
    (change : Edit) : (change.items new copy l).map f = change.items new' copy' (l.map f) := by
  have hlines (lines : List Bytes) : (lines.map new).map f = lines.map new' := by
    rw [List.map_map]
    exact congrArg (fun g => lines.map g) (funext hnew)
  cases change with
  | insert after lines => rw [items, Sequence.map_splice, hlines, items]
  | delete start stop => exact Sequence.map_splice f l _ _ []
  | replace start stop lines => rw [items, Sequence.map_splice, hlines, items]
  | copy start stop after =>
    have hcopies : ((Sequence.run l start stop).map copy).map f =
        (Sequence.run (l.map f) start stop).map copy' := by
      rw [← Sequence.map_run, List.map_map, List.map_map]
      exact congrArg (fun g => (Sequence.run l start stop).map g) (funext hcopy)
    rw [items, Sequence.map_splice, hcopies, items]
  | move start stop after => exact Sequence.map_move f l start stop after
  | revise changes => exact map_reviseItems hnew changes l 0

theorem countP_reviseItems_le {q : α → Bool} (hnew : ∀ text, q (new text) = false)
    (changes : List (Nat × List Bytes)) (l : List α) (shift : Nat) :
    (reviseItems new l shift changes).countP q ≤ l.countP q := by
  induction changes generalizing l shift with
  | nil => exact Nat.le_refl _
  | cons c rest ih =>
    refine Nat.le_trans (ih _ _) (Sequence.countP_splice_le q l _ _ fun x hx => ?_)
    obtain ⟨text, -, rfl⟩ := List.mem_map.mp hx
    exact hnew text

/-- An edit adds no item of a kind that neither new lines nor copies have. -/
theorem Edit.countP_items_le {q : α → Bool} (hnew : ∀ text, q (new text) = false)
    (hcopy : ∀ x, q (copy x) = false) (l : List α) {change : Edit} {size : Nat}
    (hfit : change.Fits size) : (change.items new copy l).countP q ≤ l.countP q := by
  have hlines (lines : List Bytes) : ∀ x ∈ lines.map new, q x = false := by
    intro x hx
    obtain ⟨text, -, rfl⟩ := List.mem_map.mp hx
    exact hnew text
  cases change with
  | insert after lines => exact Sequence.countP_splice_le q l _ _ (hlines lines)
  | delete start stop => exact Sequence.countP_splice_le q l _ _ fun x hx => by cases hx
  | replace start stop lines => exact Sequence.countP_splice_le q l _ _ (hlines lines)
  | copy start stop after =>
    refine Sequence.countP_splice_le q l _ _ fun x hx => ?_
    obtain ⟨y, -, rfl⟩ := List.mem_map.mp hx
    exact hcopy y
  | move start stop after => exact Nat.le_of_eq ((Sequence.move_perm l hfit.1 hfit.2.1 after).countP_eq q)
  | revise changes => exact countP_reviseItems_le hnew changes l 0

theorem Edit.mem_of_mem_items [DecidableEq α] {l : List α} {change : Edit} {size : Nat}
    (hfit : change.Fits size) {y : α} (hnew : ∀ text, new text ≠ y) (hcopy : ∀ x, copy x ≠ y)
    (hy : y ∈ change.items new copy l) : y ∈ l := by
  have hle : (change.items new copy l).count y ≤ l.count y :=
    countP_items_le (q := (· == y)) (fun text => beq_false_of_ne (hnew text))
      (fun x => beq_false_of_ne (hcopy x)) l hfit
  exact List.count_pos_iff.mp (Nat.lt_of_lt_of_le (List.count_pos_iff.mpr hy) hle)

end

theorem Window.reviseRows_eq_items (changes : List (Nat × List Bytes)) (rows : List Row) (shift : Nat) :
    reviseRows rows shift changes = reviseItems Row.plain rows shift changes := by
  induction changes generalizing rows shift with
  | nil => rfl
  | cons c rest ih => exact ih _ _

theorem Edit.rows_eq_items (rows : List Row) (change : Edit) :
    change.rows rows = change.items Row.plain Row.unmark rows := by
  cases change with
  | revise changes => exact Window.reviseRows_eq_items changes rows 0
  | _ => rfl

/-- An edit marks nothing. -/
theorem Edit.countP_marked_le (rows : List Row) {change : Edit} {size : Nat} (hfit : change.Fits size) :
    (change.rows rows).countP Row.marked ≤ rows.countP Row.marked := by
  rw [rows_eq_items]
  exact countP_items_le (fun _ => rfl) (fun _ => rfl) rows hfit

/-! ## Places told of rows -/

/-- For each line its place in an earlier text, or nothing if it was not there. -/
abbrev Origins := List (Option Nat)

/-- What an edit does to origins: what it writes or copies was not there before. -/
def Edit.origins (origins : Origins) (change : Edit) : Origins :=
  change.items (fun _ => none) (fun _ => none) origins

theorem Edit.zip_origins {rows : List Row} {origins : Origins} (hlen : origins.length = rows.length)
    (change : Edit) :
    (change.rows rows).zip (change.origins origins) =
      change.items (fun text => (Row.plain text, none)) (fun y => (y.1.unmark, none))
        (rows.zip origins) ∧
    (change.origins origins).length = (change.rows rows).length := by
  generalize hzip : change.items (fun text => (Row.plain text, none)) (fun y => (y.1.unmark, none))
    (rows.zip origins) = zipped
  have hrows : zipped.map Prod.fst =
      change.items Row.plain Row.unmark ((rows.zip origins).map Prod.fst) :=
    hzip ▸ map_items (f := Prod.fst) (fun _ => rfl) (fun _ => rfl) _ change
  have horigins : zipped.map Prod.snd =
      change.items (fun _ => none) (fun _ => none) ((rows.zip origins).map Prod.snd) :=
    hzip ▸ map_items (f := Prod.snd) (fun _ => rfl) (fun _ => rfl) _ change
  rw [List.map_fst_zip (Nat.le_of_eq hlen.symm), ← rows_eq_items] at hrows
  rw [List.map_snd_zip (Nat.le_of_eq hlen)] at horigins
  change zipped.map Prod.snd = change.origins origins at horigins
  refine ⟨(List.zip_of_prod hrows horigins).symm, ?_⟩
  rw [← hrows, ← horigins, List.length_map, List.length_map]

/-- The rows and their origins come of the rows `start`, whose places in `handed` have lost their
marks. No place is told of two rows, and a row of which none is told has no mark. -/
structure Tracks (start : List Row) (handed : List Nat) (rows : List Row) (origins : Origins) :
    Prop where
  length_eq : origins.length = rows.length
  count_le : ∀ i, origins.count (some i) ≤ 1
  known : ∀ y ∈ rows.zip origins, ∀ i, y.2 = some i →
    ∃ x, start[i]? = some x ∧ y.1 = if i ∈ handed then x.unmark else x
  fresh : ∀ y ∈ rows.zip origins, y.2 = none → y.1.marked = false

namespace Tracks

section
variable {start rows : List Row} {handed : List Nat} {origins : Origins}

theorem refl (rows : List Row) : Tracks rows [] rows ((List.range rows.length).map some) where
  length_eq := by simp
  count_le i := by
    have hnodup : ((List.range rows.length).map some).Nodup :=
      List.nodup_range.map (Option.some_injective Nat)
    exact List.nodup_iff_count_le_one.mp hnodup _
  known y hy i hi := by
    obtain ⟨j, hj⟩ := List.mem_iff_getElem?.mp hy
    obtain ⟨hrow, horigin⟩ := List.getElem?_zip_eq_some.mp hj
    rw [List.getElem?_map, hi] at horigin
    obtain ⟨k, hk, hki⟩ := Option.map_eq_some_iff.mp horigin
    cases hki
    obtain ⟨-, rfl⟩ := List.getElem?_eq_some_iff.mp hk
    rw [List.getElem_range]
    exact ⟨y.1, hrow, by simp⟩
  fresh y hy hnone := by
    obtain ⟨-, hmem⟩ := List.of_mem_zip hy
    rw [hnone] at hmem
    obtain ⟨_, _, hi⟩ := List.mem_map.mp hmem
    cases hi

theorem edit (h : Tracks start handed rows origins) {change : Edit} {size : Nat}
    (hfit : change.Fits size) :
    Tracks start handed (change.rows rows) (change.origins origins) := by
  obtain ⟨hzip, hlen⟩ := change.zip_origins h.length_eq
  refine ⟨hlen, fun i => ?_, fun y hy i hi => ?_, fun y hy hnone => ?_⟩
  · have hle : (change.origins origins).count (some i) ≤ origins.count (some i) :=
      Edit.countP_items_le (fun _ => rfl) (fun _ => rfl) origins hfit
    exact Nat.le_trans hle (h.count_le i)
  · rw [hzip] at hy
    have hmade (r : Row) : (r, (none : Option Nat)) ≠ y := by
      rintro rfl
      cases hi
    exact h.known y (Edit.mem_of_mem_items hfit (fun _ => hmade _) (fun _ => hmade _) hy) i hi
  · rw [hzip] at hy
    have hzero : (rows.zip origins).countP (fun z => z.2.isNone && z.1.marked) = 0 := by
      refine List.countP_eq_zero.mpr fun z hz => ?_
      cases hz2 : z.2 with
      | none => simp [h.fresh z hz hz2]
      | some i => simp
    have hle : (change.items (fun text => (Row.plain text, none)) (fun z => (z.1.unmark, none))
        (rows.zip origins)).countP (fun z => z.2.isNone && z.1.marked) ≤ 0 :=
      hzero ▸ Edit.countP_items_le (fun _ => rfl) (fun _ => rfl) _ hfit
    have hnot := List.countP_eq_zero.mp (Nat.le_zero.mp hle) y hy
    simpa [hnone] using hnot

/-- A marked row stood among the first ones, had its mark there and has not been handed out. -/
theorem origin_of_marked (h : Tracks start handed rows origins) {k : Nat} {row : Row}
    (hrow : rows[k]? = some row) (hm : row.marked = true) :
    ∃ i, origins[k]? = some (some i) ∧ i ∉ handed ∧ start[i]? = some row := by
  obtain ⟨hk, -⟩ := List.getElem?_eq_some_iff.mp hrow
  have hk' : k < origins.length := h.length_eq ▸ hk
  have hzip : (rows.zip origins)[k]? = some (row, origins[k]) :=
    List.getElem?_zip_eq_some.mpr ⟨hrow, List.getElem?_eq_getElem hk'⟩
  have hmem := List.mem_of_getElem? hzip
  cases hi : origins[k] with
  | none =>
    have hfresh := h.fresh _ hmem hi
    rw [hm] at hfresh
    cases hfresh
  | some i =>
    obtain ⟨x, hx, heq⟩ := h.known _ hmem i hi
    by_cases hh : i ∈ handed
    · rw [if_pos hh] at heq
      change row = x.unmark at heq
      rw [heq] at hm
      cases hm
    · rw [if_neg hh] at heq
      change row = x at heq
      subst heq
      exact ⟨i, by rw [List.getElem?_eq_getElem hk', hi], hh, hx⟩

/-- A row is handed out: it loses its mark, and no other row is of its place. -/
theorem hand (h : Tracks start handed rows origins) {k i : Nat} (hi : origins[k]? = some (some i)) :
    Tracks start (i :: handed) (Sequence.update rows (k + 1) Row.unmark) origins := by
  have hupdate (j : Nat) : (Sequence.update rows (k + 1) Row.unmark)[j]? =
      (rows[j]?).map fun r => if k = j then r.unmark else r := List.getElem?_modify _ _ _ _
  refine ⟨h.length_eq.trans (Sequence.length_update rows _ _).symm, h.count_le, ?_, ?_⟩
  · intro y hy n hn
    obtain ⟨j, hj⟩ := List.mem_iff_getElem?.mp hy
    obtain ⟨hyrow, hyorigin⟩ := List.getElem?_zip_eq_some.mp hj
    rw [hupdate] at hyrow
    obtain ⟨r, hr, hry⟩ := Option.map_eq_some_iff.mp hyrow
    have hmem : (r, y.2) ∈ rows.zip origins :=
      List.mem_of_getElem? (List.getElem?_zip_eq_some.mpr ⟨hr, hyorigin⟩)
    obtain ⟨x, hx, hrx⟩ := h.known _ hmem n hn
    rw [hn] at hyorigin
    refine ⟨x, hx, ?_⟩
    by_cases hkj : k = j
    · -- the row that was handed out has no mark now, whether or not it had one
      subst hkj
      have hni : n = i := Option.some.inj (Option.some.inj (hyorigin.symm.trans hi))
      rw [if_pos rfl] at hry
      rw [← hry, hni, if_pos List.mem_cons_self]
      dsimp only at hrx
      rw [hrx]
      split <;> rfl
    · have hni : n ≠ i := by
        rintro rfl
        exact hkj (Sequence.place_unique (h.count_le n) hi hyorigin)
      rw [if_neg hkj] at hry
      rw [← hry]
      simpa [hni] using hrx
  · intro y hy hnone
    obtain ⟨j, hj⟩ := List.mem_iff_getElem?.mp hy
    obtain ⟨hyrow, hyorigin⟩ := List.getElem?_zip_eq_some.mp hj
    rw [hupdate] at hyrow
    obtain ⟨r, hr, hry⟩ := Option.map_eq_some_iff.mp hyrow
    have hmem : (r, y.2) ∈ rows.zip origins :=
      List.mem_of_getElem? (List.getElem?_zip_eq_some.mpr ⟨hr, hyorigin⟩)
    have hkj : k ≠ j := by
      rintro rfl
      rw [hi, hnone] at hyorigin
      cases hyorigin
    rw [if_neg hkj] at hry
    rw [← hry]
    exact h.fresh _ hmem hnone

/-- When no row has a mark, the marked rows that were not handed out are gone. -/
theorem handed_or_gone (h : Tracks start handed rows origins) (hrows : ∀ row ∈ rows, row.marked = false)
    {i : Nat} {row : Row} (hi : start[i]? = some row) (hm : row.marked = true) :
    i ∈ handed ∨ some i ∉ origins := by
  by_cases hh : i ∈ handed
  · exact .inl hh
  · refine .inr fun hmem => ?_
    obtain ⟨j, hj⟩ := List.mem_iff_getElem?.mp hmem
    obtain ⟨hlt, -⟩ := List.getElem?_eq_some_iff.mp hj
    have hlt' : j < rows.length := h.length_eq ▸ hlt
    have hzip : (rows[j], some i) ∈ rows.zip origins :=
      List.mem_of_getElem? (List.getElem?_zip_eq_some.mpr ⟨List.getElem?_eq_getElem hlt', hj⟩)
    obtain ⟨x, hx, heq⟩ := h.known _ hzip i rfl
    rw [if_neg hh] at heq
    dsimp only at heq
    rw [hi] at hx
    cases hx
    have hnot := hrows _ (List.getElem_mem hlt')
    rw [heq, hm] at hnot
    cases hnot

end

end Tracks

end LineEditor
