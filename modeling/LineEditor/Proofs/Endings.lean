import LineEditor.Proofs.Leads
import LineEditor.Proofs.Rows

/-!
# The end of the last line

A window notes that its last line has no newline behind it. The note outlives an edit only if the
same line is still the last one, so it is never about a line that it was not made for.
-/

namespace LineEditor

namespace Sequence

section
variable {α : Type} {l : List α}

theorem getLast?_append_drop (front : List α) {n : Nat} (h : n < l.length) :
    (front ++ l.drop n).getLast? = l.getLast? := by
  rw [List.getLast?_append, List.getLast?_drop, if_neg (Nat.not_le.mpr h)]
  cases hl : l.getLast? with
  | none =>
    rw [List.getLast?_eq_none_iff.mp hl] at h
    cases h
  | some a => rfl

theorem getLast?_splice {start remove : Nat} (insert : List α) (h : start + remove < l.length) :
    (splice l start remove insert).getLast? = l.getLast? :=
  getLast?_append_drop _ h

theorem getLast?_move {start stop after : Nat} (h₁ : 1 ≤ start) (hs : start ≤ stop)
    (hstop : stop < l.length) (hafter : after < l.length) (hout : ¬(start ≤ after ∧ after < stop)) :
    (move l start stop after).getLast? = l.getLast? := by
  have hlen : (l.take (start - 1) ++ l.drop stop).length = start - 1 + (l.length - stop) := by
    rw [List.length_append, List.length_take, List.length_drop]
    omega
  unfold move
  dsimp only
  rw [getLast?_append_drop _ ?_, getLast?_append_drop _ hstop]
  split <;> omega

end

end Sequence

namespace Window

/-- As far as flags and the number of lines go, `w'` is `w` with `remove` lines behind the first
`start` replaced by `added` lines. -/
structure Spliced (w w' : Window) (start remove added : Nat) : Prop where
  dol_eq : w'.dol = w.dol - remove + added
  flags_eq : w'.flags = { w.flags with
    noFinalNewline := w.flags.noFinalNewline &&
      !((0 < remove || 0 < added) && w.dol ≤ start + remove) }

section
variable {w w' : Window} {p p' : Pool}

theorem spliced_splice {start remove : Nat} (hfit : start + remove ≤ w.dol) (insert : List Entry) :
    w.Spliced (w.splice start remove insert) start remove insert.length where
  dol_eq := dol_splice insert hfit
  flags_eq := by cases insert <;> rfl

theorem Spliced.ending {start remove added : Nat} (h : w.Spliced w' start remove added)
    (hset : w'.flags.noFinalNewline = true) : w.flags.noFinalNewline = true ∧
      (remove = 0 ∧ added = 0 ∨ start + remove < w.dol) := by
  rw [h.flags_eq] at hset
  simp only [Bool.and_eq_true, Bool.not_eq_true', Bool.and_eq_false_iff, Bool.or_eq_false_iff,
    decide_eq_false_iff_not] at hset
  refine ⟨hset.1, ?_⟩
  omega

theorem Spliced.last {start remove : Nat} {new : List Row} (h : w.Spliced w' start remove new.length)
    {rows : List Row} (hlen : rows.length = w.dol) (hset : w'.flags.noFinalNewline = true) :
    w.flags.noFinalNewline = true ∧
      (Sequence.splice rows start remove new).getLast? = rows.getLast? := by
  obtain ⟨hold, hcase⟩ := h.ending hset
  refine ⟨hold, ?_⟩
  rcases hcase with ⟨rfl, hnone⟩ | hlt
  · rw [List.length_eq_zero_iff.mp hnone]
    simp [Sequence.splice]
  · exact Sequence.getLast?_splice new (hlen ▸ hlt)

theorem exchange_eq_ok {start remove : Nat} {insert : List Entry} {count : Nat}
    (h : w.exchange p start remove insert = .ok (w', p', count)) :
    w' = w.splice start remove insert ∧ start + remove ≤ w.dol := by
  rw [exchange_eq] at h
  obtain ⟨hout, h⟩ := guarded_eq_ok h
  obtain ⟨r, -, heq⟩ := bind_eq_ok.mp h
  cases heq
  exact ⟨rfl, Nat.le_of_not_lt hout⟩

theorem insertEntries_eq_ok {after : Nat} {entries : List (Bytes × Option Suffix)}
    (h : w.insertEntries p after entries = .ok (w', p')) : ∃ new, new.length = entries.length ∧
      after ≤ w.dol ∧ ∃ dot, w' = (w.splice after 0 new).setDot dot := by
  unfold insertEntries at h
  obtain ⟨⟨w₁, p₁, count⟩, hex, heq⟩ := bind_eq_ok.mp h
  obtain ⟨rfl, hfit⟩ := exchange_eq_ok hex
  refine ⟨((p.append (entries.map Prod.fst)).1.zip entries).map
    fun x => { Entry.plain x.1 with suffix := x.2.2 }, ?_, hfit, ?_⟩
  · rw [List.length_map, List.length_zip, Pool.length_append, List.length_map, Nat.min_self]
  · cases heq
    split
    · exact ⟨_, rfl⟩
    · exact ⟨_, rfl⟩

theorem deleteLines_eq_ok {start stop : Nat} (h : w.deleteLines p start stop = .ok (w', p')) :
    start - 1 + (stop - start + 1) ≤ w.dol ∧
      w' = (w.splice (start - 1) (stop - start + 1) []).setDot
        (min start (w.splice (start - 1) (stop - start + 1) []).dol) := by
  unfold deleteLines at h
  obtain ⟨-, h⟩ := guarded_eq_ok h
  obtain ⟨⟨w₁, p₁, count⟩, hex, heq⟩ := bind_eq_ok.mp h
  obtain ⟨rfl, hfit⟩ := exchange_eq_ok hex
  cases heq
  exact ⟨hfit, rfl⟩

theorem replaceLines_eq_ok {start stop : Nat} {lines : List Bytes} (hne : lines ≠ [])
    (h : w.replaceLines p start stop lines = .ok (w', p')) : ∃ new, new.length = lines.length ∧
      1 ≤ start ∧ start - 1 + (stop - start + 1) ≤ w.dol ∧
        w' = (w.splice (start - 1) (stop - start + 1) new).setDot (start - 1 + lines.length) := by
  unfold replaceLines at h
  rw [if_neg (by simpa using hne)] at h
  obtain ⟨hin, h⟩ := guarded_eq_ok h
  obtain ⟨⟨w₁, p₁, count⟩, hex, heq⟩ := bind_eq_ok.mp h
  obtain ⟨rfl, hfit⟩ := exchange_eq_ok hex
  simp only [Bool.or_eq_true, decide_eq_true_eq] at hin
  cases heq
  exact ⟨_, by rw [LineMap.ofHandles, List.length_map, Pool.length_append], by omega, hfit, rfl⟩

theorem reviseLine_eq_ok {n : Nat} {lines : List Bytes} (hne : lines ≠ [])
    (h : w.reviseLine p n lines = .ok (w', p')) : ∃ w₁ : Window,
      w.replaceLines p n n lines = .ok (w₁, p') ∧
        w' = { w₁ with labels := w₁.labels.hold w.labels n } := by
  unfold reviseLine at h
  obtain ⟨⟨w₁, p₁⟩, hrep, heq⟩ := bind_eq_ok.mp h
  have hempty : lines.isEmpty = false := by simpa using hne
  rw [hempty] at heq
  cases heq
  exact ⟨w₁, hrep, rfl⟩

/-- Labels above a line that is revised and on it stay; those below move with their lines. -/
theorem reviseLine_labels {n : Nat} {lines : List Bytes} (hne : lines ≠ [])
    (h : w.reviseLine p n lines = .ok (w', p')) (name : Char) : w'.labels.get? name =
      (w.labels.get? name).map fun m => if n < m then m + (lines.length - 1) else m := by
  have hpos := List.length_pos_iff.mpr hne
  obtain ⟨w₁, hreplace, rfl⟩ := reviseLine_eq_ok hne h
  obtain ⟨new, hlen, h₁, -, rfl⟩ := replaceLines_eq_ok hne hreplace
  show ((w.labels.remap (spliceRule (n - 1) (n - n + 1) new.length)).hold w.labels n).get? name = _
  rw [Labels.get?_hold, Labels.get?_remap, hlen]
  cases hline : w.labels.get? name with
  | none => rfl
  | some m =>
    by_cases hm : m = n
    · rw [hm, if_pos rfl, Option.map_some, if_neg (Nat.lt_irrefl n)]
    · rw [if_neg fun heq => hm (Option.some.inj heq), Option.bind_some, Option.map_some, spliceRule]
      split
      · rw [if_neg (by omega)]
      · rw [if_neg (by omega), if_pos (by omega)]
        congr 1
        omega

theorem copyLines_eq_ok {start stop after : Nat}
    (h : w.copyLines p start stop after = .ok (w', p')) :
    (1 ≤ start ∧ start ≤ stop ∧ stop ≤ w.dol) ∧ after ≤ w.dol ∧
      w' = (w.splice after 0 ((Sequence.run w.lines start stop).map Entry.unmark)).setDot
        (after + (Sequence.run w.lines start stop).length) := by
  unfold copyLines at h
  obtain ⟨hin, h⟩ := guarded_eq_ok h
  obtain ⟨q, -, h⟩ := bind_eq_ok.mp h
  obtain ⟨⟨w₁, p₁, count⟩, hex, heq⟩ := bind_eq_ok.mp h
  obtain ⟨rfl, hfit⟩ := exchange_eq_ok hex
  simp only [Bool.or_eq_true, decide_eq_true_eq] at hin
  cases heq
  refine ⟨by omega, hfit, ?_⟩
  rw [List.length_map]
  rfl

theorem moveLines_eq_ok {start stop after : Nat} (h : w.moveLines start stop after = .ok w') :
    w' = w.move start stop after := by
  rw [moveLines_eq] at h
  obtain ⟨-, h⟩ := guarded_eq_ok h
  obtain ⟨-, h⟩ := guarded_eq_ok h
  obtain ⟨-, h⟩ := guarded_eq_ok h
  cases h
  rfl

theorem insertEntries_spliced {after : Nat} {entries : List (Bytes × Option Suffix)}
    (h : w.insertEntries p after entries = .ok (w', p')) : w.Spliced w' after 0 entries.length := by
  obtain ⟨new, hlen, hafter, dot, rfl⟩ := insertEntries_eq_ok h
  have hsp := spliced_splice (show after + 0 ≤ w.dol from hafter) new
  rw [hlen] at hsp
  exact ⟨hsp.dol_eq, hsp.flags_eq⟩

theorem deleteLines_spliced {start stop : Nat} (h : w.deleteLines p start stop = .ok (w', p')) :
    w.Spliced w' (start - 1) (stop - start + 1) 0 := by
  obtain ⟨hfit, rfl⟩ := deleteLines_eq_ok h
  have hsp := spliced_splice hfit []
  exact ⟨hsp.dol_eq, hsp.flags_eq⟩

theorem replaceLines_spliced {start stop : Nat} {lines : List Bytes}
    (h : w.replaceLines p start stop lines = .ok (w', p')) :
    w.Spliced w' (start - 1) (stop - start + 1) lines.length := by
  cases lines with
  | nil => exact deleteLines_spliced h
  | cons line rest =>
    obtain ⟨new, hlen, -, hfit, rfl⟩ := replaceLines_eq_ok (List.cons_ne_nil line rest) h
    have hsp := spliced_splice hfit new
    rw [hlen] at hsp
    exact ⟨hsp.dol_eq, hsp.flags_eq⟩

theorem copyLines_spliced {start stop after : Nat}
    (h : w.copyLines p start stop after = .ok (w', p')) :
    w.Spliced w' after 0 (Sequence.run w.lines start stop).length := by
  obtain ⟨hstop, hafter, rfl⟩ := copyLines_eq_ok h
  have hsp := spliced_splice (show after + 0 ≤ w.dol from hafter)
    ((Sequence.run w.lines start stop).map Entry.unmark)
  rw [List.length_map] at hsp
  exact ⟨hsp.dol_eq, hsp.flags_eq⟩

theorem reviseLine_spliced {n : Nat} {lines : List Bytes}
    (h : w.reviseLine p n lines = .ok (w', p')) : w.Spliced w' (n - 1) 1 lines.length := by
  unfold reviseLine at h
  obtain ⟨⟨w₁, p₁⟩, hrep, heq⟩ := bind_eq_ok.mp h
  have hsp := replaceLines_spliced hrep
  rw [Nat.sub_self, Nat.zero_add] at hsp
  cases heq
  split
  · exact hsp
  · exact ⟨hsp.dol_eq, hsp.flags_eq⟩

/-- One line is revised, and then the rest in the window that this left, with dot on the last line
written. -/
theorem reviseLines_cons_iff {shift n : Nat} {lines : List Bytes} {rest : List (Nat × List Bytes)}
    {r : Window × Pool} : w.reviseLines p shift ((n, lines) :: rest) = .ok r ↔ ∃ w₁ p₁,
      w.reviseLine p (n + shift) lines = .ok (w₁, p₁) ∧ 1 ≤ lines.length ∧
        n + shift + lines.length - 1 ≤ w₁.dol ∧
        (w₁.setDot (n + shift + lines.length - 1)).reviseLines p₁ (shift + (lines.length - 1)) rest =
          .ok r := by
  conv_lhs => unfold reviseLines
  constructor
  · intro h
    obtain ⟨⟨w₁, p₁⟩, hrevise, h⟩ := bind_eq_ok.mp h
    obtain ⟨more, hmore, h⟩ := bind_eq_ok.mp h
    obtain ⟨last, hlast, h⟩ := bind_eq_ok.mp h
    obtain ⟨w₂, hgoto, h⟩ := bind_eq_ok.mp h
    obtain ⟨hdol, hgoto⟩ := guarded_eq_ok hgoto
    obtain ⟨hpos, hmore⟩ := guarded_eq_ok hmore
    obtain ⟨-, hlast⟩ := guarded_eq_ok hlast
    cases hmore
    cases hlast
    cases hgoto
    exact ⟨w₁, p₁, hrevise, Nat.le_of_not_lt hpos, Nat.le_of_not_lt hdol, h⟩
  · rintro ⟨w₁, p₁, hrevise, hpos, hdol, h⟩
    refine bind_eq_ok.mpr ⟨(w₁, p₁), hrevise, ?_⟩
    dsimp only
    rw [difference_of_le hpos, difference_of_le (show 1 ≤ n + shift + lines.length by omega)]
    dsimp only [bind, Except.bind]
    rw [goto_of_le hdol]
    exact h

theorem reviseLines_cons {shift n : Nat} {lines : List Bytes} {rest : List (Nat × List Bytes)}
    (h : w.reviseLines p shift ((n, lines) :: rest) = .ok (w', p')) : ∃ w₁ p₁,
      w.reviseLine p (n + shift) lines = .ok (w₁, p₁) ∧
        (w₁.setDot (n + shift + lines.length - 1)).reviseLines p₁ (shift + (lines.length - 1)) rest =
          .ok (w', p') := by
  obtain ⟨w₁, p₁, hrevise, -, -, hrest⟩ := reviseLines_cons_iff.mp h
  exact ⟨w₁, p₁, hrevise, hrest⟩

theorem reviseLines_last {shift : Nat} {changes : List (Nat × List Bytes)}
    (h : w.reviseLines p shift changes = .ok (w', p'))
    (hfit : ∀ c ∈ changes, 1 ≤ c.1 ∧ c.1 + shift ≤ w.dol ∧ c.2 ≠ [])
    {rows : List Row} (hlen : rows.length = w.dol) (hset : w'.flags.noFinalNewline = true) :
    w.flags.noFinalNewline = true ∧ (reviseRows rows shift changes).getLast? = rows.getLast? := by
  -- on the changes, each one a splice of what the ones above it left
  induction changes generalizing w p shift rows with
  | nil =>
    cases h
    exact ⟨hset, rfl⟩
  | cons c rest ih =>
    obtain ⟨n, lines⟩ := c
    obtain ⟨⟨h₁, hn, hl⟩, hrest⟩ := List.forall_mem_cons.mp hfit
    have hpos : 1 ≤ lines.length := List.length_pos_iff.mpr hl
    dsimp only at h₁ hn
    obtain ⟨w₁, p₁, hrev, h⟩ := reviseLines_cons h
    have hsp := reviseLine_spliced hrev
    have hdol : w₁.dol = w.dol - 1 + lines.length := hsp.dol_eq
    have hlen₁ : (Sequence.splice rows (n + shift - 1) 1 (lines.map Row.plain)).length =
        (w₁.setDot (n + shift + lines.length - 1)).dol := by
      rw [Sequence.length_splice _ _ (by omega), List.length_map, hlen]
      exact hdol.symm
    have hfit₁ : ∀ c ∈ rest, 1 ≤ c.1 ∧ c.1 + (shift + (lines.length - 1)) ≤
        (w₁.setDot (n + shift + lines.length - 1)).dol ∧ c.2 ≠ [] := by
      intro c hc
      obtain ⟨hc₁, hc, hcl⟩ := hrest c hc
      refine ⟨hc₁, ?_, hcl⟩
      show _ ≤ w₁.dol
      omega
    obtain ⟨hset₁, hsame⟩ := ih h hfit₁ hlen₁
    rw [← List.length_map (f := Row.plain)] at hsp
    obtain ⟨hold, hsame'⟩ := hsp.last hlen hset₁
    exact ⟨hold, hsame.trans hsame'⟩

theorem moveLines_last {start stop after : Nat} (h : w.moveLines start stop after = .ok w')
    {rows : List Row} (hlen : rows.length = w.dol) (hset : w'.flags.noFinalNewline = true) :
    w.flags.noFinalNewline = true ∧ (Sequence.move rows start stop after).getLast? = rows.getLast? := by
  rw [moveLines_eq] at h
  obtain ⟨hout, h⟩ := guarded_eq_ok h
  obtain ⟨hplace, h⟩ := guarded_eq_ok h
  obtain ⟨hin, h⟩ := guarded_eq_ok h
  cases h
  simp only [Bool.or_eq_true, decide_eq_true_eq, Bool.and_eq_true] at hout hin
  simp only [move, Bool.and_eq_true, Bool.not_eq_true', Bool.or_eq_false_iff,
    beq_eq_false_iff_ne] at hset
  obtain ⟨hold, hstop, hafter⟩ := hset
  refine ⟨hold, Sequence.getLast?_move ?_ ?_ ?_ ?_ hin⟩ <;> omega

end

end Window

/-- Where the last line is known to have no newline, it is the one that was last before. -/
theorem Edit.perform_last {w w' : Window} {p p' : Pool} {change : Edit} (hfit : change.Fits w.dol)
    (h : change.perform w p = .ok (w', p')) {rows : List Row} (hlen : rows.length = w.dol)
    (hset : w'.flags.noFinalNewline = true) :
    w.flags.noFinalNewline = true ∧ (change.rows rows).getLast? = rows.getLast? := by
  cases change with
  | insert after lines =>
    have hsp := Window.insertEntries_spliced h
    rw [List.length_map, ← List.length_map (f := Row.plain)] at hsp
    exact hsp.last hlen hset
  | delete start stop =>
    have hsp : w.Spliced w' (start - 1) (stop - start + 1) ([] : List Row).length :=
      Window.deleteLines_spliced h
    exact hsp.last hlen hset
  | replace start stop lines =>
    have hsp := Window.replaceLines_spliced h
    rw [← List.length_map (f := Row.plain)] at hsp
    exact hsp.last hlen hset
  | copy start stop after =>
    have hsp := Window.copyLines_spliced h
    have hrun : (Sequence.run w.lines start stop).length =
        ((Sequence.run rows start stop).map Row.unmark).length := by
      have hl : w.lines.length = rows.length := hlen.symm
      simp only [Sequence.run, List.length_take, List.length_drop, List.length_map, hl]
    rw [hrun] at hsp
    exact hsp.last hlen hset
  | move start stop after =>
    obtain ⟨w₁, hmove, heq⟩ := bind_eq_ok.mp h
    cases heq
    exact Window.moveLines_last hmove hlen hset
  | revise changes => exact Window.reviseLines_last h hfit hlen hset

end LineEditor
