import LineEditor.Buffer.Edit
import LineEditor.Proofs.Window

/-!
# Edits keep the accounts

Let the pool account for the entries of a window and for others, `m`. An edit that fits the window
is no breach; the window stays consistent and keeps what is not about its lines, the pool accounts
for its new entries and for `m`, and what `m` names keeps its text. New lines are stored before old
ones go, so nothing that is still named is ever without a reference.
-/

namespace LineEditor

/-- All that is not about lines is the same in both windows. -/
structure Window.Alike (w w' : Window) : Prop where
  id_eq : w'.id = w.id
  flags_eq : { w'.flags with noFinalNewline := w.flags.noFinalNewline } = w.flags
  fileName_eq : w'.fileName = w.fileName
  lastSearch_eq : w'.lastSearch = w.lastSearch
  lastReplacement_eq : w'.lastReplacement = w.lastReplacement

theorem Window.Alike.refl (w : Window) : w.Alike w := ⟨rfl, rfl, rfl, rfl, rfl⟩

theorem Window.Alike.trans {u v w : Window} (h : u.Alike v) (h' : v.Alike w) : u.Alike w where
  id_eq := h'.id_eq.trans h.id_eq
  flags_eq := by rw [← h.flags_eq, ← h'.flags_eq]
  fileName_eq := h'.fileName_eq.trans h.fileName_eq
  lastSearch_eq := h'.lastSearch_eq.trans h.lastSearch_eq
  lastReplacement_eq := h'.lastReplacement_eq.trans h.lastReplacement_eq

/-- What an edit of window `w` over the pool `p` comes to while others hold `m`. -/
structure Edited (w : Window) (p : Pool) (m : Multiset (Handle × Option Suffix)) (w' : Window)
    (p' : Pool) : Prop where
  alike : w.Alike w'
  consistent : w'.Consistent
  accounts : p'.Accounts (w'.lines.contents + m)
  keeps : p.Keeps p' (m.map Prod.fst)
  unmarked : w.lines.Unmarked → w'.lines.Unmarked

section
variable {w : Window} {p : Pool} {m : Multiset (Handle × Option Suffix)}

theorem Edited.refl (hw : w.Consistent) (ha : p.Accounts (w.lines.contents + m)) :
    Edited w p m w p :=
  ⟨.refl w, hw, ha, .refl _ _, id⟩

theorem Edited.trans {w' w'' : Window} {p' p'' : Pool} (h : Edited w p m w' p')
    (h' : Edited w' p' m w'' p'') : Edited w p m w'' p'' :=
  ⟨h.alike.trans h'.alike, h'.consistent, h'.accounts, h.keeps.trans h'.keeps,
    h'.unmarked ∘ h.unmarked⟩

theorem Edited.setDot {w' : Window} {p' : Pool} (h : Edited w p m w' p') {n : Nat} (h₁ : 1 ≤ n)
    (hn : n ≤ w'.dol) : Edited w p m (w'.setDot n) p' where
  alike := h.alike.trans ⟨rfl, rfl, rfl, rfl, rfl⟩
  consistent := h.consistent.setDot h₁ hn
  accounts := h.accounts
  keeps := h.keeps
  unmarked := h.unmarked

namespace Window

/-- The new entries are in the pool already, and hold what is not in the window yet. What the window
keeps and what others hold keeps its text. -/
theorem exchange_accounts {insert : List Entry}
    (ha : p.Accounts (LineMap.contents insert + (w.lines.contents + m))) {start remove : Nat}
    (hfit : start + remove ≤ w.dol) :
    Succeeds (w.exchange p start remove insert) fun r =>
      r.1 = w.splice start remove insert ∧
        r.2.1.Accounts ((w.splice start remove insert).lines.contents + m) ∧
        p.Keeps r.2.1 (((w.splice start remove insert).lines.contents + m).map Prod.fst) := by
  have hsplice := w.lines.contents_splice start remove insert
  have hmove : LineMap.contents insert + (w.lines.contents + m) =
      LineMap.contents (w.lines.removed start remove) +
        ((w.splice start remove insert).lines.contents + m) := by
    rw [← add_assoc, ← hsplice, splice_lines]
    abel
  rw [hmove] at ha
  rw [exchange_eq]
  simp only [Nat.not_lt.mpr hfit, if_false, Succeeds.bind_iff, Succeeds.pure_iff, true_and]
  exact ha.drop

theorem exchange_edited {insert : List Entry} (hw : w.Consistent)
    (ha : p.Accounts (LineMap.contents insert + (w.lines.contents + m))) {start remove : Nat}
    (hfit : start + remove ≤ w.dol) (hi : LineMap.Unmarked insert) :
    Succeeds (w.exchange p start remove insert) fun r =>
      r.1 = w.splice start remove insert ∧ Edited w p m r.1 r.2.1 := by
  have hkept {c : Handle} (hc : c ∈ m.map Prod.fst) :
      c ∈ ((w.splice start remove insert).lines.contents + m).map Prod.fst := by
    rw [Multiset.map_add]
    exact Multiset.mem_add.mpr (.inr hc)
  refine (exchange_accounts ha hfit).mono ?_
  rintro ⟨w', p', count⟩ ⟨rfl, hacc, hkeeps⟩
  exact ⟨rfl, ⟨rfl, rfl, rfl, rfl, rfl⟩, hw.splice insert hfit, hacc, hkeeps.mono fun _ => hkept,
    fun hu => hu.splice start remove hi⟩

/-- Entries for texts that are new to the pool go in. -/
theorem enter_edited (hw : w.Consistent) (ha : p.Accounts (w.lines.contents + m))
    {start remove : Nat} (hfit : start + remove ≤ w.dol) {texts : List Bytes} {new : List Entry}
    (hnew : LineMap.handles new = (p.append texts).1) (hi : LineMap.Unmarked new) :
    Succeeds (w.exchange (p.append texts).2 start remove new) fun r =>
      r.1 = w.splice start remove new ∧ Edited w p m r.1 r.2.1 := by
  obtain ⟨hacc, hkeeps⟩ := ha.enter texts hnew
  have hsub : m ⊆ w.lines.contents + m := fun _ hc => Multiset.mem_add.mpr (.inr hc)
  refine (exchange_edited hw hacc hfit hi).mono ?_
  rintro ⟨w', p', count⟩ ⟨rfl, hed⟩
  exact ⟨rfl, { hed with keeps := (hkeeps.mono (Multiset.map_subset_map hsub)).trans hed.keeps }⟩

theorem insertEntries_edited (hw : w.Consistent) (ha : p.Accounts (w.lines.contents + m))
    {after : Nat} (hfit : after ≤ w.dol) (entries : List (Bytes × Option Suffix)) :
    Succeeds (w.insertEntries p after entries) fun r =>
      Edited w p m r.1 r.2 ∧ r.1.dol = w.dol + entries.length := by
  unfold insertEntries
  simp only [Succeeds.bind_iff, Succeeds.pure_iff]
  generalize hnew : ((p.append (entries.map Prod.fst)).1.zip entries).map
    (fun x => ({ Entry.plain x.1 with suffix := x.2.2 } : Entry)) = new
  have hlen : (p.append (entries.map Prod.fst)).1.length = entries.length := by
    simp [Pool.length_append]
  have hhandles : LineMap.handles new = (p.append (entries.map Prod.fst)).1 := by
    rw [← hnew, LineMap.handles, List.map_map]
    exact List.map_fst_zip (Nat.le_of_eq hlen)
  have hnewlen : new.length = entries.length := by
    rw [← hlen, ← hhandles, LineMap.handles, List.length_map]
  have hunmarked : LineMap.Unmarked new := by
    intro x hx
    rw [← hnew] at hx
    obtain ⟨y, -, rfl⟩ := List.mem_map.mp hx
    rfl
  refine (enter_edited hw ha (show after + 0 ≤ w.dol from hfit) hhandles hunmarked).mono ?_
  rintro ⟨w', p', count⟩ ⟨rfl, hed⟩
  change Edited w p m (w.splice after 0 new) p' at hed
  have hdol : (w.splice after 0 new).dol = w.dol + entries.length := by
    rw [dol_splice new (by omega), hnewlen, Nat.sub_zero]
  cases entries with
  | nil => exact ⟨hed, hdol⟩
  | cons e rest =>
    rw [List.length_cons] at hdol ⊢
    exact ⟨hed.setDot (by omega) (by omega), hdol⟩

theorem insertLines_edited (hw : w.Consistent) (ha : p.Accounts (w.lines.contents + m))
    {after : Nat} (hfit : after ≤ w.dol) (lines : List Bytes) :
    Succeeds (w.insertLines p after lines) fun r =>
      Edited w p m r.1 r.2 ∧ r.1.dol = w.dol + lines.length := by
  refine (insertEntries_edited hw ha hfit (lines.map fun line => (line, none))).mono fun r hr => ?_
  rw [List.length_map] at hr
  exact hr

theorem deleteLines_edited (hw : w.Consistent) (ha : p.Accounts (w.lines.contents + m))
    {start stop : Nat} (h₁ : 1 ≤ start) (hs : start ≤ stop) (hstop : stop ≤ w.dol) :
    Succeeds (w.deleteLines p start stop) fun r => Edited w p m r.1 r.2 := by
  have hin : (decide (start = 0) || decide (stop < start)) = false := by
    simp only [Bool.or_eq_false_iff, decide_eq_false_iff_not]
    omega
  have hfit : start - 1 + (stop - start + 1) ≤ w.dol := by omega
  have hnone : p.Accounts (LineMap.contents [] + (w.lines.contents + m)) := by simpa using ha
  unfold deleteLines
  simp only [hin, Bool.false_eq_true, if_false, Succeeds.bind_iff, Succeeds.pure_iff]
  refine (exchange_edited hw hnone hfit (by simp [LineMap.Unmarked])).mono ?_
  rintro ⟨w', p', count⟩ ⟨-, hed⟩
  refine { hed with alike := hed.alike.trans ⟨rfl, rfl, rfl, rfl, rfl⟩, consistent := ?_ }
  refine ⟨Nat.min_le_right _ _, ?_, hed.consistent.labels_within⟩
  -- without a line left, dot has nowhere to go but 0
  show min start w'.dol = 0 ↔ w'.dol = 0
  omega

theorem replaceLines_edited (hw : w.Consistent) (ha : p.Accounts (w.lines.contents + m))
    {start stop : Nat} (h₁ : 1 ≤ start) (hs : start ≤ stop) (hstop : stop ≤ w.dol)
    (lines : List Bytes) :
    Succeeds (w.replaceLines p start stop lines) fun r =>
      Edited w p m r.1 r.2 ∧ (lines ≠ [] → r.1.dol = w.dol - (stop - start + 1) + lines.length) := by
  cases lines with
  | nil => exact (deleteLines_edited hw ha h₁ hs hstop).mono fun r hr => ⟨hr, fun h => absurd rfl h⟩
  | cons line rest =>
    have hin : (decide (start = 0) || decide (stop < start)) = false := by
      simp only [Bool.or_eq_false_iff, decide_eq_false_iff_not]
      omega
    have hfit : start - 1 + (stop - start + 1) ≤ w.dol := by omega
    generalize hl : line :: rest = lines
    have hpos : 1 ≤ lines.length := by simp [← hl]
    have hne : lines.isEmpty = false := by simp [← hl]
    have hhandles : LineMap.handles (LineMap.ofHandles (p.append lines).1) = (p.append lines).1 := by
      simp [LineMap.handles, LineMap.ofHandles, Entry.plain, Function.comp_def]
    have hlen : (LineMap.ofHandles (p.append lines).1).length = lines.length := by
      simp [LineMap.ofHandles, Pool.length_append]
    have hunmarked : LineMap.Unmarked (LineMap.ofHandles (p.append lines).1) := by
      intro x hx
      obtain ⟨h, -, rfl⟩ := List.mem_map.mp hx
      rfl
    unfold replaceLines
    simp only [hne, hin, Bool.false_eq_true, if_false, Succeeds.bind_iff, Succeeds.pure_iff]
    refine (enter_edited hw ha hfit hhandles hunmarked).mono ?_
    rintro ⟨w', p', count⟩ ⟨rfl, hed⟩
    change Edited w p m (w.splice (start - 1) (stop - start + 1) _) p' at hed
    have hdol := dol_splice (LineMap.ofHandles (p.append lines).1) hfit
    rw [hlen] at hdol
    exact ⟨hed.setDot (by omega) (by omega), fun _ => hdol⟩

theorem reviseLine_edited (hw : w.Consistent) (ha : p.Accounts (w.lines.contents + m)) {n : Nat}
    (h₁ : 1 ≤ n) (hn : n ≤ w.dol) {lines : List Bytes} (hl : lines ≠ []) :
    Succeeds (w.reviseLine p n lines) fun r =>
      Edited w p m r.1 r.2 ∧ r.1.dol + 1 = w.dol + lines.length := by
  have hpos : 1 ≤ lines.length := List.length_pos_iff.mpr hl
  have hne : lines.isEmpty = false := by simpa using hl
  unfold reviseLine
  simp only [hne, Bool.false_eq_true, if_false, Succeeds.bind_iff, Succeeds.pure_iff]
  refine (replaceLines_edited hw ha h₁ (Nat.le_refl n) hn lines).mono ?_
  rintro ⟨w', p'⟩ ⟨hed, hdol⟩
  have hsize : w'.dol = w.dol - (n - n + 1) + lines.length := hdol hl
  have hin : n ≤ w'.dol := by omega
  refine ⟨{ hed with alike := hed.alike.trans ⟨rfl, rfl, rfl, rfl, rfl⟩, consistent := ?_ }, ?_⟩
  · exact ⟨hed.consistent.dot_le, hed.consistent.dot_eq_zero_iff,
      hed.consistent.labels_within.hold w.labels h₁ hin⟩
  · show w'.dol + 1 = _
    omega

theorem goto_of_le {n : Nat} (h : n ≤ w.dol) : w.goto n = .ok (w.setDot n) :=
  if_neg (Nat.not_lt.mpr h)

theorem reviseLines_edited : ∀ (changes : List (Nat × List Bytes)) {w : Window} {p : Pool}
    {shift : Nat}, w.Consistent → p.Accounts (w.lines.contents + m) →
    (∀ c ∈ changes, 1 ≤ c.1 ∧ c.1 + shift ≤ w.dol ∧ c.2 ≠ []) →
    Succeeds (w.reviseLines p shift changes) fun r => Edited w p m r.1 r.2
  | [], w, p, shift, hw, ha, _ => Succeeds.pure_iff.mpr (.refl hw ha)
  | (n, lines) :: rest, w, p, shift, hw, ha, hfit => by
    obtain ⟨h₁, hn, hl⟩ := hfit _ List.mem_cons_self
    have hpos : 1 ≤ lines.length := List.length_pos_iff.mpr hl
    unfold reviseLines
    simp only [Succeeds.bind_iff]
    refine (reviseLine_edited hw ha (Nat.le_add_right_of_le h₁) hn hl).mono ?_
    rintro ⟨w', p'⟩ ⟨hed, hdol⟩
    dsimp only at hed hdol hn ⊢
    have hlast : n + shift + lines.length - 1 ≤ w'.dol := by omega
    have hed' := hed.setDot (by omega) hlast
    rw [difference_of_le hpos, difference_of_le (by omega), Succeeds.ok_iff, Succeeds.ok_iff,
      goto_of_le hlast, Succeeds.ok_iff]
    -- the lines below have moved down by as much as the shift grows
    refine (reviseLines_edited rest hed'.consistent hed'.accounts fun c hc => ?_).mono
      fun r hr => hed'.trans hr
    obtain ⟨hc₁, hc, hcl⟩ := hfit c (List.mem_cons_of_mem _ hc)
    refine ⟨hc₁, ?_, hcl⟩
    show c.1 + (shift + (lines.length - 1)) ≤ w'.dol
    omega

theorem copyLines_edited (hw : w.Consistent) (ha : p.Accounts (w.lines.contents + m))
    {start stop after : Nat} (h₁ : 1 ≤ start) (hs : start ≤ stop) (hstop : stop ≤ w.dol)
    (hafter : after ≤ w.dol) :
    Succeeds (w.copyLines p start stop after) fun r => Edited w p m r.1 r.2 := by
  have hin : (decide (start = 0) || decide (stop < start) || decide (w.dol < stop)) = false := by
    simp only [Bool.or_eq_false_iff, decide_eq_false_iff_not]
    omega
  generalize hcopies : (w.lines.removed (start - 1) (stop - start + 1)).map Entry.unmark = copies
  have hlen : copies.length = stop - start + 1 := by
    rw [← hcopies, List.length_map]
    exact w.lines.length_removed (show _ ≤ w.dol by omega)
  have hsub : LineMap.contents copies ⊆ w.lines.contents + m := by
    intro c hc
    rw [← hcopies, LineMap.contents_map_unmark] at hc
    obtain ⟨x, hx, rfl⟩ := LineMap.mem_contents.mp hc
    exact Multiset.mem_add.mpr
      (.inl (LineMap.mem_contents.mpr ⟨x, w.lines.removed_subset _ _ hx, rfl⟩))
  have hunmarked : LineMap.Unmarked copies := hcopies ▸ LineMap.unmarked_clearMarks _
  unfold copyLines
  simp only [hin, Bool.false_eq_true, if_false, hcopies, Succeeds.bind_iff, Succeeds.pure_iff]
  refine (ha.share hsub).mono fun q hq => ?_
  refine (exchange_edited hw hq.1 (show after + 0 ≤ w.dol from hafter) hunmarked).mono ?_
  rintro ⟨w', p', count⟩ ⟨rfl, hed⟩
  have hdol := dol_splice copies (show after + 0 ≤ w.dol from hafter)
  have hkeeps : p.Keeps q (m.map Prod.fst) := fun h _ => hq.2 h
  have hed' : Edited w p m (w.splice after 0 copies) p' :=
    { hed with keeps := hkeeps.trans hed.keeps }
  exact hed'.setDot (by omega) (by omega)

theorem moveLines_edited (hw : w.Consistent) (ha : p.Accounts (w.lines.contents + m))
    {start stop after : Nat} (h₁ : 1 ≤ start) (hs : start ≤ stop) (hstop : stop ≤ w.dol)
    (hafter : after ≤ w.dol) (hout : ¬(start ≤ after ∧ after < stop)) :
    Succeeds (w.moveLines start stop after) fun w' => Edited w p m w' p := by
  have hin : (decide (start = 0) || decide (stop < start) || decide (w.dol < stop)) = false := by
    simp only [Bool.or_eq_false_iff, decide_eq_false_iff_not]
    omega
  have hperm : (w.move start stop after).lines.Perm w.lines :=
    w.lines.relocate_perm (by omega)
  rw [moveLines_eq]
  simp only [hin, Bool.false_eq_true, if_false, Nat.not_lt.mpr hafter, Bool.and_eq_true,
    decide_eq_true_eq, hout, Succeeds.pure_iff]
  exact ⟨⟨rfl, rfl, rfl, rfl, rfl⟩, hw.move h₁ hs hstop hafter hout,
    (LineMap.contents_perm hperm).symm ▸ ha, .refl _ _, fun hu => hu.of_subset hperm.subset⟩

end Window

/-- The lines of an edit are lines of a text with `size` lines, and its places lie in that text. -/
def Edit.Fits (size : Nat) : Edit → Prop
  | .insert after _ => after ≤ size
  | .delete start stop | .replace start stop _ => 1 ≤ start ∧ start ≤ stop ∧ stop ≤ size
  | .copy start stop after => 1 ≤ start ∧ start ≤ stop ∧ stop ≤ size ∧ after ≤ size
  | .move start stop after =>
    1 ≤ start ∧ start ≤ stop ∧ stop ≤ size ∧ after ≤ size ∧ ¬(start ≤ after ∧ after < stop)
  | .revise changes => ∀ c ∈ changes, 1 ≤ c.1 ∧ c.1 ≤ size ∧ c.2 ≠ []

instance (size : Nat) : (change : Edit) → Decidable (change.Fits size)
  | .insert after _ => inferInstanceAs (Decidable (after ≤ size))
  | .delete start stop => inferInstanceAs (Decidable (1 ≤ start ∧ start ≤ stop ∧ stop ≤ size))
  | .replace start stop _ => inferInstanceAs (Decidable (1 ≤ start ∧ start ≤ stop ∧ stop ≤ size))
  | .copy start stop after =>
    inferInstanceAs (Decidable (1 ≤ start ∧ start ≤ stop ∧ stop ≤ size ∧ after ≤ size))
  | .move start stop after =>
    inferInstanceAs (Decidable (1 ≤ start ∧ start ≤ stop ∧ stop ≤ size ∧ after ≤ size ∧
      ¬(start ≤ after ∧ after < stop)))
  | .revise changes =>
    inferInstanceAs (Decidable (∀ c ∈ changes, 1 ≤ c.1 ∧ c.1 ≤ size ∧ c.2 ≠ []))

/-- An edit that fits its window is no breach. -/
theorem Edit.perform_edited (hw : w.Consistent) (ha : p.Accounts (w.lines.contents + m))
    {change : Edit} (hfit : change.Fits w.dol) :
    Succeeds (change.perform w p) fun r => Edited w p m r.1 r.2 := by
  cases change with
  | insert after lines => exact (Window.insertLines_edited hw ha hfit lines).mono fun _ hr => hr.1
  | delete start stop => exact Window.deleteLines_edited hw ha hfit.1 hfit.2.1 hfit.2.2
  | replace start stop lines =>
    exact (Window.replaceLines_edited hw ha hfit.1 hfit.2.1 hfit.2.2 lines).mono fun _ hr => hr.1
  | copy start stop after =>
    obtain ⟨h₁, hs, hstop, hafter⟩ := hfit
    exact Window.copyLines_edited hw ha h₁ hs hstop hafter
  | move start stop after =>
    obtain ⟨h₁, hs, hstop, hafter, hout⟩ := hfit
    unfold Edit.perform
    simp only [Succeeds.bind_iff, Succeeds.pure_iff]
    exact Window.moveLines_edited hw ha h₁ hs hstop hafter hout
  | revise changes => exact Window.reviseLines_edited changes hw ha hfit

end

end LineEditor
