import LineEditor.Proofs.Edit
import LineEditor.Proofs.Sequence

/-!
# What a window shows

Read through the pool, a window is a list of rows: texts with their suffixes and marks. On rows an
edit is what its name says, an insertion, a deletion or a move in a list; no handle and no count of
references matters, as long as the pool accounts for the window and for what others hold.
-/

namespace LineEditor

/-- A line as it is read. -/
structure Row where
  text : Bytes
  suffix : Option Suffix
  marked : Bool
  deriving Repr, DecidableEq

namespace Row

def plain (text : Bytes) : Row := ⟨text, none, false⟩

def ofEntry (entry : Bytes × Option Suffix) : Row := ⟨entry.1, entry.2, false⟩

def unmark (r : Row) : Row := { r with marked := false }

end Row

namespace Pool

/-- The row of an entry whose line is stored. -/
def row (p : Pool) (x : Entry) : Row := ⟨(p.text? x.handle).getD [], x.suffix, x.marked⟩

def rows (p : Pool) (m : LineMap) : List Row := m.map p.row

/-- The rows of a map, each line looked up in the pool. -/
def readRows (p : Pool) (m : LineMap) : Except Breach (List Row) :=
  m.mapM fun x => do return ⟨← p.get x.handle, x.suffix, x.marked⟩

@[simp] theorem length_rows (p : Pool) (m : LineMap) : (p.rows m).length = m.length :=
  List.length_map _

theorem rows_append (p : Pool) (l m : LineMap) : p.rows (l ++ m) = p.rows l ++ p.rows m :=
  List.map_append

theorem row_congr {p q : Pool} {x : Entry} (h : q.text? x.handle = p.text? x.handle) :
    q.row x = p.row x := by
  rw [row, h]
  rfl

theorem rows_congr {p q : Pool} {m : LineMap} (h : p.Keeps q m.handles) : q.rows m = p.rows m :=
  List.map_congr_left fun _ hx => row_congr (h _ (List.mem_map_of_mem hx))

theorem rows_keeps {p q : Pool} {m : LineMap} {n : Multiset (Handle × Option Suffix)}
    (h : p.Keeps q (n.map Prod.fst)) (hm : m.contents ⊆ n) : q.rows m = p.rows m := by
  refine rows_congr (h.mono fun x hx => ?_)
  rw [← LineMap.map_fst_contents] at hx
  exact Multiset.map_subset_map hm hx

theorem rows_clearMarks (p : Pool) (m : LineMap) :
    p.rows m.clearMarks = (p.rows m).map Row.unmark := by
  unfold rows LineMap.clearMarks
  rw [List.map_map, List.map_map]
  rfl

theorem readRows_eq {p : Pool} {m : LineMap} {n : Multiset (Handle × Option Suffix)}
    (ha : p.Accounts n) (hm : m.contents ⊆ n) : p.readRows m = .ok (p.rows m) := by
  refine mapM_ok fun x hx => ?_
  obtain ⟨text, hget, htext⟩ := ha.get (hm (LineMap.mem_contents.mpr ⟨x, hx, rfl⟩))
  rw [hget, row, htext]
  rfl

theorem rows_ofHandles {q : Pool} {hs : List Handle} {texts : List Bytes}
    (h : hs.map q.text? = texts.map some) :
    q.rows (LineMap.ofHandles hs) = texts.map Row.plain := by
  induction hs generalizing texts with
  | nil =>
    cases texts with
    | nil => rfl
    | cons text texts => cases h
  | cons x hs ih =>
    cases texts with
    | nil => cases h
    | cons text texts =>
      obtain ⟨hx, hrest⟩ := List.cons.inj h
      have hrow : q.row (.plain x) = .plain text := by
        rw [row, show q.text? (Entry.plain x).handle = some text from hx]
        rfl
      rw [List.map_cons, ← ih hrest, ← hrow]
      rfl

theorem rows_zip {q : Pool} {hs : List Handle} {entries : List (Bytes × Option Suffix)}
    (h : hs.map q.text? = (entries.map Prod.fst).map some) :
    q.rows ((hs.zip entries).map fun x => { Entry.plain x.1 with suffix := x.2.2 }) =
      entries.map Row.ofEntry := by
  induction hs generalizing entries with
  | nil =>
    cases entries with
    | nil => rfl
    | cons e entries => cases h
  | cons x hs ih =>
    cases entries with
    | nil => cases h
    | cons e entries =>
      obtain ⟨hx, hrest⟩ := List.cons.inj h
      have hrow : q.row { Entry.plain x with suffix := e.2 } = .ofEntry e := by
        show (⟨(q.text? x).getD [], e.2, false⟩ : Row) = _
        rw [hx]
        rfl
      rw [List.map_cons, ← ih hrest, ← hrow]
      rfl

end Pool

/-- Window `w` over the pool `p` has become `w'` over `p'`, and shows `rows`; it is a page if it was
one, the pool accounts for it and for `m`, and what `m` names shows the same as before. -/
structure Shows (w : Window) (p : Pool) (m : Multiset (Handle × Option Suffix)) (rows : List Row)
    (w' : Window) (p' : Pool) : Prop where
  id_eq : w'.id = w.id
  browsing_eq : w'.flags.browsing = w.flags.browsing
  accounts : p'.Accounts (w'.lines.contents + m)
  keeps : p.Keeps p' (m.map Prod.fst)
  rows_eq : p'.rows w'.lines = rows

section
variable {w : Window} {p : Pool} {m : Multiset (Handle × Option Suffix)}

theorem Shows.refl (ha : p.Accounts (w.lines.contents + m)) : Shows w p m (p.rows w.lines) w p :=
  ⟨rfl, rfl, ha, .refl _ _, rfl⟩

theorem Shows.trans {w' w'' : Window} {p' p'' : Pool} {rows rows' : List Row}
    (h : Shows w p m rows w' p') (h' : Shows w' p' m rows' w'' p'') : Shows w p m rows' w'' p'' :=
  ⟨h'.id_eq.trans h.id_eq, h'.browsing_eq.trans h.browsing_eq, h'.accounts, h.keeps.trans h'.keeps,
    h'.rows_eq⟩

theorem Shows.dol_eq {w' : Window} {p' : Pool} {rows : List Row} (h : Shows w p m rows w' p') :
    w'.dol = rows.length := by
  rw [← h.rows_eq, Pool.length_rows]
  rfl

/-- Where dot is makes no difference. -/
theorem Shows.setDot {w' : Window} {p' : Pool} {rows : List Row} (h : Shows w p m rows w' p')
    (n : Nat) : Shows w p m rows (w'.setDot n) p' :=
  ⟨h.id_eq, h.browsing_eq, h.accounts, h.keeps, h.rows_eq⟩

theorem Shows.relabel {w' : Window} {p' : Pool} {rows : List Row} (h : Shows w p m rows w' p')
    (labels : Labels) : Shows w p m rows { w' with labels := labels } p' :=
  ⟨h.id_eq, h.browsing_eq, h.accounts, h.keeps, h.rows_eq⟩

namespace Window

theorem setMark_shows (ha : p.Accounts (w.lines.contents + m)) (n : Nat) (on : Bool) :
    Shows w p m (Sequence.update (p.rows w.lines) n fun r => { r with marked := on })
      (w.setMark n on) p := by
  have hlines : (w.setMark n on).lines = Sequence.update w.lines n fun x => { x with marked := on } := by
    cases n <;> rfl
  have hcontent : (w.setMark n on).lines.contents = w.lines.contents := by
    have hkept : (w.setMark n on).lines.map Entry.content =
        Sequence.update (w.lines.map Entry.content) n fun c => c := by
      rw [hlines]
      exact Sequence.map_update Entry.content (fun _ => rfl) w.lines n
    exact Multiset.coe_eq_coe.mpr (List.Perm.of_eq (hkept.trans (Sequence.update_id _ n)))
  refine ⟨by cases n <;> rfl, by cases n <;> rfl, hcontent.symm ▸ ha, .refl _ _, ?_⟩
  rw [hlines]
  exact Sequence.map_update p.row (fun _ => rfl) w.lines n

theorem clearMarks_shows (ha : p.Accounts (w.lines.contents + m)) :
    Shows w p m ((p.rows w.lines).map Row.unmark) w.clearMarks p := by
  refine ⟨rfl, rfl, ?_, .refl _ _, Pool.rows_clearMarks p w.lines⟩
  show p.Accounts (w.lines.clearMarks.contents + m)
  rw [LineMap.contents_clearMarks]
  exact ha

theorem exchange_shows {insert : List Entry}
    (ha : p.Accounts (LineMap.contents insert + (w.lines.contents + m))) {start remove : Nat}
    (hfit : start + remove ≤ w.dol) :
    Succeeds (w.exchange p start remove insert) fun r =>
      Shows w p m (Sequence.splice (p.rows w.lines) start remove (p.rows insert)) r.1 r.2.1 := by
  refine (exchange_accounts ha hfit).mono ?_
  rintro ⟨w', p', count⟩ ⟨rfl, hacc, hkeeps⟩
  refine ⟨rfl, rfl, hacc, hkeeps.right, ?_⟩
  rw [Pool.rows_keeps hkeeps fun _ hc => Multiset.mem_add.mpr (.inl hc), splice_lines,
    LineMap.splice_eq]
  exact Sequence.map_splice p.row w.lines start remove insert

/-- What goes in is new to the pool. -/
theorem enter_shows (ha : p.Accounts (w.lines.contents + m)) {start remove : Nat}
    (hfit : start + remove ≤ w.dol) {texts : List Bytes} {new : List Entry}
    (hnew : LineMap.handles new = (p.append texts).1) {rows : List Row}
    (hrows : (p.append texts).2.rows new = rows) :
    Succeeds (w.exchange (p.append texts).2 start remove new) fun r =>
      Shows w p m (Sequence.splice (p.rows w.lines) start remove rows) r.1 r.2.1 := by
  obtain ⟨hacc, hkeeps⟩ := ha.enter texts hnew
  have hold : (p.append texts).2.rows w.lines = p.rows w.lines :=
    Pool.rows_keeps hkeeps fun _ hc => Multiset.mem_add.mpr (.inl hc)
  refine (exchange_shows hacc hfit).mono fun r hr => ?_
  rw [hold, hrows] at hr
  exact { hr with keeps := hkeeps.right.trans hr.keeps }

theorem insertEntries_shows (ha : p.Accounts (w.lines.contents + m)) {after : Nat}
    (hfit : after ≤ w.dol) (entries : List (Bytes × Option Suffix)) :
    Succeeds (w.insertEntries p after entries) fun r =>
      Shows w p m (Sequence.splice (p.rows w.lines) after 0 (entries.map Row.ofEntry)) r.1 r.2 := by
  have htexts := ha.balanced.append_texts (entries.map Prod.fst)
  have hlen : (p.append (entries.map Prod.fst)).1.length = entries.length := by
    rw [Pool.length_append, List.length_map]
  have hhandles : LineMap.handles (((p.append (entries.map Prod.fst)).1.zip entries).map
      fun x => { Entry.plain x.1 with suffix := x.2.2 }) = (p.append (entries.map Prod.fst)).1 := by
    rw [LineMap.handles, List.map_map]
    exact List.map_fst_zip (Nat.le_of_eq hlen)
  unfold insertEntries
  simp only [Succeeds.bind_iff, Succeeds.pure_iff]
  refine (enter_shows ha (show after + 0 ≤ w.dol from hfit) hhandles (Pool.rows_zip htexts)).mono
    fun r hr => ?_
  split
  · exact hr
  · exact hr.setDot _

theorem insertLines_shows (ha : p.Accounts (w.lines.contents + m)) {after : Nat}
    (hfit : after ≤ w.dol) (lines : List Bytes) :
    Succeeds (w.insertLines p after lines) fun r =>
      Shows w p m (Sequence.splice (p.rows w.lines) after 0 (lines.map Row.plain)) r.1 r.2 := by
  have h := insertEntries_shows ha hfit (lines.map fun line => (line, none))
  rw [List.map_map] at h
  exact h

section
variable {start stop : Nat} (h₁ : 1 ≤ start) (hs : start ≤ stop) (hstop : stop ≤ w.dol)
include h₁ hs hstop

theorem deleteLines_shows (ha : p.Accounts (w.lines.contents + m)) :
    Succeeds (w.deleteLines p start stop) fun r =>
      Shows w p m (Sequence.splice (p.rows w.lines) (start - 1) (stop - start + 1) []) r.1
        r.2 := by
  have hin : (decide (start = 0) || decide (stop < start)) = false := by
    simp only [Bool.or_eq_false_iff, decide_eq_false_iff_not]
    omega
  have hfit : start - 1 + (stop - start + 1) ≤ w.dol := by omega
  have hnone : p.Accounts (LineMap.contents [] + (w.lines.contents + m)) := by simpa using ha
  unfold deleteLines
  simp only [hin, Bool.false_eq_true, if_false, Succeeds.bind_iff, Succeeds.pure_iff]
  exact (exchange_shows hnone hfit).mono fun r hr => hr.setDot _

theorem replaceLines_shows (ha : p.Accounts (w.lines.contents + m)) (lines : List Bytes) :
    Succeeds (w.replaceLines p start stop lines) fun r =>
      Shows w p m (Sequence.splice (p.rows w.lines) (start - 1) (stop - start + 1)
        (lines.map Row.plain)) r.1 r.2 := by
  cases lines with
  | nil => exact deleteLines_shows h₁ hs hstop ha
  | cons line rest =>
    have hin : (decide (start = 0) || decide (stop < start)) = false := by
      simp only [Bool.or_eq_false_iff, decide_eq_false_iff_not]
      omega
    generalize hl : line :: rest = lines
    have hne : lines.isEmpty = false := by simp [← hl]
    have hhandles : LineMap.handles (LineMap.ofHandles (p.append lines).1) = (p.append lines).1 := by
      simp [LineMap.handles, LineMap.ofHandles, Entry.plain, Function.comp_def]
    have hrows := Pool.rows_ofHandles (ha.balanced.append_texts lines)
    have hfit : start - 1 + (stop - start + 1) ≤ w.dol := by omega
    unfold replaceLines
    simp only [hne, hin, Bool.false_eq_true, if_false, Succeeds.bind_iff, Succeeds.pure_iff]
    exact (enter_shows ha hfit hhandles hrows).mono fun r hr => hr.setDot _

theorem copyLines_shows (ha : p.Accounts (w.lines.contents + m)) {after : Nat}
    (hafter : after ≤ w.dol) :
    Succeeds (w.copyLines p start stop after) fun r =>
      Shows w p m (Sequence.splice (p.rows w.lines) after 0
        ((Sequence.run (p.rows w.lines) start stop).map Row.unmark)) r.1 r.2 := by
  have hin : (decide (start = 0) || decide (stop < start) || decide (w.dol < stop)) = false := by
    simp only [Bool.or_eq_false_iff, decide_eq_false_iff_not]
    omega
  generalize hcopies : (w.lines.removed (start - 1) (stop - start + 1)).map Entry.unmark = copies
  have hsub : LineMap.contents copies ⊆ w.lines.contents + m := by
    intro c hc
    rw [← hcopies, LineMap.contents_map_unmark] at hc
    obtain ⟨x, hx, rfl⟩ := LineMap.mem_contents.mp hc
    exact Multiset.mem_add.mpr
      (.inl (LineMap.mem_contents.mpr ⟨x, w.lines.removed_subset _ _ hx, rfl⟩))
  have hrows : p.rows copies = (Sequence.run (p.rows w.lines) start stop).map Row.unmark := by
    rw [← hcopies, LineMap.removed_eq_run, Pool.rows, Pool.rows, ← Sequence.map_run, List.map_map,
      List.map_map]
    rfl
  unfold copyLines
  simp only [hin, Bool.false_eq_true, if_false, hcopies, Succeeds.bind_iff, Succeeds.pure_iff]
  refine (ha.share hsub).mono fun q hq => ?_
  have hsame (l : LineMap) : q.rows l = p.rows l := Pool.rows_congr fun h _ => hq.2 h
  refine (exchange_shows hq.1 (show after + 0 ≤ w.dol from hafter)).mono fun r hr => ?_
  rw [hsame, hsame, hrows] at hr
  have hkeeps : p.Keeps q (m.map Prod.fst) := fun h _ => hq.2 h
  exact { hr with keeps := hkeeps.trans hr.keeps }

theorem moveLines_shows (ha : p.Accounts (w.lines.contents + m)) {after : Nat}
    (hafter : after ≤ w.dol) (hout : ¬(start ≤ after ∧ after < stop)) :
    Succeeds (w.moveLines start stop after) fun w' =>
      Shows w p m (Sequence.move (p.rows w.lines) start stop after) w' p := by
  have hin : (decide (start = 0) || decide (stop < start) || decide (w.dol < stop)) = false := by
    simp only [Bool.or_eq_false_iff, decide_eq_false_iff_not]
    omega
  have hperm : (w.move start stop after).lines.Perm w.lines := w.lines.relocate_perm (by omega)
  have hlines : (w.move start stop after).lines = Sequence.move w.lines start stop after :=
    w.lines.relocate_eq_move h₁ hs hstop hout
  rw [moveLines_eq]
  simp only [hin, Bool.false_eq_true, if_false, Nat.not_lt.mpr hafter, Bool.and_eq_true,
    decide_eq_true_eq, hout, Succeeds.pure_iff]
  refine ⟨rfl, rfl, (LineMap.contents_perm hperm).symm ▸ ha, .refl _ _, ?_⟩
  rw [hlines]
  exact Sequence.map_move p.row w.lines start stop after

end

/-- Turning a line into others replaces it by them. -/
theorem reviseLine_shows (ha : p.Accounts (w.lines.contents + m)) {n : Nat} (h₁ : 1 ≤ n)
    (hn : n ≤ w.dol) (lines : List Bytes) :
    Succeeds (w.reviseLine p n lines) fun r =>
      Shows w p m (Sequence.splice (p.rows w.lines) (n - 1) 1 (lines.map Row.plain)) r.1
        r.2 := by
  have hone : n - n + 1 = 1 := by omega
  have h := replaceLines_shows h₁ (Nat.le_refl n) hn ha lines
  rw [hone] at h
  unfold reviseLine
  simp only [Succeeds.bind_iff, Succeeds.pure_iff]
  refine h.mono fun r hr => ?_
  split
  · exact hr
  · exact hr.relabel _

/-- Rows of which some, by number from top to bottom, are turned into others; `shift` is the number
of rows that came in above. -/
def reviseRows (rows : List Row) (shift : Nat) : List (Nat × List Bytes) → List Row
  | [] => rows
  | (n, lines) :: rest =>
    reviseRows (Sequence.splice rows (n + shift - 1) 1 (lines.map Row.plain))
      (shift + (lines.length - 1)) rest

theorem reviseLines_shows (changes : List (Nat × List Bytes)) {w : Window} {p : Pool} {shift : Nat}
    (ha : p.Accounts (w.lines.contents + m))
    (hfit : ∀ c ∈ changes, 1 ≤ c.1 ∧ c.1 + shift ≤ w.dol ∧ c.2 ≠ []) :
    Succeeds (w.reviseLines p shift changes) fun r =>
      Shows w p m (reviseRows (p.rows w.lines) shift changes) r.1 r.2 := by
  induction changes generalizing w p shift with
  | nil => exact Succeeds.pure_iff.mpr (.refl ha)
  | cons c rest ih =>
    obtain ⟨n, lines⟩ := c
    obtain ⟨⟨h₁, hn, hl⟩, hrest⟩ := List.forall_mem_cons.mp hfit
    have hpos : 1 ≤ lines.length := List.length_pos_iff.mpr hl
    dsimp only at h₁ hn
    unfold reviseLines
    rw [Succeeds.bind_iff]
    refine (reviseLine_shows ha (Nat.le_add_right_of_le h₁) hn lines).mono ?_
    rintro ⟨w', p'⟩ hsh
    dsimp only at hsh ⊢
    have hin : n + shift - 1 + 1 ≤ (p.rows w.lines).length := by
      rw [Pool.length_rows]
      exact show n + shift - 1 + 1 ≤ w.dol by omega
    have hdol : w'.dol = w.dol - 1 + lines.length := by
      rw [hsh.dol_eq, Sequence.length_splice _ _ hin, Pool.length_rows, List.length_map]
      rfl
    have hlast : n + shift + lines.length - 1 ≤ w'.dol := by omega
    simp only [difference_of_le hpos, difference_of_le (show 1 ≤ n + shift + lines.length by omega),
      goto_of_le hlast, Succeeds.bind_iff, Succeeds.ok_iff]
    have hsh' := hsh.setDot (n + shift + lines.length - 1)
    refine (ih hsh'.accounts fun c hc => ?_).mono fun r hr => ?_
    · obtain ⟨hc₁, hc, hcl⟩ := hrest c hc
      refine ⟨hc₁, ?_, hcl⟩
      show c.1 + (shift + (lines.length - 1)) ≤ w'.dol
      omega
    · rw [hsh'.rows_eq] at hr
      exact hsh'.trans hr

end Window

/-- What an edit does to the rows of a window. -/
def Edit.rows (rows : List Row) : Edit → List Row
  | .insert after lines => Sequence.splice rows after 0 (lines.map Row.plain)
  | .delete start stop => Sequence.splice rows (start - 1) (stop - start + 1) []
  | .replace start stop lines =>
    Sequence.splice rows (start - 1) (stop - start + 1) (lines.map Row.plain)
  | .copy start stop after =>
    Sequence.splice rows after 0 ((Sequence.run rows start stop).map Row.unmark)
  | .move start stop after => Sequence.move rows start stop after
  | .revise changes => Window.reviseRows rows 0 changes

theorem Edit.perform_shows (ha : p.Accounts (w.lines.contents + m)) {change : Edit}
    (hfit : change.Fits w.dol) :
    Succeeds (change.perform w p) fun r =>
      Shows w p m (change.rows (p.rows w.lines)) r.1 r.2 := by
  cases change with
  | insert after lines => exact Window.insertLines_shows ha hfit lines
  | delete start stop => exact Window.deleteLines_shows hfit.1 hfit.2.1 hfit.2.2 ha
  | replace start stop lines => exact Window.replaceLines_shows hfit.1 hfit.2.1 hfit.2.2 ha lines
  | copy start stop after =>
    obtain ⟨h₁, hs, hstop, hafter⟩ := hfit
    exact Window.copyLines_shows h₁ hs hstop ha hafter
  | move start stop after =>
    obtain ⟨h₁, hs, hstop, hafter, hout⟩ := hfit
    unfold Edit.perform
    simp only [Succeeds.bind_iff, Succeeds.pure_iff]
    exact Window.moveLines_shows h₁ hs hstop ha hafter hout
  | revise changes => exact Window.reviseLines_shows changes ha hfit

end

end LineEditor
