import LineEditor.Proofs.Rows
import LineEditor.Proofs.Undo

/-!
# Windows without a pool

A desk is some windows over one pool with one undo slot, worked on in any order. A sheet is what a
desk is to someone who knows no handles: each window has rows of its own, and so has the record.
What is read through the pool at a desk is what the sheet shows.

Marks are shown too, but for one case. Undoing gives the record the marks of the window, and a
record that is taken over by the next capture keeps them, while one that is made anew has none.
-/

namespace LineEditor

/-- Windows over one pool, and the undo slot they share. -/
structure Desk where
  pool : Pool
  windows : List Window
  undo : UndoSlot

/-- Windows and a record, by their numbers, that have rows of their own. -/
structure Sheet where
  windows : List (Nat × List Row)
  record : Option (Nat × List Row)
  deriving Repr, DecidableEq

/-- What a splice puts in: a line of its own, or one shared with line `n` of window `k`. -/
inductive Piece where
  | new (row : Row)
  | shared (k n : Nat) (marked : Bool)
  deriving Repr, DecidableEq

/-- What is done at a desk; `k` tells the window by its place. -/
inductive Act where
  | openWindow (id : Nat)
  | edit (k : Nat) (change : Edit)
  | insertEntries (k after : Nat) (entries : List (Bytes × Option Suffix))
  | rewrite (k n : Nat) (lines : List Bytes)
  | splice (k start remove : Nat) (pieces : List Piece)
  | mark (k n : Nat) (on : Bool)
  | clearMarks (k : Nat)
  | capture (k : Nat)
  | undo (k : Nat)
  | discard
  | discardFor (id : Nat)
  | closeWindow (k : Nat)
  deriving Repr, DecidableEq

namespace Desk

def empty : Desk := ⟨.empty, [], .empty⟩

def window (d : Desk) (k : Nat) : Except Breach Window :=
  match d.windows[k]? with
  | some w => .ok w
  | none => .error (.placeOutside k d.windows.length)

def work (d : Desk) (k : Nat) (f : Window → Pool → Except Breach (Window × Pool)) :
    Except Breach Desk := do
  let (w, p) ← f (← d.window k) d.pool
  return { d with pool := p, windows := d.windows.set k w }

/-- The entry of a piece, with a reference of its own. -/
def stock (d : Desk) : Piece → Except Breach (Entry × Desk)
  | .new row =>
    let (h, p) := d.pool.insert row.text
    return (⟨h, row.marked, row.suffix⟩, { d with pool := p })
  | .shared k n marked => do
    let w ← d.window k
    match w.entry? n with
    | some x => return ({ x with marked }, { d with pool := ← d.pool.retain x.handle })
    | none => throw (.placeOutside n w.dol)

def stockAll (d : Desk) : List Piece → Except Breach (List Entry × Desk)
  | [] => return ([], d)
  | piece :: rest => do
    let (x, d) ← d.stock piece
    let (xs, d) ← d.stockAll rest
    return (x :: xs, d)

def apply (d : Desk) : Act → Except Breach Desk
  | .openWindow id => return { d with windows := d.windows ++ [.empty id .none] }
  | .edit k change => d.work k fun w p => change.perform w p
  | .insertEntries k after entries => d.work k fun w p => w.insertEntries p after entries
  | .rewrite k n lines => d.work k fun w p => w.reviseLine p n lines
  | .splice k start remove pieces => do
    let (insert, d) ← d.stockAll pieces
    d.work k fun w p => do
      let (w, p, _) ← w.exchange p start remove insert
      return (w, p)
  | .mark k n on => d.work k fun w p => return (w.setMark n on, p)
  | .clearMarks k => d.work k fun w p => return (w.clearMarks, p)
  | .capture k => do
    let (u, w, p) ← d.undo.capture (← d.window k) d.pool
    return ⟨p, d.windows.set k w, u⟩
  | .undo k => do
    match d.undo.undo? (← d.window k) with
    | some (u, w) => return { d with windows := d.windows.set k w, undo := u }
    | none => return d
  | .discard => do
    let (u, p) ← d.undo.discard d.pool
    return { d with pool := p, undo := u }
  | .discardFor id => do
    let (u, p) ← d.undo.discardFor id d.pool
    return { d with pool := p, undo := u }
  | .closeWindow k => do
    let (p, _) ← (← d.window k).release d.pool
    return { d with pool := p, windows := d.windows.eraseIdx k }

def run (d : Desk) : List Act → Except Breach Desk
  | [] => return d
  | a :: rest => do (← d.apply a).run rest

/-- What is read through the pool. -/
def read (d : Desk) : Except Breach Sheet := do
  let windows ← d.windows.mapM fun w => do return (w.id, ← d.pool.readRows w.lines)
  match d.undo.record with
  | some r => return ⟨windows, some (r.window, ← d.pool.readRows r.lines)⟩
  | none => return ⟨windows, none⟩

end Desk

namespace Sheet

def empty : Sheet := ⟨[], none⟩

def rows (s : Sheet) (k : Nat) : List Row := (s.windows[k]?.map Prod.snd).getD []

def work (s : Sheet) (k : Nat) (f : List Row → List Row) : Sheet :=
  { s with windows := s.windows.modify k fun w => (w.1, f w.2) }

def piece (s : Sheet) : Piece → Row
  | .new row => row
  | .shared k n marked => { ((s.rows k)[n - 1]?).getD (.plain []) with marked }

def unmarkRows (w : Nat × List Row) : Nat × List Row := (w.1, w.2.map Row.unmark)

def apply (s : Sheet) : Act → Sheet
  | .openWindow id => { s with windows := s.windows ++ [(id, [])] }
  | .edit k change => s.work k change.rows
  | .insertEntries k after entries =>
    s.work k fun rows => Sequence.splice rows after 0 (entries.map Row.ofEntry)
  | .rewrite k n lines => s.work k fun rows => Sequence.splice rows (n - 1) 1 (lines.map Row.plain)
  | .splice k start remove pieces =>
    s.work k fun rows => Sequence.splice rows start remove (pieces.map s.piece)
  | .mark k n on => s.work k fun rows => Sequence.update rows n fun r => { r with marked := on }
  | .clearMarks k => s.work k fun rows => rows.map Row.unmark
  | .capture k => { s with record := s.windows[k]?.map unmarkRows }
  | .undo k =>
    match s.windows[k]?, s.record with
    | some w, some r =>
      if r.1 = w.1 then ⟨s.windows.set k (w.1, r.2), some (w.1, w.2)⟩ else s
    | _, _ => s
  | .discard => { s with record := none }
  | .discardFor id => { s with record := s.record.filter fun r => r.1 ≠ id }
  | .closeWindow k => { s with windows := s.windows.eraseIdx k }

def run (s : Sheet) (acts : List Act) : Sheet := acts.foldl apply s

/-- The sheet as it is apart from marks. -/
def unmark (s : Sheet) : Sheet := ⟨s.windows.map unmarkRows, s.record.map unmarkRows⟩

end Sheet

@[simp] theorem unmark_comp_unmark : Row.unmark ∘ Row.unmark = Row.unmark := rfl

theorem unmark_unmark_rows (rows : List Row) :
    (rows.map Row.unmark).map Row.unmark = rows.map Row.unmark := by simp

@[simp] theorem Sheet.fst_unmarkRows (w : Nat × List Row) : (unmarkRows w).1 = w.1 := rfl

@[simp] theorem Sheet.snd_unmarkRows (w : Nat × List Row) : (unmarkRows w).2 = w.2.map Row.unmark := rfl

@[simp] theorem Sheet.unmarkRows_mk (id : Nat) (rows : List Row) :
    unmarkRows (id, rows) = (id, rows.map Row.unmark) := rfl

@[simp] theorem Sheet.unmarkRows_unmarkRows (w : Nat × List Row) :
    unmarkRows (unmarkRows w) = unmarkRows w := by simp [unmarkRows]

@[simp] theorem Sheet.unmarkRows_comp : unmarkRows ∘ unmarkRows = unmarkRows :=
  funext Sheet.unmarkRows_unmarkRows

/-- A piece that is shared is there. -/
def Piece.Fits (s : Sheet) : Piece → Prop
  | .new _ => True
  | .shared k n _ => 1 ≤ n ∧ n ≤ (s.rows k).length

/-- The act is in range: its window is there, and its lines and places lie in the window. -/
def Act.Fits (s : Sheet) : Act → Prop
  | .openWindow _ | .discard | .discardFor _ => True
  | .edit k change => k < s.windows.length ∧ change.Fits (s.rows k).length
  | .insertEntries k after _ => k < s.windows.length ∧ after ≤ (s.rows k).length
  | .rewrite k n _ => k < s.windows.length ∧ 1 ≤ n ∧ n ≤ (s.rows k).length
  | .splice k start remove pieces =>
    k < s.windows.length ∧ start + remove ≤ (s.rows k).length ∧ ∀ piece ∈ pieces, piece.Fits s
  | .mark k _ _ | .clearMarks k | .capture k | .undo k | .closeWindow k => k < s.windows.length

instance (s : Sheet) : (piece : Piece) → Decidable (piece.Fits s)
  | .new _ => inferInstanceAs (Decidable True)
  | .shared k n _ => inferInstanceAs (Decidable (1 ≤ n ∧ n ≤ (s.rows k).length))

instance (s : Sheet) : (a : Act) → Decidable (a.Fits s)
  | .openWindow _ | .discard | .discardFor _ => inferInstanceAs (Decidable True)
  | .edit k change =>
    inferInstanceAs (Decidable (k < s.windows.length ∧ change.Fits (s.rows k).length))
  | .insertEntries k after _ =>
    inferInstanceAs (Decidable (k < s.windows.length ∧ after ≤ (s.rows k).length))
  | .rewrite k n _ =>
    inferInstanceAs (Decidable (k < s.windows.length ∧ 1 ≤ n ∧ n ≤ (s.rows k).length))
  | .splice k start remove pieces =>
    inferInstanceAs (Decidable (k < s.windows.length ∧ start + remove ≤ (s.rows k).length ∧
      ∀ piece ∈ pieces, piece.Fits s))
  | .mark k _ _ | .clearMarks k | .capture k | .undo k | .closeWindow k =>
    inferInstanceAs (Decidable (k < s.windows.length))

/-- An undo comes to a window without marks. -/
def Act.Orderly (s : Sheet) : Act → Prop
  | .undo k => ∀ r ∈ s.rows k, r.marked = false
  | _ => True

instance (s : Sheet) : (a : Act) → Decidable (a.Orderly s)
  | .undo k => inferInstanceAs (Decidable (∀ r ∈ s.rows k, r.marked = false))
  | .openWindow _ | .edit .. | .insertEntries .. | .rewrite .. | .splice .. | .mark .. | .clearMarks _
  | .capture _ | .discard | .discardFor _ | .closeWindow _ => inferInstanceAs (Decidable True)

/-- Each act of the list is in range when its turn comes. -/
def Sheet.Fits (s : Sheet) : List Act → Prop
  | [] => True
  | a :: rest => a.Fits s ∧ (s.apply a).Fits rest

/-- No undo of the list comes to a window with marks. -/
def Sheet.Orderly (s : Sheet) : List Act → Prop
  | [] => True
  | a :: rest => a.Orderly s ∧ (s.apply a).Orderly rest

instance Sheet.decidableFits : (s : Sheet) → (acts : List Act) → Decidable (s.Fits acts)
  | _, [] => inferInstanceAs (Decidable True)
  | s, a :: rest =>
    have := decidableFits (s.apply a) rest
    inferInstanceAs (Decidable (a.Fits s ∧ (s.apply a).Fits rest))

instance Sheet.decidableOrderly : (s : Sheet) → (acts : List Act) → Decidable (s.Orderly acts)
  | _, [] => inferInstanceAs (Decidable True)
  | s, a :: rest =>
    have := decidableOrderly (s.apply a) rest
    inferInstanceAs (Decidable (a.Orderly s ∧ (s.apply a).Orderly rest))

/-! ## What is held at a desk -/

namespace Desk

def contents (d : Desk) : Multiset (Handle × Option Suffix) :=
  LineMap.contents (d.windows.flatMap Window.lines) + d.undo.contents

/-- What windows other than window `k` hold. -/
def others (d : Desk) (k : Nat) : Multiset (Handle × Option Suffix) :=
  LineMap.contents ((d.windows.eraseIdx k).flatMap Window.lines)

/-- The pool accounts for the windows and the record. -/
def Sound (d : Desk) : Prop := d.pool.Accounts d.contents

/-- What is shown at the desk. -/
def sheet (d : Desk) : Sheet where
  windows := d.windows.map fun w => (w.id, d.pool.rows w.lines)
  record := d.undo.record.map fun r => (r.window, d.pool.rows r.lines)

variable {d : Desk} {k : Nat} {w : Window}

theorem contents_split (hw : d.windows[k]? = some w) :
    d.contents = w.lines.contents + (d.others k + d.undo.contents) := by
  obtain ⟨hk, rfl⟩ := List.getElem?_eq_some_iff.mp hw
  have hperm := (List.getElem_cons_eraseIdx_perm hk).flatMap_right Window.lines
  rw [contents, ← LineMap.contents_perm hperm, List.flatMap_cons, LineMap.contents_append, add_assoc]
  rfl

theorem window_eq (hw : d.windows[k]? = some w) : d.window k = .ok w := by
  simp [window, hw]

theorem rows_sheet (hw : d.windows[k]? = some w) : d.sheet.rows k = d.pool.rows w.lines := by
  simp [Sheet.rows, sheet, hw]

theorem mem_contents_of_mem {w : Window} (hw : w ∈ d.windows) : w.lines.contents ⊆ d.contents := by
  intro c hc
  obtain ⟨x, hx, rfl⟩ := LineMap.mem_contents.mp hc
  exact Multiset.mem_add.mpr
    (.inl (LineMap.mem_contents.mpr ⟨x, List.mem_flatMap.mpr ⟨w, hw, hx⟩, rfl⟩))

theorem read_eq (hd : d.Sound) : d.read = .ok d.sheet := by
  have hwindows (l : List Window) (hl : l ⊆ d.windows) :
      (l.mapM fun w => do return (w.id, ← d.pool.readRows w.lines) : Except Breach _) =
        .ok (l.map fun w => (w.id, d.pool.rows w.lines)) := by
    induction l with
    | nil => rfl
    | cons w l ih =>
      have hw := Pool.readRows_eq hd (mem_contents_of_mem (hl List.mem_cons_self))
      rw [List.mapM_cons, hw, ih fun v hv => hl (List.mem_cons_of_mem w hv)]
      rfl
  unfold read sheet
  rw [hwindows d.windows fun _ => id]
  cases hr : d.undo.record with
  | none => rfl
  | some r =>
    have hrecord : r.lines.contents ⊆ d.contents := by
      intro c hc
      rw [contents, UndoSlot.contents_of_some hr]
      exact Multiset.mem_add.mpr (.inr hc)
    show (d.pool.readRows r.lines >>= fun rows => pure (Sheet.mk _ (some (r.window, rows)))) = _
    rw [Pool.readRows_eq hd hrecord]
    rfl

/-! ## One window among others -/

theorem exists_window (h : k < d.sheet.windows.length) : ∃ w, d.windows[k]? = some w := by
  have hk : k < d.windows.length := by simpa [sheet] using h
  exact ⟨_, List.getElem?_eq_getElem hk⟩

theorem getElem?_set_self (hw : d.windows[k]? = some w) (w' : Window) :
    (d.windows.set k w')[k]? = some w' := by
  rw [List.getElem?_set_self (List.getElem?_eq_some_iff.mp hw).1]

theorem contents_set (hw : d.windows[k]? = some w) (w' : Window) (p : Pool) (u : UndoSlot) :
    contents ⟨p, d.windows.set k w', u⟩ = w'.lines.contents + (d.others k + u.contents) := by
  rw [contents_split (getElem?_set_self hw w'), others, others, List.eraseIdx_set_eq]

theorem mem_others {i : Nat} {v : Window} (hv : d.windows[i]? = some v) (hi : i ≠ k) :
    v.lines.contents ⊆ d.others k := by
  intro c hc
  obtain ⟨x, hx, rfl⟩ := LineMap.mem_contents.mp hc
  have hmem : v ∈ d.windows.eraseIdx k := List.mem_eraseIdx_iff_getElem?.mpr ⟨i, hi, hv⟩
  exact LineMap.mem_contents.mpr ⟨x, List.mem_flatMap.mpr ⟨v, hmem, hx⟩, rfl⟩

/-- The windows as they are shown. -/
theorem windows_set (hw : d.windows[k]? = some w) {f : List Row → List Row} {w' : Window} {p : Pool}
    (hid : w'.id = w.id) (hrows : p.rows w'.lines = f (d.pool.rows w.lines))
    (hkeeps : d.pool.Keeps p ((d.others k).map Prod.fst)) (u : UndoSlot) :
    (sheet ⟨p, d.windows.set k w', u⟩).windows = (d.sheet.work k f).windows := by
  refine List.ext_getElem? fun i => ?_
  unfold sheet Sheet.work
  simp only [List.getElem?_map, List.getElem?_modify]
  by_cases hi : k = i
  · subst hi
    simp only [getElem?_set_self hw w', hw, if_true, Option.map_some, hid, hrows]
    rfl
  · simp only [List.getElem?_set_ne hi, hi, if_false]
    cases hv : d.windows[i]? with
    | none => rfl
    | some v =>
      have hsame : p.rows v.lines = d.pool.rows v.lines :=
        Pool.rows_keeps hkeeps (mem_others hv (Ne.symm hi))
      simp [hsame]

/-- The record as it is shown. -/
theorem record_keeps {p : Pool} (hkeeps : d.pool.Keeps p (d.undo.contents.map Prod.fst))
    (windows : List Window) : (sheet ⟨p, windows, d.undo⟩).record = d.sheet.record := by
  unfold sheet
  cases hr : d.undo.record with
  | none => rfl
  | some r =>
    have hsame : p.rows r.lines = d.pool.rows r.lines :=
      Pool.rows_keeps hkeeps (UndoSlot.contents_of_some hr ▸ fun _ => id)
    simp [hsame]

/-- Work on one window shows there and nowhere else. -/
theorem work_shows (hw : d.windows[k]? = some w)
    {f : Window → Pool → Except Breach (Window × Pool)} {g : List Row → List Row}
    (h : Succeeds (f w d.pool) fun r =>
      Shows w d.pool (d.others k + d.undo.contents) (g (d.pool.rows w.lines)) r.1 r.2) :
    Succeeds (d.work k f) fun d' => d'.Sound ∧ d'.sheet = d.sheet.work k g := by
  unfold work
  simp only [window_eq hw, Succeeds.bind_iff, Succeeds.ok_iff, Succeeds.pure_iff]
  refine h.mono fun r hr => ⟨?_, ?_⟩
  · rw [Sound, contents_set hw]
    exact hr.accounts
  · exact Sheet.mk.injEq .. |>.mpr
      ⟨windows_set hw hr.id_eq hr.rows_eq hr.keeps.left d.undo,
        record_keeps hr.keeps.right _⟩

/-- Without a change of what is held, all shows as before over a pool that keeps it. -/
theorem sheet_keeps {p : Pool} (h : d.pool.Keeps p (d.contents.map Prod.fst)) :
    sheet { d with pool := p } = d.sheet := by
  refine Sheet.mk.injEq .. |>.mpr ⟨List.map_congr_left fun w hw => ?_, record_keeps h.right _⟩
  rw [Pool.rows_keeps h (mem_contents_of_mem hw)]

/-! ## Splicing pieces -/

/-- Entries for pieces are in the pool, beside all that is held and `m`, and show the pieces. -/
structure Stocked (d : Desk) (m : Multiset (Handle × Option Suffix)) (insert : List Entry)
    (rows : List Row) (d' : Desk) : Prop where
  windows_eq : d'.windows = d.windows
  undo_eq : d'.undo = d.undo
  accounts : d'.pool.Accounts (LineMap.contents insert + (d.contents + m))
  keeps : d.pool.Keeps d'.pool ((d.contents + m).map Prod.fst)
  rows_eq : d'.pool.rows insert = rows

section
variable {m : Multiset (Handle × Option Suffix)}

theorem stock_shows (ha : d.pool.Accounts (d.contents + m)) {piece : Piece}
    (hfit : piece.Fits d.sheet) :
    Succeeds (d.stock piece) fun r => Stocked d m [r.1] [d.sheet.piece piece] r.2 := by
  cases piece with
  | new row =>
    have htext := ha.balanced.append_texts [row.text]
    have hhandle : LineMap.handles [⟨(d.pool.insert row.text).1, row.marked, row.suffix⟩] =
        (d.pool.append [row.text]).1 := rfl
    obtain ⟨hacc, hkeeps⟩ := ha.enter [row.text] hhandle
    refine Succeeds.pure_iff.mpr ⟨rfl, rfl, hacc, hkeeps, ?_⟩
    have hself : (d.pool.insert row.text).2.text? (d.pool.insert row.text).1 = some row.text :=
      (List.cons.inj htext).1
    show [(⟨((d.pool.insert row.text).2.text? (d.pool.insert row.text).1).getD [], _, _⟩ : Row)] = [row]
    rw [hself]
    rfl
  | shared k n marked =>
    obtain ⟨h₁, hn⟩ := hfit
    cases hw : d.windows[k]? with
    | none =>
      have hnil : d.sheet.rows k = [] := by simp [Sheet.rows, sheet, hw]
      rw [hnil, List.length_nil] at hn
      omega
    | some w =>
      obtain ⟨i, rfl⟩ : ∃ i, n = i + 1 := ⟨n - 1, by omega⟩
      rw [rows_sheet hw, Pool.length_rows] at hn
      have hentry : w.entry? (i + 1) = some w.lines[i] := List.getElem?_eq_getElem hn
      have hmem : w.lines[i].content ∈ d.contents + m :=
        Multiset.mem_add.mpr (.inl (mem_contents_of_mem (List.mem_of_getElem? hw)
          (LineMap.mem_contents.mpr ⟨_, List.getElem_mem hn, rfl⟩)))
      unfold stock
      simp only [window_eq hw, hentry, Succeeds.bind_iff, Succeeds.ok_iff, Succeeds.pure_iff]
      refine (ha.retain hmem).mono fun q hq => ⟨rfl, rfl, hq.1, fun h _ => hq.2 h, ?_⟩
      have htext : q.text? w.lines[i].handle = d.pool.text? w.lines[i].handle := hq.2 _
      have hline : w.lines[i]? = some w.lines[i] := List.getElem?_eq_getElem hn
      simp [Pool.rows, Pool.row, htext, Sheet.piece, rows_sheet hw, hline]

theorem stockAll_shows (pieces : List Piece) {d : Desk} {m : Multiset (Handle × Option Suffix)}
    (ha : d.pool.Accounts (d.contents + m)) (hfit : ∀ piece ∈ pieces, piece.Fits d.sheet) :
    Succeeds (d.stockAll pieces) fun r =>
      Stocked d m r.1 (pieces.map d.sheet.piece) r.2 := by
  induction pieces generalizing d m with
  | nil => exact Succeeds.pure_iff.mpr ⟨rfl, rfl, by simpa using ha, .refl _ _, rfl⟩
  | cons piece rest ih =>
    obtain ⟨hpiece, hrest⟩ := List.forall_mem_cons.mp hfit
    unfold stockAll
    simp only [Succeeds.bind_iff, Succeeds.pure_iff]
    refine (stock_shows ha hpiece).mono ?_
    rintro ⟨x, p, windows, undo⟩ ⟨rfl, rfl, hacc, hkeeps, hrow⟩
    -- the entry of this piece is among what the rest of them leave alone
    have hacc' : p.Accounts (d.contents + (LineMap.contents [x] + m)) := by
      rw [add_left_comm]
      exact hacc
    have hall : d.contents ⊆ d.contents + m := fun c hc => Multiset.mem_add.mpr (.inl hc)
    have hsheet := sheet_keeps (hkeeps.mono (Multiset.map_subset_map hall))
    refine (ih (d := { d with pool := p }) hacc' (hsheet ▸ hrest)).mono ?_
    rintro ⟨xs, q, windows, undo⟩ ⟨rfl, rfl, hacc'', hkeeps', hrows⟩
    rw [hsheet] at hrows
    dsimp only at hkeeps hkeeps' hacc'' hrow hrows
    have hx : q.rows [x] = p.rows [x] := by
      refine Pool.rows_keeps hkeeps' fun c hc => ?_
      exact Multiset.mem_add.mpr (.inr (Multiset.mem_add.mpr (.inl hc)))
    refine ⟨rfl, rfl, ?_, hkeeps.trans (hkeeps'.mono (Multiset.map_subset_map fun c hc => ?_)), ?_⟩
    · refine Eq.mp (congrArg q.Accounts ?_) hacc''
      show LineMap.contents xs + (d.contents + (LineMap.contents [x] + m)) =
        LineMap.contents ([x] ++ xs) + (d.contents + m)
      rw [LineMap.contents_append]
      abel
    · show c ∈ d.contents + (LineMap.contents [x] + m)
      rw [add_left_comm]
      exact Multiset.mem_add.mpr (.inr hc)
    · show q.rows ([x] ++ xs) = _
      rw [Pool.rows_append, hx, hrow, hrows]
      rfl

end

/-! ## What an act comes to -/

end Desk

/-- The record has no marks. -/
def Sheet.Settled (s : Sheet) : Prop := ∀ r, s.record = some r → ∀ row ∈ r.2, row.marked = false

/-- The desk shows the sheet `s'`, which has come from `s`; marks are sure if the record had none. -/
structure Desk.Becomes (s s' : Sheet) (d' : Desk) : Prop where
  sound : d'.Sound
  alike : d'.sheet.unmark = s'.unmark
  exact : s.Settled → d'.sheet = s'

theorem Desk.Becomes.of_eq {s s' : Sheet} {d' : Desk} (hd : d'.Sound) (h : d'.sheet = s') :
    Desk.Becomes s s' d' :=
  ⟨hd, h ▸ rfl, fun _ => h⟩

namespace Desk

variable {d : Desk} {k : Nat}

theorem unmarked_of_settled (h : d.sheet.Settled) {r : UndoRecord} (hr : d.undo.record = some r) :
    r.lines.Unmarked := by
  intro x hx
  have hrecord : d.sheet.record = some (r.window, d.pool.rows r.lines) := by simp [sheet, hr]
  exact h _ hrecord _ (List.mem_map_of_mem hx)

theorem splice_shows (hd : d.Sound) {start remove : Nat} {pieces : List Piece}
    (hfit : (Act.splice k start remove pieces).Fits d.sheet) :
    Succeeds (d.apply (.splice k start remove pieces)) fun d' =>
      d'.Sound ∧ d'.sheet = d.sheet.apply (.splice k start remove pieces) := by
  obtain ⟨hk, hin, hpieces⟩ := hfit
  obtain ⟨w, hw⟩ := exists_window hk
  rw [rows_sheet hw, Pool.length_rows] at hin
  have ha : d.pool.Accounts (d.contents + 0) := by
    rw [add_zero]
    exact hd
  unfold apply
  simp only [Succeeds.bind_iff]
  refine (stockAll_shows pieces ha hpieces).mono ?_
  rintro ⟨insert, p, windows, undo⟩ ⟨rfl, rfl, hacc, hkeeps, hrows⟩
  rw [add_zero] at hacc hkeeps
  dsimp only at hacc hkeeps hrows
  have hsheet := sheet_keeps hkeeps
  rw [contents_split hw] at hacc
  have hgoal := work_shows (d := ⟨p, d.windows, d.undo⟩) hw
    (f := fun w p => do
      let (w, p, _) ← w.exchange p start remove insert
      return (w, p))
    (g := fun rows => Sequence.splice rows start remove (pieces.map d.sheet.piece)) ?_
  · rw [hsheet] at hgoal
    exact hgoal
  · simp only [Succeeds.bind_iff, Succeeds.pure_iff]
    rw [← hrows]
    exact Window.exchange_shows hacc hin

/-- Two maps of the same content show the same but for marks. -/
theorem unmark_rows {p : Pool} {l m : LineMap} (h : l.map Entry.content = m.map Entry.content) :
    (p.rows l).map Row.unmark = (p.rows m).map Row.unmark := by
  have hrow (n : LineMap) : (p.rows n).map Row.unmark =
      (n.map Entry.content).map fun c => ⟨(p.text? c.1).getD [], c.2, false⟩ := by
    rw [Pool.rows, List.map_map, List.map_map]
    rfl
  rw [hrow, hrow, h]

theorem capture_shows (hd : d.Sound) {w : Window} (hw : d.windows[k]? = some w) :
    Succeeds (d.apply (.capture k)) (Becomes d.sheet (d.sheet.apply (.capture k))) := by
  have ha := hd
  rw [Sound, contents_split hw, add_comm (d.others k)] at ha
  unfold apply
  simp only [window_eq hw, Succeeds.bind_iff, Succeeds.ok_iff, Succeeds.pure_iff]
  refine (UndoSlot.capture_recorded ha).mono ?_
  rintro ⟨u, w', p⟩ ⟨lines, hrecord, hcontent, hunmarked, hw', hacc, hkeeps⟩
  have hid : w'.id = w.id := by simpa using congrArg Window.id hw'
  have hlines : w'.lines = w.lines := by simpa using congrArg Window.lines hw'
  have hkept : p.rows w.lines = d.pool.rows w.lines :=
    Pool.rows_keeps hkeeps fun _ hc => Multiset.mem_add.mpr (.inl hc)
  have hwindows := windows_set hw (f := id) hid (hlines ▸ hkept) hkeeps.right u
  have hsame : (d.sheet.work k id).windows = d.sheet.windows := List.modify_id k _
  have hsheet : sheet ⟨p, d.windows.set k w', u⟩ = ⟨d.sheet.windows, some (w.id, p.rows lines)⟩ := by
    refine Sheet.mk.injEq .. |>.mpr ⟨hwindows.trans hsame, ?_⟩
    show u.record.map _ = _
    rw [hrecord]
    rfl
  have hshown : d.sheet.windows[k]? = some (w.id, d.pool.rows w.lines) := by simp [sheet, hw]
  have hgoal : d.sheet.apply (.capture k) =
      ⟨d.sheet.windows, some (w.id, (d.pool.rows w.lines).map Row.unmark)⟩ := by
    simp only [Sheet.apply, hshown, Option.map_some, Sheet.unmarkRows_mk]
  refine ⟨?_, ?_, fun hsettled => ?_⟩
  · rw [Sound, contents_set hw, hlines, add_comm (d.others k)]
    exact hacc
  · rw [hsheet, hgoal]
    simp only [Sheet.unmark, Option.map_some, Sheet.unmarkRows_mk]
    rw [unmark_unmark_rows, unmark_rows hcontent, hkept]
  · have hnew : lines = w.lines.clearMarks :=
      LineMap.eq_clearMarks (hunmarked fun r hr => unmarked_of_settled hsettled hr) hcontent
    rw [hsheet, hgoal, hnew, Pool.rows_clearMarks, hkept]

theorem undo_shows (hd : d.Sound) {w : Window} (hw : d.windows[k]? = some w) :
    Succeeds (d.apply (.undo k)) fun d' => d'.Sound ∧ d'.sheet = d.sheet.apply (.undo k) := by
  have hshown : d.sheet.windows[k]? = some (w.id, d.pool.rows w.lines) := by simp [sheet, hw]
  unfold apply Sheet.apply
  simp only [window_eq hw, hshown, Succeeds.bind_iff, Succeeds.ok_iff]
  cases hr : d.undo.record with
  | none =>
    have hnone : d.sheet.record = none := by simp [sheet, hr]
    simp only [UndoSlot.undo?, hr, hnone, Succeeds.pure_iff, and_true]
    exact hd
  | some r =>
    have hrecord : d.sheet.record = some (r.window, d.pool.rows r.lines) := by simp [sheet, hr]
    by_cases hid : r.window = w.id
    · simp only [UndoSlot.undo?, hr, hrecord, hid, if_true, Succeeds.pure_iff]
      refine ⟨?_, ?_⟩
      · rw [Sound, contents_split hw, UndoSlot.contents_of_some hr] at hd
        rw [Sound, contents_set hw]
        refine Eq.mp (congrArg d.pool.Accounts ?_) hd
        show w.lines.contents + (d.others k + r.lines.contents) =
          r.lines.contents + (d.others k + w.lines.contents)
        abel
      · simp [sheet, List.map_set, UndoSlot.recordOf]
    · simp only [UndoSlot.undo?, hr, hrecord, hid, if_false, Succeeds.pure_iff, and_true]
      exact hd

theorem discard_shows (hd : d.Sound) :
    Succeeds (d.apply .discard) fun d' => d'.Sound ∧ d'.sheet = d.sheet.apply .discard := by
  rw [Sound, contents, add_comm] at hd
  unfold apply
  simp only [Succeeds.bind_iff, Succeeds.pure_iff]
  refine (UndoSlot.discard_accounts hd).mono ?_
  rintro ⟨u, p⟩ ⟨hnone, hacc, hkeeps⟩
  dsimp only at hnone hacc hkeeps
  have hall : contents ⟨d.pool, d.windows, u⟩ = LineMap.contents (d.windows.flatMap Window.lines) := by
    rw [contents, UndoSlot.contents_of_none hnone, add_zero]
  refine ⟨?_, (sheet_keeps (d := ⟨d.pool, d.windows, u⟩) (hall ▸ hkeeps)).trans ?_⟩
  · rw [Sound]
    exact hall ▸ hacc
  · simp only [sheet, Sheet.apply, hnone, Option.map_none]

theorem discardFor_shows (hd : d.Sound) (id : Nat) :
    Succeeds (d.apply (.discardFor id)) fun d' =>
      d'.Sound ∧ d'.sheet = d.sheet.apply (.discardFor id) := by
  have hkeep (h : d.sheet.record.filter (fun r => r.1 ≠ id) = d.sheet.record) :
      d.sheet.apply (.discardFor id) = d.sheet := by
    show Sheet.mk d.sheet.windows (d.sheet.record.filter _) = d.sheet
    rw [h]
  cases hr : d.undo.record with
  | none =>
    have hrecord : d.sheet.record = none := by simp [sheet, hr]
    rw [hkeep (by simp [hrecord])]
    simp only [apply, UndoSlot.discardFor, UndoSlot.holds, hr]
    exact Succeeds.pure_iff.mpr ⟨hd, rfl⟩
  | some r =>
    have hrecord : d.sheet.record = some (r.window, d.pool.rows r.lines) := by simp [sheet, hr]
    by_cases hid : r.window = id
    · have hgoal : d.sheet.apply (.discardFor id) = d.sheet.apply .discard := by
        simp [Sheet.apply, hrecord, hid]
      have hact : d.apply (.discardFor id) = d.apply .discard := by
        simp [apply, UndoSlot.discardFor, UndoSlot.holds, hr, hid]
      rw [hact, hgoal]
      exact discard_shows hd
    · rw [hkeep (by simp [hrecord, hid])]
      have hholds : d.undo.holds id = false := by simp [UndoSlot.holds, hr, hid]
      simp only [apply, UndoSlot.discardFor, hholds]
      exact Succeeds.pure_iff.mpr ⟨hd, rfl⟩

theorem closeWindow_shows (hd : d.Sound) {w : Window} (hw : d.windows[k]? = some w) :
    Succeeds (d.apply (.closeWindow k)) fun d' =>
      d'.Sound ∧ d'.sheet = d.sheet.apply (.closeWindow k) := by
  rw [Sound, contents_split hw] at hd
  unfold apply Window.release LineMap.release
  simp only [window_eq hw, Succeeds.bind_iff, Succeeds.ok_iff, Succeeds.pure_iff]
  refine hd.drop.mono ?_
  rintro ⟨p, count⟩ ⟨hacc, hkeeps⟩
  have hsheet := sheet_keeps (d := { d with windows := d.windows.eraseIdx k }) (p := p) hkeeps
  refine ⟨hacc, hsheet.trans ?_⟩
  simp only [sheet, Sheet.apply, List.eraseIdx_map]

/-- One act: what is shown at the desk becomes what the act makes of it. -/
theorem apply_shows (hd : d.Sound) {a : Act} (hfit : a.Fits d.sheet) :
    Succeeds (d.apply a) (Becomes d.sheet (d.sheet.apply a)) := by
  have hexact (h : Succeeds (d.apply a) fun d' => d'.Sound ∧ d'.sheet = d.sheet.apply a) :
      Succeeds (d.apply a) (Becomes d.sheet (d.sheet.apply a)) :=
    h.mono fun d' h => .of_eq h.1 h.2
  have haccounts {k : Nat} {w : Window} (hw : d.windows[k]? = some w) :
      d.pool.Accounts (w.lines.contents + (d.others k + d.undo.contents)) := by
    rw [← contents_split hw]
    exact hd
  cases a with
  | openWindow id =>
    refine hexact (Succeeds.pure_iff.mpr ⟨?_, ?_⟩)
    · simpa [Sound, contents, Window.empty] using hd
    · simp [sheet, Sheet.apply, Window.empty, Pool.rows]
  | edit k change =>
    obtain ⟨w, hw⟩ := exists_window hfit.1
    have hin := hfit.2
    rw [rows_sheet hw, Pool.length_rows] at hin
    refine hexact ?_
    unfold apply Sheet.apply
    refine work_shows hw ?_
    exact Edit.perform_shows (haccounts hw) hin
  | insertEntries k after entries =>
    obtain ⟨w, hw⟩ := exists_window hfit.1
    have hin := hfit.2
    rw [rows_sheet hw, Pool.length_rows] at hin
    refine hexact ?_
    unfold apply Sheet.apply
    refine work_shows hw ?_
    exact Window.insertEntries_shows (haccounts hw) hin entries
  | rewrite k n lines =>
    obtain ⟨w, hw⟩ := exists_window hfit.1
    obtain ⟨h₁, hn⟩ := hfit.2
    rw [rows_sheet hw, Pool.length_rows] at hn
    refine hexact ?_
    unfold apply Sheet.apply
    refine work_shows hw ?_
    exact Window.reviseLine_shows (haccounts hw) h₁ hn lines
  | splice k start remove pieces => exact hexact (splice_shows hd hfit)
  | mark k n on =>
    obtain ⟨w, hw⟩ := exists_window hfit
    refine hexact ?_
    unfold apply Sheet.apply
    refine work_shows hw ?_
    exact Succeeds.pure_iff.mpr (Window.setMark_shows (haccounts hw) n on)
  | clearMarks k =>
    obtain ⟨w, hw⟩ := exists_window hfit
    refine hexact ?_
    unfold apply Sheet.apply
    refine work_shows hw ?_
    exact Succeeds.pure_iff.mpr (Window.clearMarks_shows (haccounts hw))
  | capture k =>
    obtain ⟨w, hw⟩ := exists_window hfit
    exact capture_shows hd hw
  | undo k =>
    obtain ⟨w, hw⟩ := exists_window hfit
    exact hexact (undo_shows hd hw)
  | discard => exact hexact (discard_shows hd)
  | discardFor id => exact hexact (discardFor_shows hd id)
  | closeWindow k =>
    obtain ⟨w, hw⟩ := exists_window hfit
    exact hexact (closeWindow_shows hd hw)

end Desk

/-! ## Marks aside -/

namespace Sheet

variable {s : Sheet}

theorem rows_unmark (s : Sheet) (k : Nat) : s.unmark.rows k = (s.rows k).map Row.unmark := by
  unfold rows unmark
  rw [List.getElem?_map]
  cases s.windows[k]? <;> rfl

theorem unmark_work (s : Sheet) {f g : List Row → List Row}
    (h : ∀ rows, (f rows).map Row.unmark = (g (rows.map Row.unmark)).map Row.unmark) (k : Nat) :
    (s.work k f).unmark = (s.unmark.work k g).unmark := by
  refine Sheet.mk.injEq .. |>.mpr ⟨List.ext_getElem? fun i => ?_, ?_⟩
  · simp only [work, unmark, List.getElem?_map, List.getElem?_modify]
    cases s.windows[i]? with
    | none => rfl
    | some w =>
      by_cases hi : k = i
      · simp [hi, unmarkRows, h w.2]
      · simp [hi]
  · simp only [work, unmark]
    cases s.record <;> simp

end Sheet

/-- Without their marks, rows are edited as they are with them. -/
theorem Edit.unmark_rows (rows : List Row) (change : Edit) :
    (change.rows rows).map Row.unmark = change.rows (rows.map Row.unmark) := by
  have hplain (lines : List Bytes) : (lines.map Row.plain).map Row.unmark = lines.map Row.plain := by
    rw [List.map_map]
    rfl
  cases change with
  | insert after lines => simp only [Edit.rows, Sequence.map_splice, hplain]
  | delete start stop => simp only [Edit.rows, Sequence.map_splice, List.map_nil]
  | replace start stop lines => simp only [Edit.rows, Sequence.map_splice, hplain]
  | copy start stop after => simp only [Edit.rows, Sequence.map_splice, Sequence.map_run]
  | move start stop after => exact Sequence.map_move Row.unmark rows start stop after
  | revise changes =>
    show (Window.reviseRows rows 0 changes).map Row.unmark =
      Window.reviseRows (rows.map Row.unmark) 0 changes
    generalize 0 = shift
    induction changes generalizing rows shift with
    | nil => rfl
    | cons c rest ih => simp only [Window.reviseRows, ih, Sequence.map_splice, hplain]

namespace Sheet

variable {s : Sheet}

theorem unmark_piece (s : Sheet) (piece : Piece) :
    (s.piece piece).unmark = (s.unmark.piece piece).unmark := by
  cases piece with
  | new row => rfl
  | shared k n marked =>
    simp only [Sheet.piece, rows_unmark, List.getElem?_map]
    cases (s.rows k)[n - 1]? <;> rfl

/-- What an act makes of a sheet is, marks aside, no matter of marks. -/
theorem unmark_apply (s : Sheet) (a : Act) : (s.apply a).unmark = (s.unmark.apply a).unmark := by
  cases a with
  | openWindow id => simp [apply, unmark]
  | edit k change =>
    refine unmark_work s (fun rows => ?_) k
    rw [Edit.unmark_rows, Edit.unmark_rows, unmark_unmark_rows]
  | insertEntries k after entries =>
    refine unmark_work s (fun rows => ?_) k
    rw [Sequence.map_splice, Sequence.map_splice, unmark_unmark_rows]
  | rewrite k n lines =>
    refine unmark_work s (fun rows => ?_) k
    rw [Sequence.map_splice, Sequence.map_splice, unmark_unmark_rows]
  | splice k start remove pieces =>
    refine unmark_work s (fun rows => ?_) k
    rw [Sequence.map_splice, Sequence.map_splice, unmark_unmark_rows, List.map_map, List.map_map]
    congr 1
    exact List.map_congr_left fun piece _ => unmark_piece s piece
  | mark k n on =>
    have hmark (r : Row) : ({ r with marked := on } : Row).unmark = id r.unmark := rfl
    refine unmark_work s (fun rows => ?_) k
    rw [Sequence.map_update Row.unmark hmark,
      Sequence.map_update Row.unmark hmark,
      unmark_unmark_rows]
  | clearMarks k =>
    refine unmark_work s (fun rows => ?_) k
    rw [unmark_unmark_rows, unmark_unmark_rows]
  | capture k =>
    cases hw : s.windows[k]? <;> simp [apply, unmark, hw]
  | undo k =>
    cases hw : s.windows[k]? with
    | none => simp [apply, unmark, hw]
    | some w =>
      obtain ⟨id, rows⟩ := w
      cases hr : s.record with
      | none => simp [apply, unmark, hw, hr]
      | some r =>
        by_cases hid : r.1 = id
        · simp [apply, unmark, hw, hr, hid, List.map_set]
        · simp [apply, unmark, hw, hr, hid]
  | discard => simp [apply, unmark]
  | discardFor id =>
    cases hr : s.record with
    | none => simp [apply, unmark, hr]
    | some r =>
      by_cases hid : r.1 = id
      · simp [apply, unmark, hr, hid, Option.filter]
      · simp [apply, unmark, hr, hid, Option.filter]
  | closeWindow k => simp [apply, unmark, List.eraseIdx_map]

theorem fits_unmark (s : Sheet) (a : Act) : a.Fits s.unmark ↔ a.Fits s := by
  have hpiece (piece : Piece) : piece.Fits s.unmark ↔ piece.Fits s := by
    cases piece with
    | new row => rfl
    | shared k n marked => simp [Piece.Fits, rows_unmark]
  have hsize : s.unmark.windows.length = s.windows.length := List.length_map _
  cases a <;> simp [Act.Fits, rows_unmark, hpiece, hsize]

theorem Settled.apply (hs : s.Settled) {a : Act} (ho : a.Orderly s) : (s.apply a).Settled := by
  cases a with
  | capture k =>
    intro r hr row hrow
    obtain ⟨w, -, rfl⟩ := Option.map_eq_some_iff.mp hr
    obtain ⟨row', -, rfl⟩ := List.mem_map.mp hrow
    rfl
  | undo k =>
    cases hw : s.windows[k]? with
    | none => simpa [Sheet.apply, hw] using hs
    | some w =>
      cases hrec : s.record with
      | none => simpa [Sheet.apply, hw, hrec] using hs
      | some r =>
        by_cases hid : r.1 = w.1
        · have hrows : s.rows k = w.2 := by simp [rows, hw]
          have hunmarked : ∀ row ∈ w.2, row.marked = false := hrows ▸ ho
          simpa [Sheet.apply, hw, hrec, hid, Settled] using hunmarked
        · simpa [Sheet.apply, hw, hrec, hid] using hs
  | discard => simp [Sheet.apply, Settled]
  | discardFor id =>
    intro r hr
    exact hs r (Option.filter_eq_some_iff.mp hr).1
  | openWindow id => exact hs
  | edit k change => exact hs
  | insertEntries k after entries => exact hs
  | rewrite k n lines => exact hs
  | splice k start remove pieces => exact hs
  | mark k n on => exact hs
  | clearMarks k => exact hs
  | closeWindow k => exact hs

theorem Fits.take {acts : List Act} (h : s.Fits acts) (n : Nat) : s.Fits (acts.take n) := by
  induction acts generalizing s n with
  | nil => simpa using h
  | cons a rest ih =>
    cases n with
    | zero => trivial
    | succ n => exact ⟨h.1, ih h.2 n⟩

theorem Orderly.take {acts : List Act} (h : s.Orderly acts) (n : Nat) :
    s.Orderly (acts.take n) := by
  induction acts generalizing s n with
  | nil => simpa using h
  | cons a rest ih =>
    cases n with
    | zero => trivial
    | succ n => exact ⟨h.1, ih h.2 n⟩

end Sheet

/-! ## Whole runs -/

namespace Desk

theorem run_alike (acts : List Act) {d : Desk} {s : Sheet} (hd : d.Sound)
    (h : d.sheet.unmark = s.unmark) (hfit : s.Fits acts) :
    Succeeds (d.run acts) fun d' => d'.Sound ∧ d'.sheet.unmark = (s.run acts).unmark := by
  induction acts generalizing d s with
  | nil => exact Succeeds.pure_iff.mpr ⟨hd, h⟩
  | cons a rest ih =>
    have hin : a.Fits d.sheet := by
      rw [← Sheet.fits_unmark, h, Sheet.fits_unmark]
      exact hfit.1
    unfold run
    rw [Succeeds.bind_iff]
    refine (apply_shows hd hin).mono fun d' hd' => ih hd'.sound ?_ hfit.2
    rw [hd'.alike, Sheet.unmark_apply, h, ← Sheet.unmark_apply]

theorem run_exact (acts : List Act) {d : Desk} (hd : d.Sound) (hs : d.sheet.Settled)
    (hfit : d.sheet.Fits acts) (ho : d.sheet.Orderly acts) :
    Succeeds (d.run acts) fun d' => d'.sheet = d.sheet.run acts := by
  induction acts generalizing d with
  | nil => exact Succeeds.pure_iff.mpr rfl
  | cons a rest ih =>
    unfold run
    rw [Succeeds.bind_iff]
    refine (apply_shows hd hfit.1).mono fun d' hd' => ?_
    have hshown := hd'.exact hs
    have hrest := ih hd'.sound (hshown ▸ hs.apply ho.1) (hshown ▸ hfit.2) (hshown ▸ ho.2)
    rw [hshown] at hrest
    exact hrest

/-- Whatever is done in range, at every point the texts and suffixes read through the pool are those
of the lists without a pool, for each window and for the record. So are the marks, unless a window
with marks is undone. -/
theorem run_reads {acts : List Act} (hfit : Sheet.empty.Fits acts) (n : Nat) :
    Succeeds (Desk.empty.run (acts.take n) >>= read) fun s =>
      s.unmark = (Sheet.empty.run (acts.take n)).unmark ∧
        (Sheet.empty.Orderly acts → s = Sheet.empty.run (acts.take n)) := by
  have hempty : Desk.empty.Sound := Pool.Accounts.empty
  have hrun := run_alike (acts.take n) hempty rfl (hfit.take n)
  rw [Succeeds.bind_iff]
  obtain ⟨d', hd', hsound, halike⟩ := hrun
  refine ⟨d', hd', d'.sheet, read_eq hsound, halike, fun ho => ?_⟩
  have hsettled : Desk.empty.sheet.Settled := by simp [Sheet.Settled, sheet, empty, UndoSlot.empty]
  exact (run_exact (acts.take n) hempty hsettled (hfit.take n) (ho.take n)).of_eq hd'

/-- A copy and a piece share a line that is then deleted and comes back. -/
theorem run_reads_shared_lines :
    let acts := [.openWindow 1, .openWindow 2, .edit 0 (.insert 0 [[97], [98]]), .capture 0,
      .edit 0 (.delete 1 1), .splice 1 0 0 [.shared 0 1 true], .edit 0 (.delete 1 1),
      .edit 1 (.insert 1 [[99]]), .undo 0]
    Sheet.empty.Fits acts ∧ Sheet.empty.Orderly acts ∧
      Succeeds (Desk.empty.run acts >>= read) fun s => s =
        ⟨[(1, [.plain [97], .plain [98]]), (2, [⟨[98], none, true⟩, .plain [99]])], some (1, [])⟩ := by
  intro acts
  have hfit : Sheet.empty.Fits acts := by decide
  have ho : Sheet.empty.Orderly acts := by decide
  refine ⟨hfit, ho, (run_reads hfit acts.length).mono fun s hs => ?_⟩
  rw [hs.2 ho]
  decide

/-- A record that is taken over keeps the marks that an undo has given it, though a capture takes no
marks along. -/
theorem capture_keeps_marks :
    let acts := [.openWindow 1, .edit 0 (.insert 0 [[97]]), .capture 0, .mark 0 1 true, .undo 0,
      .capture 0, .undo 0]
    Sheet.empty.Fits acts ∧
      Succeeds (Desk.empty.run acts >>= read) fun s => s ≠ Sheet.empty.run acts := by
  intro acts
  exact ⟨by decide, _, rfl, by decide⟩

end Desk

end LineEditor
