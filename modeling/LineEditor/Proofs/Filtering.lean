import LineEditor.Proofs.Globals
import LineEditor.Proofs.Located

/-!
# Deleting by a pattern

A global command that deletes lines takes them out one by one, and each time the lines behind are
numbered anew. In the end that is a filter: the lines that were marked are gone, the others are in
their old order, and a label names the line it named before.
-/

namespace LineEditor

/-! ## Items that are taken out one by one -/

namespace Sequence

section
variable {α : Type}

/-- Where item `i` is when all items are gone that are flagged. -/
def leftAt? : List Bool → Nat → Option Nat
  | [], _ => none
  | gone :: _, 0 => if gone then none else some 0
  | gone :: rest, i + 1 => (leftAt? rest i).map fun k => if gone then k else k + 1

/-- An item less that is to go makes no difference but for the numbers behind it. -/
theorem leftAt?_eraseIdx {flags : List Bool} {k : Nat} (hk : flags[k]? = some true) (i : Nat) :
    leftAt? flags i = if i < k then leftAt? (flags.eraseIdx k) i
      else if i = k then none else leftAt? (flags.eraseIdx k) (i - 1) := by
  induction flags generalizing k i with
  | nil => simp at hk
  | cons gone rest ih =>
    cases k with
    | zero =>
      obtain rfl : gone = true := by simpa using hk
      cases i with
      | zero => rfl
      | succ i => simp [leftAt?]
    | succ k =>
      have hrest : rest[k]? = some true := by simpa using hk
      cases i with
      | zero => simp [leftAt?]
      | succ i =>
        have hi := ih hrest i
        by_cases hlt : i < k
        · simp [leftAt?, hlt, hi]
        · by_cases heq : i = k
          · simp [leftAt?, heq, ih hrest k]
          · obtain ⟨j, rfl⟩ : ∃ j, i = j + 1 := ⟨i - 1, by omega⟩
            simp [leftAt?, hlt, heq, hi]

/-- The same for lines, of which the first has the number 1. -/
theorem map_leftAt?_eraseIdx {flags : List Bool} {k : Nat} (h₁ : 1 ≤ k)
    (hk : flags[k - 1]? = some true) {n : Nat} (hn : 1 ≤ n) :
    (leftAt? flags (n - 1)).map (· + 1) = (Window.spliceRule (k - 1) 1 0 n).bind fun m =>
      (leftAt? (flags.eraseIdx (k - 1)) (m - 1)).map (· + 1) := by
  rw [leftAt?_eraseIdx hk]
  unfold Window.spliceRule
  by_cases hlt : n - 1 < k - 1
  · rw [if_pos hlt, if_pos (by omega), Option.bind_some]
  · by_cases heq : n - 1 = k - 1
    · rw [if_neg hlt, if_pos heq, if_neg (by omega), if_pos (by omega)]
      rfl
    · rw [if_neg hlt, if_neg heq, if_neg (by omega), if_neg (by omega), Nat.add_zero, Option.bind_some]

theorem leftAt?_of_none {flags : List Bool} (h : ∀ gone ∈ flags, gone = false) {i : Nat}
    (hi : i < flags.length) : leftAt? flags i = some i := by
  induction flags generalizing i with
  | nil => cases hi
  | cons gone rest ih =>
    obtain ⟨rfl, hrest⟩ := List.forall_mem_cons.mp h
    cases i with
    | zero => rfl
    | succ i => simp [leftAt?, ih hrest (Nat.lt_of_succ_lt_succ hi)]

/-- The items that are left keep their old numbers beside them. -/
theorem leftAt?_eq_idxOf? (l : List α) (gone : α × Nat → Bool) (first i : Nat) :
    leftAt? ((l.zipIdx first).map gone) i =
      (((l.zipIdx first).filter fun x => !gone x).map Prod.snd).idxOf? (first + i) := by
  induction l generalizing first i with
  | nil => rfl
  | cons x l ih =>
    rw [List.zipIdx_cons, List.map_cons, List.filter_cons]
    cases i with
    | zero =>
      by_cases hx : gone (x, first) = true
      · have hbehind : first ∉ ((l.zipIdx (first + 1)).filter fun x => !gone x).map Prod.snd := by
          intro hmem
          obtain ⟨y, hy, hfirst⟩ := List.mem_map.mp hmem
          have hle := List.le_snd_of_mem_zipIdx (List.mem_of_mem_filter hy)
          omega
        simp only [leftAt?, hx, if_true, Bool.not_true, Bool.false_eq_true, if_false]
        exact (List.idxOf?_eq_none_iff.mpr hbehind).symm
      · simp [leftAt?, hx, List.idxOf?_cons]
    | succ i =>
      have hi := ih (first + 1) i
      rw [show first + 1 + i = first + (i + 1) by omega] at hi
      by_cases hx : gone (x, first) = true
      · simp [leftAt?, hx, hi]
      · simp [leftAt?, hx, hi, List.idxOf?_cons]

/-- Whether a line, given with its number, is one of a range and is hit. -/
def doomed (start stop : Nat) (hit : α → Bool) (x : α × Nat) : Bool :=
  decide (start ≤ x.2) && decide (x.2 ≤ stop) && hit x.1

/-- What is left of the list, with the numbers that the lines had. -/
def survivors (l : List α) (start stop : Nat) (hit : α → Bool) : List (α × Nat) :=
  (l.zipIdx 1).filter fun x => !doomed start stop hit x

section
variable {start stop : Nat} (hit : α → Bool)

theorem doomed_outside {l : List α} {first : Nat} (hout : first + l.length ≤ start ∨ stop < first)
    {x : α × Nat} (hx : x ∈ l.zipIdx first) : doomed start stop hit x = false := by
  have hle := List.le_snd_of_mem_zipIdx hx
  have hlt := List.snd_lt_add_of_mem_zipIdx hx
  unfold doomed
  rcases hout with hout | hout
  · rw [decide_eq_false (by omega)]
    rfl
  · rw [decide_eq_false (p := x.2 ≤ stop) (by omega), Bool.and_false]
    rfl

theorem front_le (l : List α) (h₁ : 1 ≤ start) : 1 + (l.take (start - 1)).length ≤ start := by
  rw [List.length_take]
  omega

theorem mem_survivors {l : List α} {n : Nat} : n ∈ (survivors l start stop hit).map Prod.snd ↔
    1 ≤ n ∧ ∃ x, l[n - 1]? = some x ∧ doomed start stop hit (x, n) = false := by
  simp only [survivors, List.mem_map, List.mem_filter, Bool.not_eq_true']
  constructor
  · rintro ⟨⟨x, m⟩, ⟨hmem, hstays⟩, rfl⟩
    obtain ⟨hle, hget⟩ := List.mk_mem_zipIdx_iff_le_and_getElem?_sub.mp hmem
    exact ⟨hle, x, hget, hstays⟩
  · rintro ⟨hle, x, hget, hstays⟩
    exact ⟨(x, n), ⟨List.mk_mem_zipIdx_iff_le_and_getElem?_sub.mpr ⟨hle, hget⟩, hstays⟩, rfl⟩

variable {l : List α} (h₁ : 1 ≤ start) (hs : start ≤ stop) (hstop : stop ≤ l.length)
include h₁ hs hstop

theorem doomed_inside {x : α × Nat} (hx : x ∈ (run l start stop).zipIdx start) :
    doomed start stop hit x = hit x.1 := by
  have hle := List.le_snd_of_mem_zipIdx hx
  have hlt := List.snd_lt_add_of_mem_zipIdx hx
  rw [length_run l h₁ hs hstop] at hlt
  unfold doomed
  rw [decide_eq_true hle, decide_eq_true (by omega)]
  rfl

theorem zipIdx_parts : l.zipIdx 1 = (l.take (start - 1)).zipIdx 1 ++
    ((run l start stop).zipIdx start ++ (l.drop stop).zipIdx (stop + 1)) := by
  have hl : l.take (start - 1) ++ (run l start stop ++ l.drop stop) = l := by
    rw [run_append_drop l h₁ hs, List.take_append_drop]
  have hfront : 1 + (l.take (start - 1)).length = start := by
    rw [List.length_take]
    omega
  have hback : start + (run l start stop).length = stop + 1 := by
    rw [length_run l h₁ hs hstop]
    omega
  conv_lhs => rw [← hl]
  rw [List.zipIdx_append, List.zipIdx_append, hfront, hback]

/-- The lines outside the range are flagged as not hit. -/
theorem map_doomed : (l.zipIdx 1).map (doomed start stop hit) =
    List.replicate (start - 1) false ++ (run l start stop).map hit ++
      List.replicate (l.length - stop) false := by
  have hout {part : List α} {first : Nat} (h : first + part.length ≤ start ∨ stop < first) :
      (part.zipIdx first).map (doomed start stop hit) = List.replicate part.length false := by
    refine List.eq_replicate_iff.mpr ⟨by simp, fun b hb => ?_⟩
    obtain ⟨x, hx, rfl⟩ := List.mem_map.mp hb
    exact doomed_outside hit h hx
  have hin : ((run l start stop).zipIdx start).map (doomed start stop hit) =
      (run l start stop).map hit := by
    rw [List.map_congr_left fun x hx => doomed_inside hit h₁ hs hstop hx]
    conv_rhs => rw [← List.zipIdx_map_fst start (run l start stop), List.map_map]
    rfl
  rw [zipIdx_parts h₁ hs hstop, List.map_append, List.map_append, hin,
    hout (.inl (front_le l h₁)), hout (.inr (Nat.lt_succ_self stop)), List.length_drop,
    List.length_take_of_le (by omega), List.append_assoc]

/-- What is left is in the order it was in. -/
theorem survivors_fst : (survivors l start stop hit).map Prod.fst =
    l.take (start - 1) ++ (run l start stop).filter (fun t => !hit t) ++ l.drop stop := by
  have hout {part : List α} {first : Nat} (h : first + part.length ≤ start ∨ stop < first) :
      (part.zipIdx first).filter (fun x => !doomed start stop hit x) = part.zipIdx first := by
    refine List.filter_eq_self.mpr fun x hx => ?_
    rw [doomed_outside hit h hx]
    rfl
  have hin : ((run l start stop).zipIdx start).filter (fun x => !doomed start stop hit x) =
      ((run l start stop).zipIdx start).filter fun x => !hit x.1 :=
    List.filter_congr fun x hx => by rw [doomed_inside hit h₁ hs hstop hx]
  unfold survivors
  rw [zipIdx_parts h₁ hs hstop, List.filter_append, List.filter_append, hin,
    hout (.inl (front_le l h₁)), hout (.inr (Nat.lt_succ_self stop)), List.map_append,
    List.map_append, List.zipIdx_map_fst, List.zipIdx_map_fst, List.append_assoc]
  conv_rhs => rw [← List.zipIdx_map_fst start (run l start stop), List.filter_map]
  rfl

omit hs in
/-- Each line of the range is left either where it is not hit or where the others are hit. -/
theorem mem_survivors_iff {n : Nat} (hn₁ : start ≤ n) (hn : n ≤ stop) :
    n ∈ (survivors l start stop hit).map Prod.snd ↔
      n ∉ (survivors l start stop fun x => !hit x).map Prod.snd := by
  have hget : l[n - 1]? = some l[n - 1] := List.getElem?_eq_getElem (by omega)
  have hflag (hit : α → Bool) : n ∈ (survivors l start stop hit).map Prod.snd ↔
      hit l[n - 1] = false := by
    simp [mem_survivors, hget, doomed, hn₁, hn, Nat.le_trans h₁ hn₁]
  rw [hflag, hflag]
  cases hit l[n - 1] <;> simp

end

theorem filter_map_flags {β : Type} (f : β → α) (flag : β → Bool) (gone : α × Nat → Bool) (l : List β)
    (first : Nat) (h : l.map flag = ((l.map f).zipIdx first).map gone) :
    (l.filter fun b => !flag b).map f =
      (((l.map f).zipIdx first).filter fun x => !gone x).map Prod.fst := by
  induction l generalizing first with
  | nil => rfl
  | cons b l ih =>
    simp only [List.map_cons, List.zipIdx_cons, List.cons.injEq] at h
    have hrest := ih (first + 1) h.2
    rw [List.map_cons, List.zipIdx_cons, List.filter_cons, List.filter_cons, h.1]
    by_cases hb : gone (f b, first) = true
    · simp [hb, hrest]
    · simp [hb, hrest]

end

theorem filter_eraseIdx {α : Type} {q : α → Bool} {l : List α} {i : Nat} {a : α}
    (hi : l[i]? = some a) (ha : q a = false) : (l.eraseIdx i).filter q = l.filter q := by
  induction l generalizing i with
  | nil => rfl
  | cons b l ih =>
    cases i with
    | zero =>
      obtain rfl : b = a := by simpa using hi
      simp [ha]
    | succ i =>
      have hrest := ih (show l[i]? = some a by simpa using hi)
      simp only [List.eraseIdx_cons_succ, List.filter_cons, hrest]

/-- To change an item and take it out is to take it out. -/
theorem splice_update {α : Type} (l : List α) (f : α → α) {k : Nat} (h₁ : 1 ≤ k) (hk : k ≤ l.length) :
    splice (update l k f) (k - 1) (k - k + 1) [] = l.eraseIdx (k - 1) := by
  obtain ⟨i, rfl⟩ : ∃ i, k = i + 1 := ⟨k - 1, by omega⟩
  have hi : i < l.length := hk
  have hupdate : update l (i + 1) f = l.take i ++ f l[i] :: l.drop (i + 1) :=
    List.modify_eq_take_cons_drop hi
  have hfront : (l.take i).length = i := List.length_take_of_le (Nat.le_of_lt hi)
  have hback : (l.take i ++ f l[i] :: l.drop (i + 1)).drop (i + 1) = l.drop (i + 1) := by
    rw [← List.drop_drop, List.drop_left' hfront]
    rfl
  rw [hupdate, splice, List.eraseIdx_eq_take_drop_succ, Nat.add_sub_cancel, Nat.sub_self,
    Nat.zero_add, hback, List.take_left' hfront, List.append_nil]

end Sequence

/-! ## One line is deleted -/

namespace EditM

section
variable {e : Engine}

/-- A letter with what follows it is planned for the current line, if that is its default. -/
theorem planSubcommand_letter (hmode : e.window.mode = .normal) (h₁ : 1 ≤ e.window.dot)
    (hdot : e.window.dot ≤ e.window.dol) {c : LineCommand}
    (hdefault : defaultRange e.window.dot e.window.dol true (some (.line c)) =
      ⟨e.window.dot, e.window.dot, 0⟩) {tail : List Char} {post : Post Engine Plan}
    (hplan : Ends (query fun v => v.plan (some c) ⟨e.window.dot, e.window.dot, 0⟩ tail) e post) :
    Ends (planSubcommand (c.letter :: tail)) e post := by
  have hrange : effectiveRange e.window.dot e.window.dol true (some (.line c)) none =
      .ok ⟨e.window.dot, e.window.dot, 0⟩ := by
    unfold effectiveRange
    dsimp only
    rw [hdefault]
    exact if_neg (Nat.not_lt.mpr hdot)
  have hzero : checkZero (some (.line c)) e.window.dot = .ok () := by
    simp [checkZero, show 0 < e.window.dot from h₁, pure, Except.pure]
  have hletter : identify (some c.letter) = .ok (some (.line c)) := identify_letter (.line c)
  have hallowed : checkMode .normal (some (.line c)) = .ok () := rfl
  have hline : checkGlobal (some (.line c)) = .ok (some c) := rfl
  unfold planSubcommand
  rw [ends_bind, ends_liftExcept, show c.letter :: tail = (Command.line c).letter :: tail from rfl,
    CommandLine.parse_letter (.line c) tail, Post.after_ok]
  dsimp only
  rw [ends_bind, ends_liftExcept, show (Command.line c).letter = c.letter from rfl, hletter,
    Post.after_ok, ends_get_bind, hmode, ends_bind, ends_liftExcept, hallowed, Post.after_ok,
    ends_bind, ends_liftExcept, hline, Post.after_ok]
  refine (locate_default hrange hzero).sure_then ?_
  rintro _ _ ⟨rfl, rfl⟩
  exact hplan

/-- The letter alone asks for the current line to be deleted. -/
theorem planSubcommand_delete (hmode : e.window.mode = .normal) (h₁ : 1 ≤ e.window.dot)
    (hdot : e.window.dot ≤ e.window.dol) : Ends (planSubcommand ['d']) e (.sure fun plan e' =>
      plan = .edit (.delete e.window.dot e.window.dot) true none ∧ e' = e) := by
  have hprint : printSuffix LineCommand.delete.letter [] = .ok none := by decide
  refine planSubcommand_letter (c := .delete) hmode h₁ hdot rfl ?_
  rw [ends_query]
  unfold View.plan View.planDelete
  rw [ends_bind, ends_liftExcept, hprint, Post.after_ok, ends_pure]
  exact ⟨rfl, rfl⟩

/-- A marked line is deleted when it is visited. -/
theorem visit_delete (h : e.Sound) (hn : e.entry = none) (hmode : e.window.mode = .normal)
    {n k : Nat} (hnext : e.window.lines.nextMarked? n = some k) (last : Option Nat) :
    Ends (visit ['d'] k last) e (.sure fun _ e' => e.Worked e' ∧
      e'.rows = e.rows.eraseIdx (k - 1) ∧ e'.window.mode = .normal ∧
      e'.window.labels = e.window.labels.remap (Window.spliceRule (k - 1) 1 0)) := by
  obtain ⟨h₁, hdol⟩ := LineMap.nextMarked?_le hnext
  have hhand := h.worked_handOut h₁ hdol
  have hsize : k ≤ (e.setWindow (e.window.setMark k false)).window.dol := by
    rw [Engine.dol_setMark]
    exact hdol
  have hnormal : (e.handOut k).window.mode = .normal := by
    cases k <;> exact hmode
  have hfit : (Edit.delete k k).Fits (e.handOut k).window.dol := ⟨h₁, Nat.le_refl k, hsize⟩
  have hrows : (Edit.delete k k).rows (e.handOut k).rows = e.rows.eraseIdx (k - 1) := by
    have hlen : k ≤ e.rows.length := by
      rw [Engine.rows, Pool.length_rows]
      exact hdol
    rw [Engine.rows_handOut h]
    exact Sequence.splice_update e.rows Row.unmark h₁ hlen
  have hplan : Ends (planSubcommand ['d']) (e.handOut k) _ :=
    planSubcommand_delete hnormal h₁ hsize
  rw [ends_visit hdol]
  refine hplan.sure_then ?_
  rintro _ _ ⟨rfl, rfl⟩
  refine (carryOut_inside_ends hhand.sound (hhand.untyped hn) hfit true none).of_sure ?_
  rintro report _ ⟨-, hw, hrows₁, w, p, hrun, rfl⟩
  obtain ⟨-, rfl⟩ := Window.deleteLines_eq_ok hrun
  refine ⟨hhand.trans hw, hrows₁.trans hrows, ?_, ?_⟩
  · show (Window.noteEdit _).mode = _
    rw [Window.noteEdit_eq]
    exact hnormal
  · show (Window.noteEdit _).labels = _
    rw [Window.noteEdit_eq, Nat.sub_self]
    cases k <;> rfl

end

end EditM

/-! ## All of them -/

/-- By induction on the walk: what is still to go is what is still marked. -/
theorem Walk.deletes {e e' : Engine} {origins origins' : Origins} {n : Nat} {last : Option Nat}
    {visits : List Visit} {outcome : Except EditError Report}
    (hwalk : Walk ['d'] e origins n last visits outcome e' origins') (h : e.Sound)
    (hn : e.entry = none) (hmode : e.window.mode = .normal) :
    (∃ report, outcome = .ok report) ∧ e'.Sound ∧ e'.rows = e.rows.filter (fun r => !r.marked) ∧
      ∀ name, e'.window.labels.get? name = (e.window.labels.get? name).bind fun n =>
        (Sequence.leftAt? (e.rows.map Row.marked) (n - 1)).map (· + 1) := by
  induction hwalk with
  | @done e origins n last hnone =>
    have hunmarked : ∀ row ∈ e.rows, row.marked = false := by
      intro row hrow
      obtain ⟨x, hx, rfl⟩ := List.mem_map.mp hrow
      exact LineMap.unmarked_of_nextMarked? hnone x hx
    refine ⟨⟨_, rfl⟩, h, ?_, fun name => ?_⟩
    · symm
      exact List.filter_eq_self.mpr fun row hrow => by simp [hunmarked row hrow]
    · cases hlabel : e.window.labels.get? name with
      | none => rfl
      | some m =>
        obtain ⟨h₁, hm⟩ := h.consistent.labels_within name m hlabel
        have hflags : ∀ gone ∈ e.rows.map Row.marked, gone = false := by simpa using hunmarked
        have hlen : m - 1 < (e.rows.map Row.marked).length := by
          rw [List.length_map, Engine.rows, Pool.length_rows]
          exact Nat.lt_of_lt_of_le (Nat.sub_lt h₁ Nat.one_pos) hm
        rw [Option.bind_some, Sequence.leftAt?_of_none hflags hlen, Option.map_some,
          Nat.sub_add_cancel h₁]
  | @stop e e' origins n k last err v hnext hv hrun =>
    exact ((EditM.visit_delete h hn hmode hnext last).of_eq hrun).elim
  | @next e e₁ e' origins origins' n k last report v visits outcome hnext hv hrun hrest ih =>
    obtain ⟨hw, hrows, hmode₁, hlabels⟩ := (EditM.visit_delete h hn hmode hnext last).of_eq hrun
    obtain ⟨⟨rest, rfl⟩, hsound, hleft, hnames⟩ := ih hw.sound (hw.untyped hn) hmode₁
    obtain ⟨h₁, -⟩ := LineMap.nextMarked?_le hnext
    obtain ⟨row, hrow, hm⟩ := Engine.marked_row hnext
    refine ⟨⟨_, rfl⟩, hsound, ?_, fun name => ?_⟩
    · rw [hleft, hrows]
      exact Sequence.filter_eraseIdx hrow (by simp [hm])
    · rw [hnames, hlabels, Labels.get?_remap, hrows]
      cases hlabel : e.window.labels.get? name with
      | none => rfl
      | some m =>
        have hflag : (e.rows.map Row.marked)[k - 1]? = some true := by
          rw [List.getElem?_map, hrow, Option.map_some, hm]
        obtain ⟨hm₁, -⟩ := h.consistent.labels_within name m hlabel
        rw [Option.bind_some, Option.bind_some, Sequence.map_leftAt?_eraseIdx h₁ hflag hm₁,
          List.eraseIdx_map]

/-! ## Which lines are marked -/

namespace LineMap

theorem map_marked_clearMarks (m : LineMap) :
    m.clearMarks.map Entry.marked = List.replicate m.length false := by
  rw [clearMarks, List.map_map]
  exact List.map_const'

theorem map_marked_markRun {m : LineMap} {before : Nat} {hits : List Bool}
    (hfit : before + hits.length ≤ m.length) : (m.markRun before hits).map Entry.marked =
      List.replicate before false ++ hits ++
        List.replicate (m.length - (before + hits.length)) false := by
  have hrun : ((m.drop before).zipWith (fun x hit => { x with marked := hit }) hits).map
      Entry.marked = hits := by
    refine List.ext_getElem ?_ fun i _ _ => ?_
    · rw [List.length_map, List.length_zipWith, List.length_drop]
      omega
    · simp
  unfold markRun
  rw [List.map_append, List.map_append, hrun, map_marked_clearMarks, map_marked_clearMarks,
    List.length_take_of_le (by omega), List.length_drop]

end LineMap

/-- Marks are no part of a text. -/
theorem Pool.texts_clearMarks (p : Pool) (m : LineMap) : p.texts m.clearMarks = p.texts m := by
  rw [texts, rows_clearMarks, List.map_map]
  rfl

namespace Engine

section
variable {e : Engine} {range : LineRange} {request : GlobalRequest}

theorem map_text_markedRows (e : Engine) (range : LineRange) (request : GlobalRequest) :
    (e.markedRows range request).map Row.text = e.pool.texts e.window.lines := by
  show e.pool.texts (e.window.lines.markRun _ _) = _
  rw [← Pool.texts_clearMarks, LineMap.clearMarks_markRun, Pool.texts_clearMarks]

theorem map_marked_markedRows (h₁ : 1 ≤ range.start) (hr : range.Within e.window.dol)
    {hit : Bytes → Bool} (hhits : request.hits =
      (Sequence.run (e.pool.texts e.window.lines) range.start range.stop).map hit) :
    (e.markedRows range request).map Row.marked = ((e.pool.texts e.window.lines).zipIdx 1).map
      (Sequence.doomed range.start range.stop hit) := by
  have hlen : (e.pool.texts e.window.lines).length = e.window.dol := Pool.length_texts _ _
  have hs := hr.le
  have hstop : range.stop ≤ (e.pool.texts e.window.lines).length := hlen ▸ hr.stop_le
  have hcount : range.start - 1 + request.hits.length = range.stop := by
    rw [hhits, List.length_map, Sequence.length_run _ h₁ hs hstop]
    omega
  have hmarked : (e.markedRows range request).map Row.marked =
      (e.window.lines.markRun (range.start - 1) request.hits).map Entry.marked := by
    unfold markedRows Pool.rows
    rw [List.map_map]
    rfl
  have hfit : range.start - 1 + request.hits.length ≤ e.window.lines.length :=
    hcount ▸ hr.stop_le
  rw [hmarked, LineMap.map_marked_markRun hfit, Sequence.map_doomed hit h₁ hs hstop, ← hhits, hcount,
    hlen]
  rfl

end

end Engine

/-- What is shown of the lines of a window without suffixes. -/
theorem View.Readable.shownLines_eq {v : View} (hv : v.Readable)
    (hdir : v.window.flags.directory = false) (start stop : Nat) :
    v.window.shownLines v.pool start stop =
      .ok (((v.window.lines.removed (start - 1) (stop + 1 - start)).zipIdx start).map fun x =>
        (x.2, Markup.display (v.pool.row x.1).text)) := by
  unfold Window.shownLines
  refine mapM_ok ?_
  rintro ⟨x, n⟩ hx
  obtain ⟨text, hget, -⟩ := hv x (v.window.lines.removed_subset _ _ (List.fst_mem_of_mem_zipIdx hx))
  have htext : (v.pool.row x).text = text := by
    rw [Pool.row, Pool.text?_of_get hget]
    rfl
  simp [Window.showEntry, Markup.strip_eq, hget, hdir, htext, bind, Except.bind, pure, Except.pure]

/-- Whether a global command marks a line: whether what is shown of it matches, or does not. -/
def Matcher.marks (matcher : Matcher) (inverted : Bool) (text : Bytes) : Bool :=
  matcher.isMatch (Markup.display text) != inverted

/-- The lines to be marked are told of one by one, as long as there is one of them. -/
theorem GlobalRequest.parse_ends {v : View} (hv : v.Readable)
    (hdir : v.window.flags.directory = false) {range : LineRange} (hs : range.start ≤ range.stop)
    {tail : List Char} {delimiter : Char} {pattern : Delimited}
    (hpattern : Delimited.first tail = .ok (delimiter, pattern)) {r : Recall} {source : List Char}
    (hsource : resolveSearch r.search pattern.body = .ok source) {matcher : Matcher}
    (hmatcher : v.window.compile source false = .ok matcher) (hr : r.interrupted = false)
    (inverted : Bool) :
    Ends (parse v inverted range tail) r fun answer r' => r' = { r with search := some source } ∧
      answer = if (Sequence.run (v.pool.texts v.window.lines) range.start range.stop).any
          (matcher.marks inverted) then
        .ok ⟨subcommandOf pattern.rest,
          (Sequence.run (v.pool.texts v.window.lines) range.start range.stop).map
            (matcher.marks inverted)⟩
      else .error .noLinesMarked := by
  have hcount : range.stop + 1 - range.start = range.stop - range.start + 1 := by omega
  have hhits : (((v.window.lines.removed (range.start - 1) (range.stop + 1 - range.start)).zipIdx
      range.start).map fun x => (x.2, Markup.display (v.pool.row x.1).text)).map
        (fun line => matcher.isMatch line.2 != inverted) =
      (Sequence.run (v.pool.texts v.window.lines) range.start range.stop).map
        (matcher.marks inverted) := by
    have hrun : Sequence.run (v.pool.texts v.window.lines) range.start range.stop =
        v.pool.texts (v.window.lines.removed (range.start - 1) (range.stop + 1 - range.start)) := by
      rw [Pool.texts_removed, hcount]
      rfl
    rw [hrun, Pool.texts, Pool.rows, List.map_map, List.map_map, List.map_map]
    conv_rhs => rw [← List.zipIdx_map_fst range.start (v.window.lines.removed _ _), List.map_map]
    rfl
  unfold parse
  rw [Delimited.lift_readFirst, ends_bind, ends_liftExcept, hpattern, Post.after_ok]
  dsimp only
  rw [Query.ends_resolve_bind hsource, ends_bind, ends_liftExcept, hmatcher, Post.after_ok,
    Query.ends_remember_bind, Query.ends_checkInterrupt_bind, if_neg (by simp [hr]), ends_bind,
    ends_lift, hv.shownLines_eq hdir, Succeeds.ok_iff, Post.after_ok]
  rw [hhits, List.any_map]
  by_cases hany : (Sequence.run (v.pool.texts v.window.lines) range.start range.stop).any
      (matcher.marks inverted) = true
  · rw [if_pos hany, if_neg (by simpa using hany), ends_pure]
    exact ⟨rfl, rfl⟩
  · rw [if_neg hany, if_pos (by simpa using hany)]
    exact ends_throw.mpr ⟨rfl, rfl⟩

/-! ## What the command leaves -/

/-- The lines in the range that are hit are gone, the others are there in their order, and so are the
labels on them. It is an error if no line is hit. -/
structure Engine.Filtered (lines : List Bytes) (labels : Labels) (range : LineRange)
    (hit : Bytes → Bool) (answer : Except EditError Report) (e' : Engine) : Prop where
  answer_eq : if (Sequence.run lines range.start range.stop).any hit then
    ∃ report, answer = .ok report else answer = .error .noLinesMarked
  texts_eq : e'.window.texts e'.pool 1 e'.window.dol =
    .ok ((Sequence.survivors lines range.start range.stop hit).map Prod.fst)
  labels_eq : ∀ name, e'.window.labels.get? name = (labels.get? name).bind fun n =>
    (((Sequence.survivors lines range.start range.stop hit).map Prod.snd).idxOf? n).map (· + 1)

namespace Engine

section
variable {e : Engine} {range : LineRange} (hit : Bytes → Bool)

/-- The flags say where each label is that is left. -/
theorem Sound.label_left (h : e.Sound) (name : Char) :
    ((e.window.labels.get? name).bind fun n => (Sequence.leftAt?
      (((e.pool.texts e.window.lines).zipIdx 1).map (Sequence.doomed range.start range.stop hit))
        (n - 1)).map (· + 1)) =
    (e.window.labels.get? name).bind fun n => (((Sequence.survivors (e.pool.texts e.window.lines)
      range.start range.stop hit).map Prod.snd).idxOf? n).map (· + 1) := by
  cases hname : e.window.labels.get? name with
  | none => rfl
  | some n =>
    obtain ⟨h₁, -⟩ := h.consistent.labels_within name n hname
    rw [Option.bind_some, Option.bind_some, Sequence.leftAt?_eq_idxOf?,
      show 1 + (n - 1) = n by omega]
    rfl

/-- Where no line is hit, none is gone. -/
theorem Sound.filtered_none (h : e.Sound) (h₁ : 1 ≤ range.start) (hr : range.Within e.window.dol)
    (hnone : (Sequence.run (e.pool.texts e.window.lines) range.start range.stop).any hit = false)
    (r : Recall) : Filtered (e.pool.texts e.window.lines) e.window.labels range hit
      (.error .noLinesMarked) (e.withRecall r) := by
  have hlen : (e.pool.texts e.window.lines).length = e.window.dol := Pool.length_texts _ _
  have hstop : range.stop ≤ (e.pool.texts e.window.lines).length := hlen ▸ hr.stop_le
  have hall : ∀ t ∈ Sequence.run (e.pool.texts e.window.lines) range.start range.stop,
      hit t = false := by simpa using hnone
  refine ⟨by simp [hnone], ?_, fun name => ?_⟩
  · have hkept : (Sequence.run (e.pool.texts e.window.lines) range.start range.stop).filter
        (fun t => !hit t) = Sequence.run (e.pool.texts e.window.lines) range.start range.stop :=
      List.filter_eq_self.mpr fun t ht => by simp [hall t ht]
    rw [Sequence.survivors_fst hit h₁ hr.le hstop, hkept, List.append_assoc,
      Sequence.run_append_drop _ h₁ hr.le, List.take_append_drop]
    exact h.toHeld.texts_eq
  · rw [← h.label_left hit name]
    show e.window.labels.get? name = _
    cases hname : e.window.labels.get? name with
    | none => rfl
    | some n =>
      obtain ⟨hn₁, hn⟩ := h.consistent.labels_within name n hname
      have hflags : ∀ gone ∈ ((e.pool.texts e.window.lines).zipIdx 1).map
          (Sequence.doomed range.start range.stop hit), gone = false := by
        rw [Sequence.map_doomed hit h₁ hr.le hstop]
        simpa using hall
      have hplace : n - 1 < (((e.pool.texts e.window.lines).zipIdx 1).map
          (Sequence.doomed range.start range.stop hit)).length := by
        rw [List.length_map, List.length_zipIdx, hlen]
        omega
      rw [Option.bind_some, Sequence.leftAt?_of_none hflags hplace, Option.map_some,
        Nat.sub_add_cancel hn₁]

/-- The marked lines are walked, and the marks that are left are taken away. -/
theorem Ready.filtered_walk (h : e.Ready) (hmode : e.window.mode = .normal) (h₁ : 1 ≤ range.start)
    (hr : range.Within e.window.dol) {hits : List Bool}
    (hhits : hits = (Sequence.run (e.pool.texts e.window.lines) range.start range.stop).map hit)
    (hsome : (Sequence.run (e.pool.texts e.window.lines) range.start range.stop).any hit = true) :
    Ends (EditM.walkGlobal range ⟨['d'], hits⟩) e
      (Filtered (e.pool.texts e.window.lines) e.window.labels range hit) := by
  refine walkGlobal_ends h fun s visits outcome last origins hs hn hrows hwindow hwalk _ => ?_
  have hnormal : s.window.mode = .normal := by
    rw [hwindow]
    exact hmode
  obtain ⟨⟨report, rfl⟩, hlast, hleft, hlabels⟩ := hwalk.deletes hs hn hnormal
  have hflags : (e.markedRows range ⟨['d'], hits⟩).map Row.marked = _ :=
    map_marked_markedRows h₁ hr hhits
  have htexts := map_text_markedRows e range ⟨['d'], hits⟩
  rw [hrows] at hleft hlabels
  have hend : (last.setWindow last.window.clearMarks).Held :=
    (hlast.of_marks (LineMap.unmarked_clearMarks last.window.lines).clearMarks_eq).toHeld
  refine ⟨by rw [if_pos hsome]; exact ⟨report, rfl⟩, ?_, fun name => ?_⟩
  · have hfilter := Sequence.filter_map_flags Row.text Row.marked
      (Sequence.doomed range.start range.stop hit) (e.markedRows range ⟨['d'], hits⟩) 1
      (by rw [hflags, htexts])
    rw [← hleft, htexts] at hfilter
    rw [hend.texts_eq]
    show Except.ok (last.pool.texts last.window.lines.clearMarks) = _
    rw [Pool.texts_clearMarks]
    exact congrArg Except.ok hfilter
  · have hname := hlabels name
    rw [hflags, hwindow] at hname
    rw [← h.toSound.label_left hit name]
    exact hname

end

end Engine

namespace EditM

section
variable {e : Engine} {range : LineRange} {tail source : List Char} {delimiter : Char}
  {pattern : Delimited} {matcher : Matcher}

/-- The command reads its pattern, and then the lines that are hit are walked, if there are any. -/
theorem runGlobal_ends (h : e.Sound) (hmode : e.window.mode = .normal) (hcalm : e.interrupted = false)
    (hs : range.start ≤ range.stop) (hpattern : Delimited.first tail = .ok (delimiter, pattern))
    (hsource : resolveSearch e.window.lastSearch pattern.body = .ok source)
    (hmatcher : e.window.compile source false = .ok matcher) (inverted : Bool)
    {post : Post Engine Report}
    (hwalk : (Sequence.run (e.pool.texts e.window.lines) range.start range.stop).any
        (matcher.marks inverted) = true →
      Ends (walkGlobal range ⟨GlobalRequest.subcommandOf pattern.rest,
        (Sequence.run (e.pool.texts e.window.lines) range.start range.stop).map
          (matcher.marks inverted)⟩) (e.withRecall { e.remembered with search := some source }) post)
    (hnone : (Sequence.run (e.pool.texts e.window.lines) range.start range.stop).any
        (matcher.marks inverted) = false →
      post (.error .noLinesMarked) (e.withRecall { e.remembered with search := some source })) :
    Ends (runGlobal inverted range tail) e post := by
  have hdir : e.view.window.flags.directory = false := by
    show e.window.flags.directory = false
    cases hd : e.window.flags.directory with
    | false => rfl
    | true =>
      rw [Window.mode, hd] at hmode
      cases hmode
  have hparse := GlobalRequest.parse_ends h.readable hdir hs hpattern hsource hmatcher
    (show e.remembered.interrupted = false from hcalm) inverted
  rw [runGlobal_eq, ends_bind, ends_query]
  refine hparse.mono ?_
  rintro _ _ ⟨rfl, rfl⟩
  rw [show e.view.pool = e.pool from rfl, show e.view.window = e.window from rfl]
  by_cases hany : (Sequence.run (e.pool.texts e.window.lines) range.start range.stop).any
      (matcher.marks inverted) = true
  · rw [if_pos hany, Post.after_ok]
    exact hwalk hany
  · rw [if_neg hany]
    exact hnone (by simpa using hany)

theorem runGlobal_deletes (h : e.Ready) (hmode : e.window.mode = .normal)
    (hcalm : e.interrupted = false) (h₁ : 1 ≤ range.start) (hr : range.Within e.window.dol)
    (hpattern : Delimited.first tail = .ok (delimiter, pattern))
    (hdelete : Unicode.trim pattern.rest = ['d'])
    (hsource : resolveSearch e.window.lastSearch pattern.body = .ok source)
    (hmatcher : e.window.compile source false = .ok matcher) (inverted : Bool) :
    Ends (runGlobal inverted range tail) e (Engine.Filtered (e.pool.texts e.window.lines)
      e.window.labels range (matcher.marks inverted)) := by
  have hsub : GlobalRequest.subcommandOf pattern.rest = ['d'] := by
    simp [GlobalRequest.subcommandOf, hdelete]
  refine runGlobal_ends h.toSound hmode hcalm hr.le hpattern hsource hmatcher inverted
    (fun hany => ?_) fun hnone => ?_
  · rw [hsub]
    exact (h.withRecall _).filtered_walk (matcher.marks inverted) hmode h₁ hr rfl hany
  · exact h.toSound.filtered_none (matcher.marks inverted) h₁ hr hnone _

end

end EditM

namespace Engine

/-- Which lines are found for a global command does not depend on which of the two it is. -/
theorem located_global (e : Engine) (inverted : Bool) (expr : RangeExpr) (tail : List Char) :
    e.located ⟨some (.global inverted), expr, tail⟩ = e.located ⟨some (.global false), expr, tail⟩ := by
  have hrange (given : Option LineRange) :
      effectiveRange e.window.dot e.window.dol false (some (.global inverted)) given =
        effectiveRange e.window.dot e.window.dol false (some (.global false)) given := by
    cases given <;> rfl
  have hlocate : e.view.locate false (some (.global inverted)) expr =
      e.view.locate false (some (.global false)) expr := by
    unfold View.locate
    simp only [show e.view.window = e.window from rfl, hrange]
    rfl
  unfold located
  rw [hlocate]
  rfl

/-- Deleting the lines that match, or those that do not, leaves the others in their order with their
labels. Each line of the range is left by one of the two commands. -/
theorem Reachable.global_deletes {e e₁ : Engine} (h : e.Reachable) (hmode : e.window.mode = .normal)
    (hcalm : e.interrupted = false) {g v tail source : List Char} {expr : RangeExpr}
    {range : LineRange} {delimiter : Char} {pattern : Delimited} {matcher : Matcher}
    (hg : e.asks g = some ⟨some (.global false), expr, tail⟩)
    (hv : e.asks v = some ⟨some (.global true), expr, tail⟩)
    (hloc : e.located ⟨some (.global false), expr, tail⟩ = some (range, e₁))
    (hpattern : Delimited.first tail = .ok (delimiter, pattern))
    (hdelete : Unicode.trim pattern.rest = ['d'])
    (hsource : resolveSearch e₁.window.lastSearch pattern.body = .ok source)
    (hmatcher : e₁.window.compile source false = .ok matcher) (s : Storage σ) (disk : σ) :
    ∃ lines, e.window.texts e.pool 1 e.window.dol = .ok lines ∧
      (1 ≤ range.start ∧ range.start ≤ range.stop ∧ range.stop ≤ lines.length) ∧
      (∀ inverted, ∃ answer e',
        e.dispatchOn s (if inverted then v else g) disk = .ok (answer, e', disk) ∧
          Filtered lines e.window.labels range (matcher.marks inverted) answer e') ∧
      (∀ inverted, (Sequence.survivors lines range.start range.stop (matcher.marks inverted)).map
        Prod.fst = lines.take (range.start - 1) ++
          (Sequence.run lines range.start range.stop).filter
            (fun text => matcher.isMatch (Markup.display text) == inverted) ++
          lines.drop range.stop) ∧
      ∀ n, range.start ≤ n → n ≤ range.stop →
        (n ∈ (Sequence.survivors lines range.start range.stop (matcher.marks false)).map Prod.snd ↔
          n ∉ (Sequence.survivors lines range.start range.stop (matcher.marks true)).map Prod.snd) := by
  have hidle : e.Idle := ⟨h.steady, (asks_eq_some.mp hg).1⟩
  have hready : e₁.Ready := hidle.ready_located rfl hloc
  obtain ⟨h₁, hr⟩ := hidle.located_within hloc rfl
  obtain ⟨hpool, -, hlines, hlabels, -, hmode₁⟩ := located_same hloc
  have hcalm₁ : e₁.interrupted = false := by
    cases hi : e₁.interrupted with
    | false => rfl
    | true => exact absurd ((hidle.located_unaltered hloc).heeded hi) (by simp [hcalm])
  have hlen : (e₁.pool.texts e₁.window.lines).length = e₁.window.dol := Pool.length_texts _ _
  have hstop : range.stop ≤ (e₁.pool.texts e₁.window.lines).length := hlen ▸ hr.stop_le
  have htexts : e.window.texts e.pool 1 e.window.dol = .ok (e₁.pool.texts e₁.window.lines) := by
    rw [hpool, hlines]
    exact hidle.toHeld.texts_eq
  refine ⟨_, htexts, ⟨h₁, hr.le, hstop⟩, fun inverted => ?_, fun inverted => ?_, fun n hn₁ hn => ?_⟩
  · have hq : e.asks (if inverted then v else g) = some ⟨some (.global inverted), expr, tail⟩ := by
      cases inverted
      · exact hg
      · exact hv
    have hall : (some (Command.global inverted)).all e.window.mode.allows = true := by
      rw [hmode]
      rfl
    rw [← hlabels]
    exact EditM.dispatchOn_located hq ((e.located_global inverted expr tail).trans hloc) hall rfl
      (EditM.runGlobal_deletes hready (hmode₁.trans hmode) hcalm₁ h₁ hr hpattern hdelete hsource
        hmatcher inverted) s disk
  · rw [Sequence.survivors_fst _ h₁ hr.le hstop]
    congr 3
    funext text
    cases inverted <;> simp [Matcher.marks]
  · have hswap : (fun text => !matcher.marks false text) = matcher.marks true := by
      funext text
      simp [Matcher.marks]
    rw [Sequence.mem_survivors_iff (matcher.marks false) h₁ hstop hn₁ hn, hswap]

/-- Of three lines the two that match are deleted by one of the commands, the third by the other. -/
theorem global_deletes_matching : ∃ e e₁ e₂ report₁ report₂,
    (Engine.new ⟨1, 10, 100⟩).perform (.insertBulk 0 [97, 10, 98, 10, 97, 10]) = .ok e ∧
      e.dispatchOn FileTree.storage ['g', '/', 'a', '/', 'd'] .empty = .ok (.ok report₁, e₁, .empty) ∧
      e₁.window.texts e₁.pool 1 e₁.window.dol = .ok [[98]] ∧
      e.dispatchOn FileTree.storage ['v', '/', 'a', '/', 'd'] .empty = .ok (.ok report₂, e₂, .empty) ∧
      e₂.window.texts e₂.pool 1 e₂.window.dol = .ok [[97], [97]] := by
  have hall : ((Engine.new ⟨1, 10, 100⟩).perform (.insertBulk 0 [97, 10, 98, 10, 97, 10]) >>=
      fun e => pure (e.window.mode = .normal && e.interrupted = false &&
        e.window.texts e.pool 1 e.window.dol = .ok [[97], [98], [97]] &&
        e.asks ['g', '/', 'a', '/', 'd'] =
          some ⟨some (.global false), .default, ['/', 'a', '/', 'd']⟩ &&
        e.asks ['v', '/', 'a', '/', 'd'] =
          some ⟨some (.global true), .default, ['/', 'a', '/', 'd']⟩ &&
        (e.located ⟨some (.global false), .default, ['/', 'a', '/', 'd']⟩).any fun x =>
          x.1 = ⟨1, 3, 0⟩ && (x.2.window.compile ['a'] false).toOption.any fun m =>
            m.marks false [97] && !m.marks false [98])) = .ok true := by
    decide +kernel
  obtain ⟨e, hnew, hall⟩ := bind_eq_ok.mp hall
  have hvalues := Except.ok.inj hall
  simp only [Bool.and_eq_true, decide_eq_true_eq, Option.any_eq_true] at hvalues
  obtain ⟨⟨⟨⟨⟨hmode, hcalm⟩, htexts⟩, hg⟩, hv⟩, ⟨range, e₀⟩, hloc, rfl, matcher, hcompile, ha, hb⟩ :=
    hvalues
  have hmatcher : e₀.window.compile ['a'] false = .ok matcher := by
    cases hm : e₀.window.compile ['a'] false with
    | ok m =>
      rw [hm] at hcompile
      exact congrArg Except.ok (Option.some.inj hcompile)
    | error err =>
      rw [hm] at hcompile
      cases hcompile
  obtain ⟨lines, hlines, -, hboth, hleft, -⟩ := Reachable.global_deletes (.call _ (.new _) hnew) hmode
    hcalm hg hv hloc (Delimited.first_slash ['a', '/', 'd']) (by decide +kernel) rfl hmatcher
    FileTree.storage .empty
  obtain rfl := Except.ok.inj (htexts.symm.trans hlines)
  obtain ⟨answer₁, e₁, hrun₁, hanswer₁, htexts₁, -⟩ := hboth false
  obtain ⟨answer₂, e₂, hrun₂, hanswer₂, htexts₂, -⟩ := hboth true
  have hmatch (text : Bytes) : matcher.isMatch (Markup.display text) = matcher.marks false text := by
    simp [Matcher.marks]
  have hswap (text : Bytes) : matcher.marks true text = !matcher.marks false text := by
    simp [Matcher.marks]
  have hb : matcher.marks false [98] = false := by simpa using hb
  rw [hleft] at htexts₁ htexts₂
  obtain ⟨report₁, rfl⟩ : ∃ report, answer₁ = .ok report := by
    simpa [Sequence.run, ha] using hanswer₁
  obtain ⟨report₂, rfl⟩ : ∃ report, answer₂ = .ok report := by
    simpa [Sequence.run, hswap, ha, hb] using hanswer₂
  refine ⟨e, e₁, e₂, report₁, report₂, hnew, hrun₁, ?_, hrun₂, ?_⟩
  · simpa [Sequence.run, hmatch, ha, hb] using htexts₁
  · simpa [Sequence.run, hmatch, ha, hb] using htexts₂

end Engine

end LineEditor
