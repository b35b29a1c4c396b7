import LineEditor.Proofs.Browsing
import LineEditor.Proofs.Filtering
import LineEditor.Proofs.ListFunctions

/-!
# Moving by a pattern

A global command that moves lines to the top or to the end visits them one by one, and each time the
lines it passes are numbered anew. In the end the lines that were marked are together, at the top in
reverse order or at the end in order, the others are in their order, and a label names the line it
named before.
-/

namespace LineEditor

/-! ## Items that are gathered one by one -/

namespace Sequence

variable {α β : Type}

/-- The items with the property at the top, the last one first, or at the end in their order. -/
def gathered (top : Bool) (p : α → Bool) (l : List α) : List α :=
  if top then (l.filter p).reverse ++ l.filter fun x => !p x
  else (l.filter fun x => !p x) ++ l.filter p

/-- Behind which line an item goes that is moved to the top or to the end. -/
def edge (top : Bool) (size : Nat) : Nat := if top then 0 else size

theorem edge_le (top : Bool) (size : Nat) : edge top size ≤ size := by
  unfold edge
  split
  · exact Nat.zero_le size
  · exact Nat.le_refl size

theorem gathered_perm (top : Bool) (p : α → Bool) (l : List α) : (gathered top p l).Perm l := by
  unfold gathered
  cases top
  · exact List.perm_append_comm.trans (List.filter_append_perm p l)
  · exact ((List.reverse_perm _).append_right _).trans (List.filter_append_perm p l)

theorem map_gathered (f : α → β) (top : Bool) (p : β → Bool) (l : List α) :
    (gathered top (p ∘ f) l).map f = gathered top p (l.map f) := by
  unfold gathered
  cases top <;> simp [List.filter_map, Function.comp_def]

theorem gathered_congr {top : Bool} {p q : α → Bool} {l : List α} (h : ∀ x ∈ l, p x = q x) :
    gathered top p l = gathered top q l := by
  have hnot : (l.filter fun x => !p x) = l.filter fun x => !q x :=
    List.filter_congr fun x hx => by rw [h x hx]
  unfold gathered
  rw [List.filter_congr h, hnot]

/-- Where no item has the property, none is moved. -/
theorem gathered_of_none {top : Bool} {p : α → Bool} {l : List α} (h : ∀ x ∈ l, p x = false) :
    gathered top p l = l := by
  have hnone : l.filter p = [] := List.filter_eq_nil_iff.mpr fun x hx => by simp [h x hx]
  have hall : (l.filter fun x => !p x) = l := List.filter_eq_self.mpr fun x hx => by simp [h x hx]
  unfold gathered
  rw [hnone, hall]
  simp

section
variable {top : Bool} {p : α → Bool} {f : α → α} {front back : List α} {x : α}

theorem length_middle (front back : List α) (x y : α) :
    (front ++ x :: back).length = (front ++ y :: back).length := by
  simp

theorem move_middle (top : Bool) (front back : List α) (x : α) :
    move (front ++ x :: back) (front.length + 1) (front.length + 1)
      (edge top (front ++ x :: back).length) =
        if top then x :: (front ++ back) else front ++ back ++ [x] := by
  have hrun : run (front ++ x :: back) (front.length + 1) (front.length + 1) = [x] := by
    simp [run]
  have hdrop : (front ++ x :: back).drop (front.length + 1) = back := by
    rw [← List.drop_drop, List.drop_left]
    rfl
  unfold move edge
  dsimp only
  rw [hrun, hdrop, Nat.add_sub_cancel, List.take_left]
  cases top
  · have hle : front.length + 1 ≤ (front ++ x :: back).length := by simp
    have hplace : (front ++ x :: back).length - (front.length + 1 - (front.length + 1) + 1) =
        (front ++ back).length := by
      simp only [List.length_append, List.length_cons]
      omega
    rw [if_neg Bool.false_ne_true, if_neg Bool.false_ne_true, if_pos hle, hplace, List.take_length,
      List.drop_length, List.append_nil]
  · simp

/-- Nothing has come in among the first items but the one that was moved: that many are in front of it,
or it was at its place before and is one of them. -/
theorem mem_take_move {count : Nat} (hcount : count = front.length ∨ count = front.length + 1 ∧
      (edge top (front ++ x :: back).length = front.length + 1 ∨
        edge top (front ++ x :: back).length + 1 = front.length + 1)) {y : α}
    (hy : y ∈ (if top then x :: (front ++ back) else front ++ back ++ [x]).take count) :
    y = x ∨ y ∈ front := by
  cases top
  · rw [if_neg Bool.false_ne_true] at hy
    unfold edge at hcount
    rw [if_neg Bool.false_ne_true, List.length_append, List.length_cons] at hcount
    rcases hcount with rfl | ⟨rfl, hlast⟩
    · rw [List.append_assoc, List.take_left] at hy
      exact .inr hy
    · obtain rfl : back = [] := List.length_eq_zero_iff.mp (by omega)
      have hmem := List.mem_of_mem_take hy
      simpa [or_comm] using hmem
  · rw [if_pos rfl, ← List.cons_append] at hy
    have hle : count ≤ (x :: front).length := by
      rw [List.length_cons]
      omega
    rw [List.take_append_of_le_length hle] at hy
    exact List.mem_cons.mp (List.mem_of_mem_take hy)

/-- The first item with the property is moved there and loses the property: the others are still to
be moved. -/
theorem gathered_move (hfront : ∀ y ∈ front, p y = false) (hx : p x = true)
    (hfx : p (f x) = false) (hf : f (f x) = f x) :
    (gathered top p (move (update (front ++ x :: back) (front.length + 1) f) (front.length + 1)
      (front.length + 1) (edge top (front ++ x :: back).length))).map f =
        (gathered top p (front ++ x :: back)).map f := by
  have hnone : front.filter p = [] := List.filter_eq_nil_iff.mpr fun y hy => by simp [hfront y hy]
  rw [update_middle, length_middle front back x (f x), move_middle]
  unfold gathered
  cases top
  · simp [hnone, hx, hfx, hf]
  · simp [hnone, hx, hfx, hf]

end

end Sequence

/-! ## One line is moved -/

/-- The subcommand that moves the current line to the top or to the end. -/
def moveTo (top : Bool) : List Char := ['m', if top then '0' else '$']

/-- The first and the last line can be asked for in a window whose line numbers are no larger than
offsets can be. -/
theorem View.address_edge {v : View} {top : Bool}
    (hsize : top = false → v.window.dol ≤ Number.maxOffset) (dot : Nat) (r : Recall) :
    Ends (v.address dot ⟨if top then .line 0 else .dol, 0⟩) r (.sure fun n r' =>
      n = Sequence.edge top v.window.dol ∧ r' = r) := by
  have hline {n : Nat} (hn : n ≤ Number.maxOffset) :
      Number.saturate (min n Number.maxOffset + 0 : Int) = n := by
    unfold Number.saturate
    omega
  unfold View.address
  cases top
  · have hdol := hsize rfl
    rw [if_neg Bool.false_ne_true]
    unfold View.base
    rw [pure_bind]
    dsimp only
    rw [hline hdol, if_neg (by omega), Int.toNat_natCast, if_neg (Nat.lt_irrefl _)]
    exact ends_pure.mpr ⟨rfl, rfl⟩
  · rw [if_pos rfl]
    unfold View.base
    rw [pure_bind]
    dsimp only
    rw [hline (Nat.zero_le _), if_neg (by omega), Int.toNat_natCast, if_neg (Nat.not_lt_zero _)]
    exact ends_pure.mpr ⟨rfl, rfl⟩

namespace EditM

section
variable {e : Engine} {top : Bool}

/-- The current line is moved, or only gone to if it is there already. -/
theorem planSubcommand_move (hmode : e.window.mode = .normal) (h₁ : 1 ≤ e.window.dot)
    (hdot : e.window.dot ≤ e.window.dol) (hsize : top = false → e.window.dol ≤ Number.maxOffset) :
    Ends (planSubcommand (moveTo top)) e (.sure fun plan e' => e' = e ∧
      plan = if Sequence.edge top e.window.dol = e.window.dot ∨
          Sequence.edge top e.window.dol + 1 = e.window.dot then .look (some e.window.dot) []
        else .edit (.move e.window.dot e.window.dot (Sequence.edge top e.window.dol)) true none) := by
  have hparse : Address.parse (Unicode.trimStart [if top then '0' else '$']) =
      .ok (some (⟨if top then .line 0 else .dol, 0⟩, [])) := by
    cases top <;> decide +kernel
  have hprint : printSuffix LineCommand.move.letter [] = .ok none := by decide
  refine planSubcommand_letter (c := .move) hmode h₁ hdot rfl ?_
  rw [ends_query]
  unfold View.plan View.planMove View.destination
  rw [Address.lift_read, bind_assoc, ends_bind, ends_liftExcept, hparse, Post.after_ok]
  dsimp only
  rw [bind_assoc, ends_bind, ends_liftExcept, hprint, Post.after_ok, bind_assoc]
  refine (View.address_edge (v := e.view) hsize _ _).sure_then ?_
  rintro _ _ ⟨rfl, rfl⟩
  rw [pure_bind]
  simp only [Bool.and_eq_true, Bool.or_eq_true, decide_eq_true_eq,
    show e.view.window = e.window from rfl]
  rw [if_neg (by omega)]
  split
  · exact ends_pure.mpr ⟨rfl, rfl⟩
  · exact ends_pure.mpr ⟨rfl, rfl⟩

/-- A marked line is moved when it is visited. The lines are said to be numbered as before only where
it was there already. -/
theorem visit_move (h : e.Sound) (hn : e.entry = none) (hmode : e.window.mode = .normal)
    (hsize : top = false → e.window.dol ≤ Number.maxOffset) {n k : Nat}
    (hnext : e.window.lines.nextMarked? n = some k) (last : Option Nat) :
    Ends (visit (moveTo top) k last) e (.sure fun report e' => e.Worked e' ∧
      e'.window.mode = .normal ∧
      e'.rows = Sequence.move (Sequence.update e.rows k Row.unmark) k k
        (Sequence.edge top e.window.dol) ∧
      (∀ name, e'.window.labels.get? name = (e.window.labels.get? name).map
        (Window.moveRule k k (Sequence.edge top e.window.dol))) ∧
      (report.shapeChanged = false → Sequence.edge top e.window.dol = k ∨
        Sequence.edge top e.window.dol + 1 = k)) := by
  obtain ⟨h₁, hdol⟩ := LineMap.nextMarked?_le hnext
  have hhand := h.worked_handOut h₁ hdol
  have hsame : (e.handOut k).window.dol = e.window.dol := e.dol_setMark k false
  have hnormal : (e.handOut k).window.mode = .normal := by
    cases k <;> exact hmode
  have hlabels : (e.handOut k).window.labels = e.window.labels := by
    cases k <;> rfl
  have hplan : Ends (planSubcommand (moveTo top)) (e.handOut k) _ :=
    planSubcommand_move hnormal h₁ (hsame.symm ▸ hdol) (by rwa [hsame])
  rw [hsame, show (e.handOut k).window.dot = k from rfl] at hplan
  generalize hdest : Sequence.edge top e.window.dol = dest at hplan ⊢
  have hle : dest ≤ e.window.dol := hdest ▸ Sequence.edge_le top _
  rw [ends_visit hdol]
  refine hplan.sure_then ?_
  rintro plan _ ⟨rfl, hchoice⟩
  split at hchoice
  · rename_i hbeside
    subst hchoice
    have hlen : k ≤ (Sequence.update e.rows k Row.unmark).length := by
      rw [Sequence.length_update, Engine.rows, Pool.length_rows]
      exact hdol
    unfold carryOut
    refine (ends_goto_bind (hsame.symm ▸ hdol)).mpr (ends_pure.mpr ?_)
    refine ⟨hhand, hnormal, ?_, fun name => ?_, fun _ => hbeside⟩
    · rw [Sequence.move_beside _ h₁ (Nat.le_refl k) hlen hbeside]
      exact Engine.rows_handOut h k
    · have hstays (m : Nat) : Window.moveRule k k dest m = m := by
        unfold Window.moveRule
        grind
      show (e.handOut k).window.labels.get? name = _
      rw [hlabels, funext hstays]
      exact Option.map_id'.symm
  · rename_i hout
    subst hchoice
    have hfit : (Edit.move k k dest).Fits (e.handOut k).window.dol := by
      rw [hsame]
      exact ⟨h₁, Nat.le_refl k, hdol, hle, by omega⟩
    refine (carryOut_inside_ends hhand.sound (hhand.untyped hn) hfit true none).of_sure ?_
    rintro report _ ⟨hshape, hw, hrows, w, p, hrun, rfl⟩
    obtain ⟨w₁, hmove, heq⟩ := bind_eq_ok.mp hrun
    obtain ⟨rfl, -⟩ := Prod.mk.inj (Except.ok.inj heq)
    obtain rfl := Window.moveLines_eq_ok hmove
    refine ⟨hhand.trans hw, ?_, ?_, fun name => ?_, fun hsame => ?_⟩
    · show (Window.noteEdit _).mode = _
      rw [Window.noteEdit_eq]
      exact hnormal
    · rw [hrows, Engine.rows_handOut h]
      rfl
    · show (Window.noteEdit _).labels.get? name = _
      rw [Window.noteEdit_eq]
      show ((e.handOut k).window.labels.remap _).get? name = _
      rw [Labels.get?_remap, hlabels]
      exact Option.map_eq_bind.symm
    · rw [hshape] at hsame
      cases hsame

end

end EditM

/-! ## All of them -/

namespace Row

theorem unmark_of_unmarked {row : Row} (h : row.marked = false) : row.unmark = row := by
  unfold unmark
  rw [← h]

/-- The mark is taken off a row that has a number beside it. -/
def unmarkFirst (x : Row × Nat) : Row × Nat := (x.1.unmark, x.2)

theorem map_unmarkFirst {l : List (Row × Nat)} (h : ∀ x ∈ l, x.1.marked = false) :
    l.map unmarkFirst = l := by
  conv_rhs => rw [← List.map_id l]
  exact List.map_congr_left fun x hx => Prod.ext (unmark_of_unmarked (h x hx)) rfl

/-- The rows with their numbers when row `k` was moved to the top or to the end and has lost its
mark. -/
def broughtOut (top : Bool) (l : List (Row × Nat)) (k : Nat) : List (Row × Nat) :=
  Sequence.move (Sequence.update l k unmarkFirst) k k (Sequence.edge top l.length)

section
variable {top : Bool} {l front back : List (Row × Nat)} {x : Row × Nat} {k : Nat}

theorem map_fst_broughtOut (top : Bool) (l : List (Row × Nat)) (k : Nat) :
    (broughtOut top l k).map Prod.fst =
      Sequence.move (Sequence.update (l.map Prod.fst) k unmark) k k (Sequence.edge top l.length) := by
  have hupdate : (Sequence.update l k unmarkFirst).map Prod.fst =
      Sequence.update (l.map Prod.fst) k unmark := Sequence.map_update Prod.fst (fun _ => rfl) l k
  rw [broughtOut, Sequence.map_move, hupdate]

theorem map_snd_broughtOut (top : Bool) (l : List (Row × Nat)) (k : Nat) :
    (broughtOut top l k).map Prod.snd =
      Sequence.move (l.map Prod.snd) k k (Sequence.edge top l.length) := by
  have hupdate : (Sequence.update l k unmarkFirst).map Prod.snd =
      Sequence.update (l.map Prod.snd) k id := Sequence.map_update Prod.snd (fun _ => rfl) l k
  rw [broughtOut, Sequence.map_move, hupdate, Sequence.update_id]

theorem length_broughtOut (h₁ : 1 ≤ k) : (broughtOut top l k).length = l.length := by
  have hperm := Sequence.move_perm (Sequence.update l k unmarkFirst) h₁ (Nat.le_refl k)
    (Sequence.edge top l.length)
  exact hperm.length_eq.trans (Sequence.length_update l k _)

/-- A number is where the row is that it was beside. -/
theorem getElem?_broughtOut (h₁ : 1 ≤ k) (hk : k ≤ l.length) {m : Nat} (hm₁ : 1 ≤ m)
    (hm : m ≤ l.length) :
    ((broughtOut top l k).map Prod.snd)[Window.moveRule k k (Sequence.edge top l.length) m - 1]? =
      (l.map Prod.snd)[m - 1]? := by
  have hlen : (l.map Prod.snd).length = l.length := List.length_map _
  have hle := Sequence.edge_le top l.length
  have hcarries := Sequence.carries_move (l.map Prod.snd) h₁ (Nat.le_refl k) (by rwa [hlen])
    (by rwa [hlen]) (show ¬(k ≤ Sequence.edge top l.length ∧ Sequence.edge top l.length < k) by omega)
  rw [map_snd_broughtOut]
  exact (hcarries m _ hm₁ (hlen ▸ hm) rfl).2

/-- In front of where the walk goes on nothing is marked. -/
theorem unmarked_take_broughtOut (hfront : ∀ y ∈ front, y.1.marked = false) {stays : Bool}
    (hstays : stays = false → Sequence.edge top (front ++ x :: back).length = front.length + 1 ∨
      Sequence.edge top (front ++ x :: back).length + 1 = front.length + 1) :
    ∀ y ∈ (broughtOut top (front ++ x :: back) (front.length + 1)).take
      ((if stays then front.length + 1 else front.length + 1 + 1) - 1), y.1.marked = false := by
  intro y hy
  rw [broughtOut, Sequence.update_middle, Sequence.length_middle front back x (unmarkFirst x),
    Sequence.move_middle] at hy
  rw [Sequence.length_middle front back x (unmarkFirst x)] at hstays
  have hpassed : (if stays then front.length + 1 else front.length + 1 + 1) - 1 = front.length ∨
      (if stays then front.length + 1 else front.length + 1 + 1) - 1 = front.length + 1 ∧
        (Sequence.edge top (front ++ unmarkFirst x :: back).length = front.length + 1 ∨
          Sequence.edge top (front ++ unmarkFirst x :: back).length + 1 = front.length + 1) := by
    cases stays with
    | true => exact .inl rfl
    | false => exact .inr ⟨rfl, hstays rfl⟩
  rcases Sequence.mem_take_move hpassed hy with rfl | hy
  · rfl
  · exact hfront y hy

end

end Row

/-- By induction on the walk: what is still to be moved is what is still marked, and that is not in
front of where the walk goes on. The numbers beside the rows tell where the labels are. -/
theorem Walk.gathers {top : Bool} {e e' : Engine} {origins origins' : Origins} {n : Nat}
    {last : Option Nat} {visits : List Visit} {outcome : Except EditError Report}
    (hwalk : Walk (moveTo top) e origins n last visits outcome e' origins') (h : e.Sound)
    (hn : e.entry = none) (hmode : e.window.mode = .normal)
    (hsize : top = false → e.window.dol ≤ Number.maxOffset)
    {l : List (Row × Nat)} (hl : l.map Prod.fst = e.rows)
    (hfront : ∀ x ∈ l.take (n - 1), x.1.marked = false) :
    (∃ report, outcome = .ok report) ∧ e'.Sound ∧
      e'.rows = ((Sequence.gathered top (fun x => x.1.marked) l).map Row.unmarkFirst).map Prod.fst ∧
      ∀ name, (e'.window.labels.get? name).bind (fun n =>
          (((Sequence.gathered top (fun x => x.1.marked) l).map Row.unmarkFirst).map
            Prod.snd)[n - 1]?) =
        (e.window.labels.get? name).bind fun n => (l.map Prod.snd)[n - 1]? := by
  induction hwalk generalizing l with
  | @done e origins n last hnone =>
    have hunmarked : ∀ x ∈ l, x.1.marked = false := fun x => Engine.unmarked_of_done hnone hl
    rw [Sequence.gathered_of_none hunmarked, Row.map_unmarkFirst hunmarked]
    exact ⟨⟨_, rfl⟩, h, hl.symm, fun _ => rfl⟩
  | @stop e e' origins n k last err v hnext hv hrun =>
    exact ((EditM.visit_move h hn hmode hsize hnext last).of_eq hrun).elim
  | @next e e₁ e' origins origins' n k last report v visits outcome hnext hv hrun hrest ih =>
    have hdol {e : Engine} {l : List (Row × Nat)} (hl : l.map Prod.fst = e.rows) :
        e.window.dol = l.length := by
      rw [← List.length_map (f := Prod.fst), hl, Engine.rows, Pool.length_rows]
      rfl
    obtain ⟨hw, hmode₁, hrows, hlabels, hshape⟩ :=
      (EditM.visit_move h hn hmode hsize hnext last).of_eq hrun
    rw [hdol hl] at hrows hlabels hshape
    obtain ⟨front, x, back, rfl, rfl, hfront, hx⟩ := Engine.first_marked hnext hl hfront
    have hpos : 1 ≤ front.length + 1 := Nat.le_add_left _ _
    have hl₁ : (Row.broughtOut top (front ++ x :: back) (front.length + 1)).map Prod.fst = e₁.rows := by
      rw [hrows, Row.map_fst_broughtOut, hl]
    have hsize₁ : top = false → e₁.window.dol ≤ Number.maxOffset := fun ht => by
      rw [hdol hl₁, Row.length_broughtOut hpos, ← hdol hl]
      exact hsize ht
    obtain ⟨⟨rest, rfl⟩, hsound, hend, hnames⟩ := ih hw.sound (hw.untyped hn) hmode₁ hsize₁ hl₁
      (Row.unmarked_take_broughtOut hfront hshape)
    have hgather : (Sequence.gathered top (fun x => x.1.marked) (Row.broughtOut top
        (front ++ x :: back) (front.length + 1))).map Row.unmarkFirst = (Sequence.gathered top
          (fun x => x.1.marked) (front ++ x :: back)).map Row.unmarkFirst :=
      Sequence.gathered_move hfront hx rfl rfl
    rw [hgather] at hend hnames
    refine ⟨⟨_, rfl⟩, hsound, hend, fun name => ?_⟩
    rw [hnames, hlabels]
    cases hname : e.window.labels.get? name with
    | none => rfl
    | some m =>
      obtain ⟨hm₁, hm⟩ := h.consistent.labels_within name m hname
      rw [hdol hl] at hm
      exact Row.getElem?_broughtOut hpos (by simp) hm₁ hm

/-! ## What the command leaves -/

namespace Sequence

section
variable {α : Type} (hit : α → Bool) {l : List α} {start stop : Nat}

/-- The items with their numbers when those of the range that are hit are gathered. -/
def regrouped (l : List α) (start stop : Nat) (hit : α → Bool) (top : Bool) : List (α × Nat) :=
  gathered top (doomed start stop hit) (l.zipIdx 1)

theorem regrouped_perm (l : List α) (start stop : Nat) (top : Bool) :
    (regrouped l start stop hit top).Perm (l.zipIdx 1) :=
  gathered_perm top _ _

/-- Flags tell which items are to be gathered. -/
theorem regrouped_eq {β : Type} (f : β → α) (flag : β → Bool) {l : List β}
    (h : l.map flag = ((l.map f).zipIdx 1).map (doomed start stop hit)) (top : Bool) :
    (gathered top (fun x => flag x.1) (l.zipIdx 1)).map (Prod.map f id) =
      regrouped (l.map f) start stop hit top := by
  have hflag : ∀ x ∈ l.zipIdx 1, flag x.1 = (doomed start stop hit ∘ Prod.map f id) x := by
    rintro ⟨b, n⟩ hx
    obtain ⟨h₁, hget⟩ := List.mk_mem_zipIdx_iff_le_and_getElem?_sub.mp hx
    have hn := congrArg (·[n - 1]?) h
    simp only [List.getElem?_map, List.getElem?_zipIdx, hget, Option.map_some,
      Nat.add_sub_cancel' h₁] at hn
    exact Option.some.inj hn
  rw [gathered_congr hflag, map_gathered, regrouped, List.zipIdx_map]

section
variable (h₁ : 1 ≤ start) (hs : start ≤ stop) (hstop : stop ≤ l.length)
include h₁ hs hstop

theorem filter_doomed_fst : ((l.zipIdx 1).filter (doomed start stop hit)).map Prod.fst =
    (run l start stop).filter hit := by
  have hout {part : List α} {first : Nat} (h : first + part.length ≤ start ∨ stop < first) :
      (part.zipIdx first).filter (doomed start stop hit) = [] :=
    List.filter_eq_nil_iff.mpr fun x hx => by simp [doomed_outside hit h hx]
  have hin : ((run l start stop).zipIdx start).filter (doomed start stop hit) =
      ((run l start stop).zipIdx start).filter fun x => hit x.1 :=
    List.filter_congr fun x hx => doomed_inside hit h₁ hs hstop hx
  rw [zipIdx_parts h₁ hs hstop, List.filter_append, List.filter_append, hin,
    hout (.inl (front_le l h₁)), hout (.inr (Nat.lt_succ_self stop)), List.nil_append,
    List.append_nil]
  conv_rhs => rw [← List.zipIdx_map_fst start (run l start stop), List.filter_map]
  rfl

theorem regrouped_fst (top : Bool) : (regrouped l start stop hit top).map Prod.fst =
    let others := l.take (start - 1) ++ (run l start stop).filter (fun x => !hit x) ++ l.drop stop
    if top then ((run l start stop).filter hit).reverse ++ others
    else others ++ (run l start stop).filter hit := by
  have hothers := survivors_fst hit h₁ hs hstop
  have hthose := filter_doomed_fst hit h₁ hs hstop
  unfold survivors at hothers
  unfold regrouped gathered
  cases top
  · simp only [Bool.false_eq_true, if_false, List.map_append, hothers, hthose]
  · simp only [if_true, List.map_append, List.map_reverse, hothers, hthose]

end

end

end Sequence

/-- Labels are where the numbers of their lines have gone. -/
theorem Labels.get?_of_numbers {labels labels' : Labels} {numbers : List Nat} {size : Nat}
    (hperm : numbers.Perm (List.range' 1 size)) (hw : labels.Within size) (hw' : labels'.Within size)
    (name : Char) (h : (labels'.get? name).bind (fun n => numbers[n - 1]?) =
      (labels.get? name).bind fun n => (List.range' 1 size)[n - 1]?) :
    labels'.get? name = (labels.get? name).bind fun n => (numbers.idxOf? n).map (· + 1) := by
  have hlen : numbers.length = size := by rw [hperm.length_eq, List.length_range']
  have hnodup : numbers.Nodup := hperm.nodup_iff.mpr List.nodup_range'
  cases hnew : labels'.get? name with
  | none =>
    rw [hnew] at h
    cases hold : labels.get? name with
    | none => rfl
    | some n =>
      obtain ⟨hn₁, hn⟩ := hw name n hold
      rw [hold, Option.bind_some, List.getElem?_eq_getElem (by rw [List.length_range']; omega)] at h
      cases h
  | some m =>
    obtain ⟨hm₁, hm⟩ := hw' name m hnew
    have hlt : m - 1 < numbers.length := by omega
    rw [hnew, Option.bind_some, List.getElem?_eq_getElem hlt] at h
    cases hold : labels.get? name with
    | none =>
      rw [hold] at h
      cases h
    | some n =>
      obtain ⟨hn₁, hn⟩ := hw name n hold
      rw [hold, Option.bind_some, List.getElem?_range' (by omega)] at h
      have hat : numbers[m - 1] = n := by
        rw [Option.some.inj h]
        omega
      have hplace : numbers.idxOf? n = some (m - 1) :=
        List.idxOf?_eq_some_iff.mpr ⟨hlt, hat, fun j hj heq =>
          absurd (hnodup.getElem_inj_iff.mp (heq.trans hat.symm)) (by omega)⟩
      rw [Option.bind_some, hplace, Option.map_some, Nat.sub_add_cancel hm₁]

/-- The lines in the range that are hit are gathered at the top or at the end, and the labels are on
the lines that they were on. -/
structure Engine.Gathered (lines : List Bytes) (labels : Labels) (range : LineRange)
    (hit : Bytes → Bool) (top : Bool) (e' : Engine) : Prop where
  texts_eq : e'.window.texts e'.pool 1 e'.window.dol =
    .ok ((Sequence.regrouped lines range.start range.stop hit top).map Prod.fst)
  labels_eq : ∀ name, e'.window.labels.get? name = (labels.get? name).bind fun n =>
    (((Sequence.regrouped lines range.start range.stop hit top).map Prod.snd).idxOf? n).map (· + 1)

/-- The marked lines are walked, and the marks that are left are taken away. -/
theorem Engine.Ready.gathered_walk {e : Engine} {range : LineRange} (hit : Bytes → Bool) (top : Bool)
    (h : e.Ready) (hmode : e.window.mode = .normal)
    (hsize : top = false → e.window.dol ≤ Number.maxOffset) (h₁ : 1 ≤ range.start)
    (hr : range.Within e.window.dol) {hits : List Bool}
    (hhits : hits = (Sequence.run (e.pool.texts e.window.lines) range.start range.stop).map hit) :
    Ends (EditM.walkGlobal range ⟨moveTo top, hits⟩) e
      (.sure fun _ => Gathered (e.pool.texts e.window.lines) e.window.labels range hit top) := by
  refine walkGlobal_ends h fun s visits outcome last origins hs hn hrows hwindow hwalk _ => ?_
  have hnormal : s.window.mode = .normal := by
    rw [hwindow]
    exact hmode
  have htexts : s.rows.map Row.text = e.pool.texts e.window.lines := by
    rw [hrows]
    exact map_text_markedRows e range _
  have hlen : s.rows.length = e.window.dol := by
    rw [← List.length_map (f := Row.text), htexts, Pool.length_texts]
    rfl
  have hdol : s.window.dol = e.window.dol := (Pool.length_rows _ _).symm.trans hlen
  have hflags : (e.markedRows range ⟨moveTo top, hits⟩).map Row.marked = _ :=
    map_marked_markedRows h₁ hr hhits
  rw [← hrows, ← htexts] at hflags
  have hgroups := Sequence.regrouped_eq hit Row.text Row.marked hflags top
  rw [htexts] at hgroups
  have hl : (s.rows.zipIdx 1).map Prod.fst = s.rows := List.zipIdx_map_fst 1 _
  obtain ⟨⟨report, rfl⟩, hlast, hend, hlabels⟩ :=
    hwalk.gathers hs hn hnormal (fun ht => hdol ▸ hsize ht) hl (by simp)
  have hclear : (last.setWindow last.window.clearMarks).Held :=
    (hlast.of_marks (LineMap.unmarked_clearMarks last.window.lines).clearMarks_eq).toHeld
  have hnumbers : ((Sequence.gathered top (fun x => x.1.marked) (s.rows.zipIdx 1)).map
      Row.unmarkFirst).map Prod.snd = (Sequence.regrouped (e.pool.texts e.window.lines) range.start
        range.stop hit top).map Prod.snd := by
    rw [← hgroups, List.map_map, List.map_map]
    rfl
  refine ⟨?_, fun name => ?_⟩
  · rw [hclear.texts_eq]
    show Except.ok (last.pool.texts last.window.lines.clearMarks) = _
    rw [Pool.texts_clearMarks, Pool.texts, show last.pool.rows last.window.lines = last.rows from rfl,
      hend, ← hgroups, List.map_map, List.map_map, List.map_map]
    rfl
  · have hname := hlabels name
    rw [hnumbers, List.zipIdx_map_snd, hlen, show s.window.labels = e.window.labels by rw [hwindow]]
      at hname
    have hsize' : last.window.dol = e.window.dol := by
      rw [← hlen, ← List.length_zipIdx (i := 1) (l := s.rows),
        ← (Sequence.gathered_perm top (fun x => x.1.marked) _).length_eq,
        ← List.length_map (f := Row.unmarkFirst), ← List.length_map (f := Prod.fst), ← hend]
      exact (Pool.length_rows _ _).symm
    refine Labels.get?_of_numbers ?_ h.consistent.labels_within (hsize' ▸ hlast.consistent.labels_within)
      name hname
    have hperm := (Sequence.regrouped_perm hit (e.pool.texts e.window.lines) range.start range.stop
      top).map Prod.snd
    rwa [List.zipIdx_map_snd, Pool.length_texts] at hperm

namespace Engine

/-- A global command that moves each line to the top leaves those it marks in reverse order in front
of the others, and one that moves each line to the end leaves them in order behind the others. The
others are in their order, no line is lost or doubled, and the labels are on their lines. So a text
is reversed if all its lines are moved to the top. The end is found by its line number, which must
not be larger than offsets can be. -/
theorem Reachable.global_gathers {e e₁ : Engine} (h : e.Reachable) (hmode : e.window.mode = .normal)
    (hcalm : e.interrupted = false) {line tail source : List Char} {inverted top : Bool}
    {expr : RangeExpr} {range : LineRange} {delimiter : Char} {pattern : Delimited} {matcher : Matcher}
    (hq : e.asks line = some ⟨some (.global inverted), expr, tail⟩)
    (hloc : e.located ⟨some (.global inverted), expr, tail⟩ = some (range, e₁))
    (hpattern : Delimited.first tail = .ok (delimiter, pattern))
    (hmove : Unicode.trim pattern.rest = moveTo top)
    (hsource : resolveSearch e₁.window.lastSearch pattern.body = .ok source)
    (hmatcher : e₁.window.compile source false = .ok matcher)
    (hsize : top = false → e.window.dol ≤ Number.maxOffset) (s : Storage σ) (disk : σ) :
    ∃ lines, e.window.texts e.pool 1 e.window.dol = .ok lines ∧
      (1 ≤ range.start ∧ range.start ≤ range.stop ∧ range.stop ≤ lines.length) ∧
      ((Sequence.run lines range.start range.stop).any (matcher.marks inverted) = true →
        ∃ report e', e.dispatchOn s line disk = .ok (.ok report, e', disk) ∧
          Gathered lines e.window.labels range (matcher.marks inverted) top e') ∧
      ((Sequence.regrouped lines range.start range.stop (matcher.marks inverted) top).map Prod.fst =
        let those := (Sequence.run lines range.start range.stop).filter (matcher.marks inverted)
        let others := lines.take (range.start - 1) ++
          (Sequence.run lines range.start range.stop).filter (fun x => !matcher.marks inverted x) ++
            lines.drop range.stop
        if top then those.reverse ++ others else others ++ those) ∧
      (Sequence.regrouped lines range.start range.stop (matcher.marks inverted) top).Perm
        (lines.zipIdx 1) ∧
      ((∀ text ∈ lines, matcher.marks inverted text = true) → range.start = 1 →
        range.stop = lines.length → (Sequence.regrouped lines range.start range.stop
          (matcher.marks inverted) true).map Prod.fst = lines.reverse) := by
  have hidle : e.Idle := ⟨h.steady, (asks_eq_some.mp hq).1⟩
  have hready : e₁.Ready := hidle.ready_located rfl hloc
  obtain ⟨h₁, hr⟩ := hidle.located_within hloc rfl
  obtain ⟨hpool, -, hlines, hlabels, -, hmode₁⟩ := located_same hloc
  have hcalm₁ : e₁.interrupted = false := by
    cases hi : e₁.interrupted with
    | false => rfl
    | true => exact absurd ((hidle.located_unaltered hloc).heeded hi) (by simp [hcalm])
  have hlen : (e₁.pool.texts e₁.window.lines).length = e₁.window.dol := Pool.length_texts _ _
  have hstop : range.stop ≤ (e₁.pool.texts e₁.window.lines).length := hlen ▸ hr.stop_le
  have htexts : e.window.texts e.pool 1 e.window.dol = .ok (e₁.pool.texts e₁.window.lines) := by
    rw [hpool, hlines]
    exact hidle.toHeld.texts_eq
  have hsize₁ : top = false → e₁.window.dol ≤ Number.maxOffset := by
    rw [Window.dol, hlines]
    exact hsize
  refine ⟨_, htexts, ⟨h₁, hr.le, hstop⟩, fun hany => ?_, Sequence.regrouped_fst _ h₁ hr.le hstop top,
    Sequence.regrouped_perm _ _ _ _ top, fun hall hfirst hlast => ?_⟩
  · have hsub : GlobalRequest.subcommandOf pattern.rest = moveTo top := by
      simp [GlobalRequest.subcommandOf, hmove, moveTo]
    have hgathers : Ends (EditM.runGlobal inverted range tail) e₁ (.sure fun _ =>
        Gathered (e₁.pool.texts e₁.window.lines) e.window.labels range (matcher.marks inverted)
          top) := by
      rw [← hlabels]
      refine EditM.runGlobal_ends hready.toSound (hmode₁.trans hmode) hcalm₁ hr.le hpattern hsource
        hmatcher inverted (fun _ => ?_) fun hnone => ?_
      · rw [hsub]
        exact (hready.withRecall _).gathered_walk _ top (hmode₁.trans hmode) hsize₁ h₁ hr rfl
      · rw [hnone] at hany
        cases hany
    have hallowed : (some (Command.global inverted)).all e.window.mode.allows = true := by
      rw [hmode]
      rfl
    obtain ⟨answer, e', hrun, hanswer⟩ :=
      EditM.dispatchOn_located hq hloc hallowed rfl hgathers s disk
    cases answer with
    | ok report => exact ⟨report, e', hrun, hanswer⟩
    | error err => exact hanswer.elim
  · have hrun : Sequence.run (e₁.pool.texts e₁.window.lines) range.start range.stop =
        e₁.pool.texts e₁.window.lines := by
      rw [hfirst, hlast]
      exact List.take_of_length_le (by rw [Nat.sub_self, List.drop_zero]; omega)
    rw [Sequence.regrouped_fst _ h₁ hr.le hstop, hrun, hfirst, hlast, List.drop_length]
    have hthose : (e₁.pool.texts e₁.window.lines).filter (matcher.marks inverted) =
        e₁.pool.texts e₁.window.lines := List.filter_eq_self.mpr hall
    have hothers : (e₁.pool.texts e₁.window.lines).filter (fun x => !matcher.marks inverted x) = [] :=
      List.filter_eq_nil_iff.mpr fun x hx => by simp [hall x hx]
    simp [hthose, hothers]

/-- The first and the last of three lines are moved to the top, or to the end, and the label with the
last. -/
theorem global_gathers_matching : ∃ e e₁ e₂ report₁ report₂,
    (Engine.new ⟨1, 10, 100⟩).performAll [.insertBulk 0 [97, 10, 98, 10, 97, 99, 10],
      .line FileTree.storage .empty ['3', 'k', 'z']] = .ok e ∧
    e.dispatchOn FileTree.storage ['g', '/', 'a', '/', 'm', '0'] .empty = .ok (.ok report₁, e₁, .empty) ∧
    e₁.window.texts e₁.pool 1 e₁.window.dol = .ok [[97, 99], [97], [98]] ∧
    e₁.window.labels.get? 'z' = some 1 ∧
    e.dispatchOn FileTree.storage ['g', '/', 'a', '/', 'm', '$'] .empty = .ok (.ok report₂, e₂, .empty) ∧
    e₂.window.texts e₂.pool 1 e₂.window.dol = .ok [[98], [97], [97, 99]] ∧
    e₂.window.labels.get? 'z' = some 3 := by
  have hall : ((Engine.new ⟨1, 10, 100⟩).performAll [.insertBulk 0 [97, 10, 98, 10, 97, 99, 10],
      .line FileTree.storage .empty ['3', 'k', 'z']] >>= fun e => pure (e.window.mode = .normal &&
        !e.interrupted && e.window.dol = 3 && e.window.labels.get? 'z' = some 3 &&
        e.window.texts e.pool 1 e.window.dol = .ok [[97], [98], [97, 99]] &&
        [true, false].all fun top => e.asks (['g', '/', 'a', '/'] ++ moveTo top) =
            some ⟨some (.global false), .default, ['/', 'a', '/'] ++ moveTo top⟩ &&
          (e.located ⟨some (.global false), .default, ['/', 'a', '/'] ++ moveTo top⟩).any fun x =>
            x.1 = ⟨1, 3, 0⟩ && (x.2.window.compile ['a'] false).toOption.any fun m =>
              m.marks false [97] && !m.marks false [98] && m.marks false [97, 99])) = .ok true := by
    decide +kernel
  obtain ⟨e, hnew, hall⟩ := bind_eq_ok.mp hall
  have hvalues := Except.ok.inj hall
  simp only [Bool.and_eq_true, Bool.not_eq_true', decide_eq_true_eq, List.all_eq_true,
    Option.any_eq_true] at hvalues
  obtain ⟨⟨⟨⟨⟨hmode, hcalm⟩, hdol⟩, hlabel⟩, htexts⟩, hboth⟩ := hvalues
  have hgathers (top : Bool) : ∃ report e', e.dispatchOn FileTree.storage
      (['g', '/', 'a', '/'] ++ moveTo top) .empty = .ok (.ok report, e', .empty) ∧
        e'.window.texts e'.pool 1 e'.window.dol =
          .ok (if top then [[97, 99], [97], [98]] else [[98], [97], [97, 99]]) ∧
        e'.window.labels.get? 'z' = some (if top then 1 else 3) := by
    obtain ⟨hq, ⟨range, e₀⟩, hloc, rfl, matcher, hcompile, ⟨ha, hb⟩, hac⟩ :=
      hboth top (by cases top <;> simp)
    have htrim : Unicode.trim (moveTo top) = moveTo top := by cases top <;> decide +kernel
    have hfirst : Delimited.first (['/', 'a', '/'] ++ moveTo top) = .ok ('/', ⟨['a'], moveTo top, true⟩) := by
      cases top <;> exact Delimited.first_slash _
    obtain ⟨lines, hlines, -, hgathers, hfst, -⟩ := Reachable.global_gathers
      ((Reachable.new _).performAll hnew) hmode hcalm hq hloc hfirst htrim rfl
      (toOption_eq_some.mp hcompile) (fun _ => hdol ▸ by decide) FileTree.storage .empty
    obtain rfl := Except.ok.inj (htexts.symm.trans hlines)
    obtain ⟨report, e', hrun, hgathered⟩ := hgathers (by simp [Sequence.run, ha])
    refine ⟨report, e', hrun, ?_, ?_⟩
    · rw [hgathered.texts_eq, hfst]
      cases top <;> simp [Sequence.run, ha, hb, hac]
    · rw [hgathered.labels_eq, hlabel]
      cases top <;> simp [Sequence.regrouped, Sequence.gathered, Sequence.doomed, ha, hb, hac] <;> rfl
  obtain ⟨report₁, e₁, htop⟩ := hgathers true
  obtain ⟨report₂, e₂, hend⟩ := hgathers false
  exact ⟨e, e₁, e₂, report₁, report₂, hnew, htop.1, htop.2.1, htop.2.2, hend⟩

end Engine

end LineEditor
