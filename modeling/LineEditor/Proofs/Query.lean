import LineEditor.Proofs.Readers
import LineEditor.Proofs.Refusals
import LineEditor.Proofs.Rows

/-!
# Looking around

A query of a window whose lines are stored meets no breach, raises no request to stop, and yields
what the command relies on: ranges and destinations lie in the window, and the edit of a plan fits
it.
-/

namespace LineEditor

/-- The value of a query satisfies `P`; an error is none of a command that stopped half way. -/
def Answers (answer : Except EditError α) (P : α → Prop) : Prop :=
  match answer with
  | .ok a => P a
  | .error err => err.isPartial = false

theorem Answers.mono {answer : Except EditError α} {P Q : α → Prop} (h : Answers answer P)
    (hpq : ∀ a, P a → Q a) : Answers answer Q := by
  cases answer with
  | ok a => exact hpq a h
  | error err => exact h

theorem Reads.answers {x : Except EditError α} {P : α → Prop} (h : Reads x P) : Answers x P := by
  cases x with
  | ok a => exact h
  | error err => exact EditError.isPartial_of_isPlain h

namespace Query

/-- The query ends; its value satisfies `P`, and the user has not been taken to ask for a stop. -/
def Yields (q : Query α) (P : α → Prop) : Prop :=
  ∀ r, Ends q r fun answer r' => (r'.interrupted = true → r.interrupted = true) ∧ Answers answer P

namespace Yields

protected theorem pure {a : α} {P : α → Prop} (h : P a) : Yields (pure a) P :=
  fun _ => ends_pure.mpr ⟨id, h⟩

protected theorem throw {err : EditError} {P : α → Prop} (h : err.isPartial = false) :
    Yields (throw err) P :=
  fun _ => ends_throw.mpr ⟨id, h⟩

protected theorem mono {q : Query α} {P Q : α → Prop} (h : Yields q P) (hpq : ∀ a, P a → Q a) : Yields q Q :=
  fun r => (h r).mono fun _ _ ha => ⟨ha.1, ha.2.mono hpq⟩

protected theorem bind {q : Query α} {f : α → Query β} {P : α → Prop} {Q : β → Prop} (h : Yields q P)
    (hf : ∀ a, P a → Yields (f a) Q) : Yields (q >>= f) Q := by
  intro r
  refine (h r).then (fun a r' ha => ?_) fun err r' ha => ha
  exact (hf a ha.2 r').mono fun _ _ hb => ⟨ha.1 ∘ hb.1, hb.2⟩

protected theorem liftExcept {x : Except EditError α} {P : α → Prop} (h : Reads x P) :
    Yields (liftExcept x) P :=
  fun _ => ends_liftExcept.mpr ⟨id, h.answers⟩

protected theorem lift {y : Except Breach α} {P : α → Prop} (h : Succeeds y P) : Yields (liftM y) P :=
  fun _ => ends_lift.mpr (h.mono fun _ ha => ⟨id, ha⟩)

protected theorem difference {a b : Nat} (h : b ≤ a) :
    Yields (liftM (LineEditor.difference a b)) fun n => n = a - b := by
  refine .lift ?_
  rw [difference_of_le h]
  exact Succeeds.ok_iff.mpr rfl

protected theorem get : Yields get fun _ => True := fun _ => ends_get.mpr ⟨id, trivial⟩

protected theorem modify {f : Recall → Recall} (h : ∀ r, (f r).interrupted = r.interrupted) :
    Yields (modify f) fun _ => True :=
  fun r => ends_modify.mpr ⟨fun hr => h r ▸ hr, trivial⟩

end Yields

/-- A query goes no further if the user has asked for it to stop. -/
theorem ends_checkInterrupt_bind {f : Unit → Query α} {r : Recall} {post : Post Recall α} :
    Ends (checkInterrupt >>= f) r post ↔
      if r.interrupted then post (.error .interrupted) { r with interrupted := false }
      else Ends (f ()) r post := by
  unfold checkInterrupt
  rw [bind_assoc, ends_get_bind]
  split
  · rw [bind_assoc, ends_modify_bind, ends_bind]
    exact ends_throw
  · exact Iff.rfl

theorem checkInterrupt_yields : Yields checkInterrupt fun _ => True := by
  intro r
  rw [← bind_pure checkInterrupt, ends_checkInterrupt_bind]
  split
  · simp [EditError.isPartial, Answers]
  · simp [Answers]

theorem ends_resolve_bind {body source : List Char} {f : List Char → Query α} {r : Recall}
    {post : Post Recall α} (hsource : resolveSearch r.search body = .ok source) :
    Ends (resolve body >>= f) r post ↔ Ends (f source) r post := by
  unfold resolve
  rw [bind_assoc, ends_get_bind, ends_bind, ends_liftExcept, hsource, Post.after_ok]

theorem ends_remember_bind {source : List Char} {f : Unit → Query α} {r : Recall}
    {post : Post Recall α} : Ends (remember source >>= f) r post ↔
      Ends (f ()) { r with search := some source } post :=
  ends_modify_bind

theorem resolve_yields (body : List Char) : Yields (resolve body) fun _ => True := by
  unfold resolve
  exact Yields.get.bind fun r _ => .liftExcept (resolveSearch_reads _ _)

theorem remember_yields (source : List Char) : Yields (remember source) fun _ => True :=
  .modify fun _ => rfl

end Query

theorem succeeds_mapM {f : α → Except Breach β} {l : List α}
    (h : ∀ x ∈ l, Succeeds (f x) fun _ => True) : Succeeds (l.mapM f) fun _ => True := by
  induction l with
  | nil => simp
  | cons x l ih =>
    obtain ⟨hx, hl⟩ := List.forall_mem_cons.mp h
    rw [List.mapM_cons]
    simp only [Succeeds.bind_iff, Succeeds.pure_iff]
    exact hx.mono fun _ _ => ih hl

namespace View

/-- Each entry of the window has a stored line. -/
def Readable (v : View) : Prop := ∀ x ∈ v.window.lines, Succeeds (v.pool.get x.handle) fun _ => True

section
variable {v : View}

/-- The texts read are those of the rows. -/
theorem Readable.texts (hv : v.Readable) (start stop : Nat) :
    v.window.texts v.pool start stop =
      .ok ((v.pool.rows (v.window.lines.removed (start - 1) (stop + 1 - start))).map Row.text) := by
  unfold Window.texts Pool.rows
  rw [List.map_map]
  refine mapM_ok fun x hx => ?_
  obtain ⟨text, hget, -⟩ := hv x (v.window.lines.removed_subset _ _ hx)
  rw [hget, Function.comp_apply, Pool.row, Pool.text?_of_get hget]
  rfl

theorem Readable.showEntry (hv : v.Readable) {x : Entry} (hx : x ∈ v.window.lines) :
    Succeeds (v.window.showEntry v.pool x) fun _ => True := by
  unfold Window.showEntry
  simp only [Markup.strip_eq, Succeeds.bind_iff, Succeeds.ok_iff, Succeeds.pure_iff]
  exact hv x hx

theorem Readable.shownLines (hv : v.Readable) (start stop : Nat) :
    Succeeds (v.window.shownLines v.pool start stop) fun _ => True := by
  refine (succeeds_mapM fun y hy => ?_).mono fun _ _ => trivial
  simp only [Succeeds.bind_iff, Succeeds.pure_iff]
  exact hv.showEntry (v.window.lines.removed_subset _ _ (List.fst_mem_of_mem_zipIdx hy))

theorem entry?_mem {w : Window} {n : Nat} {x : Entry} (h : w.entry? n = some x) : x ∈ w.lines := by
  cases n with
  | zero => cases h
  | succ i => exact List.mem_of_getElem? h

theorem Readable.display? (hv : v.Readable) (n : Nat) :
    Succeeds (v.window.display? v.pool n) fun _ => True := by
  unfold Window.display?
  cases hx : v.window.entry? n with
  | none => simp
  | some x =>
    simp only [Succeeds.bind_iff, Succeeds.pure_iff]
    exact hv.showEntry (entry?_mem hx)

theorem Readable.render (hv : v.Readable) (n : Nat) (style : PrintStyle) :
    Succeeds (v.render n style) fun _ => True := by
  unfold View.render
  simp only [Succeeds.bind_iff]
  refine (hv.display? n).mono fun shown _ => ?_
  split <;> simp

theorem Readable.text? (hv : v.Readable) (n : Nat) :
    Succeeds (v.window.text? v.pool n) fun _ => True := by
  unfold Window.text?
  cases hx : v.window.entry? n with
  | none => simp
  | some x =>
    simp only [Succeeds.bind_iff, Succeeds.pure_iff]
    exact hv x (entry?_mem hx)

theorem Readable.blob (hv : v.Readable) (start stop : Nat) :
    Succeeds (v.blob start stop) fun _ => True := by
  unfold View.blob
  simp only
  split
  · simp
  · rw [hv.texts start stop]
    exact ⟨_, rfl, trivial⟩

/-! ## Addresses -/

/-- The number of the line met after line `n`. -/
def neighbour (dol : Nat) (forward : Bool) (n : Nat) : Nat :=
  if forward then if dol ≤ n then 1 else n + 1
  else if n ≤ 1 then dol else n - 1

theorem beyond_eq (dol : Nat) (forward : Bool) (n : Nat) :
    beyond dol forward n = .ok (neighbour dol forward n) := by
  unfold beyond neighbour
  split
  · rfl
  · split
    · rfl
    · exact difference_of_le (by omega)

theorem searchFrom_yields (hv : v.Readable) (dot : Nat) (forward : Bool) (matcher : Matcher)
    (count n : Nat) : Query.Yields (v.searchFrom dot forward matcher count n) fun _ => True := by
  induction count generalizing n with
  | zero => exact .throw rfl
  | succ count ih =>
    unfold searchFrom
    refine Query.checkInterrupt_yields.bind fun _ _ => ?_
    refine (Query.Yields.lift (P := fun _ => True) ⟨_, beyond_eq _ _ n, trivial⟩).bind fun n _ => ?_
    split
    · exact .throw rfl
    · refine (Query.Yields.lift (hv.display? n)).bind fun shown _ => ?_
      split
      · split
        · exact .pure trivial
        · exact ih n
      · exact ih n

theorem search_yields (hv : v.Readable) (dot : Nat) (forward : Bool) (body : List Char) :
    Query.Yields (v.search dot forward body) fun _ => True := by
  unfold search
  refine (Query.resolve_yields body).bind fun source _ => ?_
  refine (Query.Yields.liftExcept (v.window.compile_reads source false)).bind fun matcher _ => ?_
  exact (Query.remember_yields source).bind fun _ _ => searchFrom_yields hv dot forward matcher _ _

theorem base_yields (hv : v.Readable) (dot : Nat) (b : Base) :
    Query.Yields (v.base dot b) fun _ => True := by
  unfold base
  split
  · exact .pure trivial
  · exact .pure trivial
  · exact .pure trivial
  · split
    · exact .pure trivial
    · exact .throw rfl
  · exact search_yields hv dot true _
  · exact search_yields hv dot false _

theorem address_yields (hv : v.Readable) (dot : Nat) (a : Address) :
    Query.Yields (v.address dot a) fun n => n ≤ v.window.dol := by
  unfold address
  refine (base_yields hv dot a.base).bind fun n _ => ?_
  simp only
  split
  · exact .throw rfl
  · split
    · exact .throw rfl
    · exact .pure (Nat.le_of_not_lt ‹_›)

theorem ordered_yields (start given : Nat) {stop size : Nat} (hs : stop ≤ size) :
    Query.Yields (ordered start stop given) fun o => ∀ r, o = some r → r.Within size := by
  unfold ordered
  split
  · exact .throw rfl
  · refine .pure fun r hr => ?_
    cases hr
    exact ⟨Nat.le_of_not_lt ‹_›, hs⟩

theorem range_yields (hv : v.Readable) (expr : RangeExpr) :
    Query.Yields (v.range expr) fun o => ∀ r, o = some r → r.Within v.window.dol := by
  cases expr with
  | default => exact .pure fun r hr => by cases hr
  | whole => exact ordered_yields _ _ (Nat.le_refl _)
  | dotToEnd => exact ordered_yields _ _ (Nat.le_refl _)
  | one a => exact (address_yields hv _ a).bind fun n hn => ordered_yields n 1 hn
  | two first second fromFirst =>
    exact (address_yields hv _ first).bind fun start _ =>
      (address_yields hv _ second).bind fun stop hstop => ordered_yields start 2 hstop

/-- The range of a command lies in the window, and starts at a line unless the command has a use for
the place before the first. -/
theorem locate_yields (hv : v.Readable) (inGlobal : Bool) (cmd : Option Command) (expr : RangeExpr) :
    Query.Yields (v.locate inGlobal cmd expr) fun r =>
      r.Within v.window.dol ∧ (0 < r.start ∨ cmd.any Command.allowsZero) := by
  unfold locate
  refine (range_yields hv expr).bind fun given hg => ?_
  refine (Query.Yields.liftExcept (effectiveRange_reads inGlobal cmd given)).bind fun r hr => ?_
  refine (Query.Yields.liftExcept (checkZero_reads cmd r.start)).bind fun _ hz => ?_
  exact .pure ⟨hr hg, hz⟩

end

end View

end LineEditor
