import LineEditor.Proofs.Browsing
import LineEditor.Proofs.Handles
import LineEditor.Proofs.InPlace
import LineEditor.Proofs.ProperRuns

/-!
# Ceilings

Windows and records have no more lines than the limits of the engine say. The lines that a
substitution or a joining makes have no more bytes than the limits say, each of them, at every visit
of a global command: a plan that would store a longer one is refused as a whole.
-/

namespace LineEditor

/-! ## Plans -/

/-- Whatever value the query gives, it is as `P` says. -/
def Query.Gives (q : Query α) (P : α → Prop) : Prop :=
  ∀ r, Leads q r fun answer _ => ∀ a, answer = .ok a → P a

namespace Query

section
variable {q : Query α} {P : α → Prop} {Q : β → Prop}

theorem gives_any (q : Query α) : q.Gives fun _ => True := fun _ _ _ _ _ _ => trivial

theorem Gives.pure {a : α} (h : P a) : Query.Gives (pure a) P :=
  fun _ => leads_pure.mpr fun b hb => by
    cases hb
    exact h

theorem Gives.throw (err : EditError) (P : α → Prop) : Query.Gives (throw err) P :=
  fun _ => leads_throw.mpr fun _ hb => by cases hb

theorem Gives.bind {f : α → Query β} (h : q.Gives P) (hf : ∀ a, P a → (f a).Gives Q) :
    Query.Gives (q >>= f) Q :=
  fun r => (h r).then (fun a r' ha => hf a (ha a rfl) r') fun _ _ _ _ hb => by cases hb

theorem Gives.rest {f : α → Query β} (hf : ∀ a, (f a).Gives Q) : Query.Gives (q >>= f) Q :=
  q.gives_any.bind fun a _ => hf a

theorem Gives.lift {x : Except Breach α} (h : ∀ a, x = .ok a → P a) : Query.Gives (liftM x) P :=
  fun _ => leads_lift.mpr fun a ha b hb => by
    cases hb
    exact h a ha

theorem Yields.gives (h : q.Yields P) {P' : α → Prop} (h' : q.Gives P') :
    q.Yields fun a => P a ∧ P' a := by
  intro r
  refine ((h r).and (h' r)).mono fun answer r' ⟨⟨hstop, hreads⟩, hgives⟩ => ⟨hstop, ?_⟩
  cases answer with
  | ok a => exact ⟨hreads, hgives a rfl⟩
  | error err => exact hreads

end

end Query

theorem Bytes.length_le_of_mem_splitOn {sep : UInt8} {s piece : Bytes} (h : piece ∈ splitOn sep s) :
    piece.length ≤ s.length := by
  have hle : ∀ pieces : List Bytes, ∀ piece ∈ pieces,
      piece.length ≤ (List.intercalate [sep] pieces).length := by
    intro pieces
    induction pieces with
    | nil => exact fun _ hp => by cases hp
    | cons a rest ih =>
      intro piece hp
      cases rest with
      | nil => simp [List.mem_singleton.mp hp]
      | cons b rest =>
        rw [List.intercalate_cons_cons, List.length_append, List.length_append]
        rcases List.mem_cons.mp hp with rfl | hp
        · omega
        · have hrest := ih piece hp
          omega
  have hpiece := hle _ piece h
  rwa [intercalate_splitOn] at hpiece

/-- The lines that an edit stores have no more than `n` bytes each. -/
def Edit.Brief (n : Nat) (change : Edit) : Prop := ∀ line ∈ change.stored, line.length ≤ n

theorem Substitution.apply_length_le {matcher : Matcher} {template : Bytes} {which : Occurrence}
    {limit : Nat} {line new : Bytes}
    (h : apply matcher template which limit line = .ok (.replaced new)) : new.length ≤ limit := by
  unfold apply at h
  obtain ⟨draft, -, h⟩ := bind_eq_ok.mp h
  cases draft with
  | none => cases h
  | some d =>
    dsimp only at h
    split at h
    · cases h
    · obtain ⟨whole, -, h⟩ := bind_eq_ok.mp h
      split at h
      · cases h
      · cases h
        omega

namespace SubstituteRequest

section
variable (r : SubstituteRequest) (limit : Nat)

theorem revise_gives (line : Bytes) : (r.revise limit line).Gives fun new =>
    ∀ pieces, new = some pieces → ∀ piece ∈ pieces, piece.length ≤ limit := by
  have happly : Query.Gives (liftM (Substitution.apply r.matcher r.template r.which limit line))
      fun revision => ∀ new, revision = .replaced new → new.length ≤ limit :=
    .lift fun revision hrun new hnew => Substitution.apply_length_le (hnew ▸ hrun)
  rw [revise_eq]
  refine happly.bind fun revision hrevision => ?_
  cases revision with
  | unchanged => exact .pure fun pieces hp => by cases hp
  | tooLong => exact .throw _ _
  | replaced new =>
    dsimp only
    split
    · refine .pure fun pieces hp piece hmem => ?_
      cases hp
      exact (Bytes.length_le_of_mem_splitOn hmem).trans (hrevision new rfl)
    · exact .throw _ _

theorem reviseAll_gives (lines : List (Nat × Bytes)) : (r.reviseAll limit lines).Gives fun changes =>
    ∀ piece ∈ changes.flatMap Prod.snd, piece.length ≤ limit := by
  induction lines with
  | nil => exact .pure fun piece hp => by cases hp
  | cons line rest ih =>
    unfold reviseAll
    refine (r.revise_gives limit line.2).bind fun new hnew => ih.bind fun changes hchanges => ?_
    cases new with
    | none => exact .pure hchanges
    | some pieces =>
      refine .pure fun piece hp => ?_
      rw [List.flatMap_cons] at hp
      exact (List.mem_append.mp hp).elim (hnew pieces rfl piece) (hchanges piece)

end

end SubstituteRequest

namespace View

section
variable {v : View} {range : LineRange} {n : Nat}

theorem planGoto_gives (line : Nat) (print : Option PrintStyle) :
    (v.planGoto line print).Gives (Plan.Makes (Edit.Brief n)) := by
  unfold planGoto
  cases print with
  | none => exact .pure trivial
  | some style => exact .rest fun _ => .pure trivial

theorem planJoin_gives (spaced : Bool) (tail : List Char) :
    (v.planJoin spaced range tail).Gives (Plan.Makes (Edit.Brief v.limits.lineLength)) := by
  unfold planJoin
  refine .rest fun print => ?_
  split
  · exact planGoto_gives _ print
  · refine .rest fun texts => ?_
    generalize List.intercalate (if spaced then [32] else []) texts = joined
    simp only
    split
    · exact .throw _ _
    · rename_i hfits
      refine .pure fun line hline => ?_
      rw [List.mem_singleton.mp hline]
      omega

theorem planSubstitute_gives (tail : List Char) :
    (v.planSubstitute range tail).Gives (Plan.Makes (Edit.Brief v.limits.lineLength)) := by
  unfold planSubstitute
  refine .rest fun request => .rest fun _ => .rest fun texts => ?_
  refine (request.reviseAll_gives v.limits.lineLength _).bind fun changes hchanges => ?_
  dsimp only
  split
  · exact .throw _ _
  · exact .rest fun extra => .rest fun _ => .pure hchanges

/-- Other commands on lines store none. -/
theorem plan_gives (v : View) (cmd : Option LineCommand) (range : LineRange) (tail : List Char) :
    (v.plan cmd range tail).Gives (Plan.Makes (Edit.Brief v.limits.lineLength)) := by
  have hnone {change : Edit} (h : change.stored = []) : change.Brief v.limits.lineLength :=
    fun line hline => by
      rw [h] at hline
      cases hline
  unfold plan
  cases cmd with
  | none => exact planGoto_gives _ _
  | some c =>
    cases c with
    | print style => exact .rest fun _ => .rest fun _ => .rest fun _ => .rest fun _ => .pure trivial
    | lineNumber => exact .rest fun _ => .pure trivial
    | delete => exact .rest fun _ => .pure (hnone rfl)
    | join spaced => exact planJoin_gives spaced tail
    | move =>
      refine .rest fun d => ?_
      dsimp only
      split
      · exact .throw _ _
      · split
        · exact planGoto_gives _ _
        · exact .pure (hnone rfl)
    | copy => exact .rest fun d => .rest fun _ => .rest fun _ => .pure (hnone rfl)
    | label =>
      dsimp only
      unfold planLabel
      split
      · exact .throw _ _
      · split
        · exact .pure trivial
        · exact .throw _ _
      · exact .throw _ _
    | substitute => exact planSubstitute_gives tail

end

end View

/-! ## Commands on lines -/

/-- The commands on lines, and those that run one on each line of some. -/
def Command.onLines : Command → Bool
  | line _ | global _ => true
  | _ => false

/-- On these terms an edit stores no long lines. -/
def briefTerms : Terms where
  edits limits _ _ change := change.Brief limits.lineLength
  takes _ := False
  typed _ := False
  loaded _ := False
  opens _ := False

namespace Engine

/-- The lines of the current window are lines that it had in the engine `e`, or they are not long. -/
structure Adds (e e' : Engine) : Prop extends e'.Held where
  limits_eq : e'.limits = e.limits
  source : ∀ x ∈ e'.window.lines.handles,
    (x ∈ e.window.lines.handles ∧ e'.pool.text? x = e.pool.text? x) ∨
      ∃ text, e'.pool.text? x = some text ∧ text.length ≤ e.limits.lineLength

section
variable {e e' e'' : Engine}

theorem Held.adds (h : e.Held) : e.Adds e := ⟨h, rfl, fun _ hx => .inl ⟨hx, rfl⟩⟩

theorem Adds.same (h : e.Adds e') (h' : e''.Held) (hlimits : e''.limits = e'.limits)
    (hlines : e''.window.lines.map Entry.content = e'.window.lines.map Entry.content)
    (hpool : ∀ x ∈ e'.window.lines.handles, e''.pool.text? x = e'.pool.text? x) : e.Adds e'' where
  toHeld := h'
  limits_eq := hlimits.trans h.limits_eq
  source x hx := by
    rw [LineMap.handles_of_content hlines] at hx
    rw [hpool x hx]
    exact h.source x hx

theorem Adds.edit (h : e.Adds e') {change : Edit} (hbrief : change.Brief e.limits.lineLength)
    {w : Window} {p : Pool} (hrun : change.perform e'.window e'.pool = .ok (w, p)) :
    e.Adds { e'.setWindow w.noteEdit with pool := p } := by
  have hd := Edit.perform_draws (m := e'.beside) h.accounts hrun
  rw [← w.noteEdit_lines] at hd
  refine ⟨⟨h.vacant, hd.accounts⟩, h.limits_eq, fun x hx => ?_⟩
  rcases hd.source x hx with ⟨hx, hsame⟩ | ⟨-, text, htext, hnew⟩
  · rw [show Pool.text? p x = _ from hsame]
    exact h.source x hx
  · exact .inr ⟨text, hnew, hbrief text htext⟩

theorem lineWork_adds (e : Engine) : LineWork e.Adds briefTerms where
  held h := h.toHeld
  remember h _ _ := h.same ⟨h.vacant, h.accounts⟩ rfl rfl fun _ _ => rfl
  begin h _ _ _ := h.same ⟨h.vacant, h.accounts⟩ rfl rfl fun _ _ => rfl
  untype h := h.same ⟨h.vacant, h.accounts⟩ rfl rfl fun _ _ => rfl
  note h _ hw :=
    have hp := h.toHeld.inPlace_same hw.id_eq (by rw [hw.lines_eq]) hw.flags_eq
    h.same hp.toHeld rfl (congrArg _ hw.lines_eq) fun _ _ => rfl
  mark h l hl := by
    have hcontent := congrArg (List.map Entry.content) hl
    rw [LineMap.content_clearMarks, LineMap.content_clearMarks] at hcontent
    have hp := h.toHeld.inPlace_same (w := { Engine.window _ with lines := l }) rfl hcontent rfl
    exact h.same hp.toHeld rfl hcontent fun _ _ => rfl
  record h _ _ hr :=
    h.same (InPlace.record h.toHeld hr).toHeld rfl rfl fun x hx => hr.keeps.left x (by
      rw [LineMap.map_fst_contents]
      exact hx)
  plan h _ _ hr hz _ tail := by
    refine ((View.plan_yields h.toHeld.readable hr hz tail).gives (View.plan_gives _ _ _ tail)).mono
      fun plan hp => ?_
    exact hp.2
  edit h _ _ hbrief _ _ hrun := h.edit (h.limits_eq ▸ hbrief) hrun

end

end Engine

namespace EditM

section
variable {e : Engine}

theorem runCommand_adds (h : e.Held) {cmd : Option Command} {range : LineRange}
    (hcmd : cmd.all Command.onLines = true) (hall : cmd.all e.window.mode.allows = true)
    (hr : range.Within e.window.dol) (hz : 0 < range.start ∨ cmd.any Command.allowsZero)
    (tail : List Char) :
    Leads (runCommand cmd range tail) e (Engine.Brings fun _ _ e' => e.Adds e') := by
  have hwork := Engine.lineWork_adds e
  unfold runCommand
  cases cmd with
  | none => exact leads_done (runLine_leads hwork h.adds false none hr hz hall tail)
  | some cmd =>
    cases cmd with
    | line c => exact leads_done (runLine_leads hwork h.adds false (some c) hr hz hall tail)
    | global inverted => exact leads_done (maintains_runGlobal hwork inverted range tail e h.adds)
    | _ => cases hcmd

theorem dispatch_adds (h : e.Held) {line : List Char} {q : Request} (hq : e.asks line = some q)
    (hcmd : q.command.all Command.onLines = true) :
    Leads (dispatch line) e (Engine.Brings fun _ _ e' => e.Adds e') := by
  have hbegun (r : Recall) : e.Adds ((e.begun q.command).withRecall r) := by
    rw [Engine.begun_eq]
    exact h.adds.same ⟨h.vacant, h.accounts⟩ rfl rfl fun _ _ => rfl
  refine dispatch_asked hq (fun err r => hbegun r) fun range hrange hall r => ?_
  obtain ⟨hr, hz⟩ := Engine.rangeOf_within h.readable hrange
  have hadds := hbegun r
  rw [Engine.begun_eq] at hadds ⊢
  refine (runCommand_adds hadds.toHeld hcmd hall hr hz q.tail).mono fun answer e₁ hb =>
    hb.mono fun x answer e' hin => ?_
  exact ⟨hin.toHeld, hin.limits_eq, hin.source⟩

end

end EditM

/-! ## Runs -/

namespace Engine

section
variable {I : Engine → Prop} {t : Terms} {e e' : Engine}

theorem Kept.limited (hI : Kept I t) (limits : Limits) : Kept (fun e => I e ∧ e.limits = limits) t where
  held h := hI.held h.1
  remember h r hr := ⟨hI.remember h.1 r hr, h.2⟩
  begin h hb after replace := ⟨hI.begin h.1 hb after replace, h.2⟩
  untype h := ⟨hI.untype h.1, h.2⟩
  note h _ hw := ⟨hI.note h.1 hw, h.2⟩
  mark h _ hl := ⟨hI.mark h.1 hl, h.2⟩
  record h _ _ hr := ⟨hI.record h.1 hr, h.2⟩
  plan h := hI.plan h.1
  edit h _ hfit hallow _ _ hrun := ⟨hI.edit h.1 hfit hallow hrun, h.2⟩
  type h _ hentry _ htext := ⟨hI.type h.1 hentry htext, h.2⟩
  commit h := hI.commit h.1
  read h hb _ _ _ _ hrun hr hflags :=
    ⟨hI.read h.1 hb hrun hr hflags, (hr.confined (hI.held h.1)).limits_eq.trans h.2⟩
  arm h armed := ⟨hI.arm h.1 armed, h.2⟩
  interrupt h := ⟨hI.interrupt h.1, h.2⟩
  save h := ⟨hI.save h.1, h.2⟩
  undo h _ hr hid := ⟨hI.undo h.1 hr hid, h.2⟩
  switch h _ _ hs := ⟨hI.switch h.1 hs, h.2⟩
  start h _ h₁ hn hs := ⟨hI.start h.1 h₁ hn hs, h.2⟩
  move h _ h₁ hn hs := ⟨hI.move h.1 h₁ hn hs, h.2⟩
  close h _ _ _ hs ha hk := ⟨hI.close h.1 hs ha hk, h.2⟩
  plain := hI.plain
  push h _ hopens := ⟨hI.push h.1 hopens, h.2⟩
  replace h _ _ hd _ hopens := ⟨hI.replace h.1 hd hopens, h.2⟩
  pop h _ _ hd _ _ hb := ⟨hI.pop h.1 hd hb, h.2⟩
  receptive h := hI.receptive h.1
  bulk h ht _ _ _ _ hrun hr hflags :=
    ⟨hI.bulk h.1 ht hrun hr hflags, (hr.confined (hI.held h.1)).limits_eq.trans h.2⟩
  listing h ht _ hl _ _ _ hrun hr hflags :=
    ⟨hI.listing h.1 ht hl hrun hr hflags, (hr.confined (hI.held h.1)).limits_eq.trans h.2⟩
  update h := hI.update h.1

theorem limits_performAll {limits : Limits} {calls : List Call}
    (hrun : (Engine.new limits).performAll calls = .ok e) : e.limits = limits := by
  have hkept := (kept_shelved fun _ => none).limited limits
  refine (hkept.performAll (steady_new limits) ⟨shelved_new limits, rfl⟩ (fun c _ => ?_) (fun c _ => ?_)
    (fun c _ _ e _ => rfl) hrun).2
  · exact c.supplies_any (fun _ => trivial) fun _ => trivial
  · exact c.opens_any fun _ => trivial

/-- However an engine came about, its windows and records have no more lines than its limits say.
What a command on lines or a global command adds to the current window is no longer than the limits
say, and so is whatever a plan would have stored on the way. -/
theorem stays_within_limits {limits : Limits} {calls : List Call}
    (hrun : (Engine.new limits).performAll calls = .ok e) :
    (∀ s ∈ e.table.sessions, (∀ w ∈ s.windows, w.dol ≤ limits.lines) ∧
      ∀ r, s.undo.record = some r → r.lines.length ≤ limits.lines) ∧
    (∀ {σ : Type} (storage : Storage σ) line disk answer e' disk' q, e.asks line = some q →
      q.command.all Command.onLines = true →
      e.dispatchOn storage line disk = .ok (answer, e', disk') → ∀ x ∈ e'.window.lines.handles,
        (x ∈ e.window.lines.handles ∧ e'.pool.text? x = e.pool.text? x) ∨
          ∃ text, e'.pool.text? x = some text ∧ text.length ≤ limits.lineLength) ∧
    ∀ (v : View) cmd range tail r change shape print r',
      (v.plan cmd range tail).run.run r = .ok (.ok (.edit change shape print), r') →
      ∀ text ∈ change.stored, text.length ≤ v.limits.lineLength := by
  have hlimits := limits_performAll hrun
  have h := (Reachable.new limits).performAll hrun
  refine ⟨fun s hs => ?_, ?_, ?_⟩
  · rw [← hlimits]
    exact ⟨fun w hw => h.proper.length_window hs hw, fun r hr => h.proper.length_record hs hr⟩
  · intro σ storage line disk answer e' disk' q hq hcmd hline
    rw [← hlimits]
    exact (dispatchOn_brings (EditM.dispatch_adds h.steady.toHeld hq hcmd) hline).source
  · intro v cmd range tail r change shape print r' hplan
    exact v.plan_gives cmd range tail r _ _ hplan _ rfl

/-- Two lines are as many as there may be, and joined they are as long as they may be. -/
theorem stays_within_limits_join : ∃ e e' answer disk' r,
    (Engine.new ⟨1, 2, 4⟩).performAll [.insertBulk 0 [97, 98, 10, 99]] = .ok e ∧
    e.dispatchOn FileTree.storage ['1', ',', '2', 'J'] .empty = .ok (answer, e', disk') ∧
    (e.view.plan (some (.join true)) ⟨1, 2, 2⟩ []).run.run e.remembered =
      .ok (.ok (.edit (.replace 1 2 [[97, 98, 32, 99]]) true none), r) ∧
    e.window.dol = 2 ∧ e.window.dol ≤ 2 ∧ e'.window.lines.handles = [2] ∧ e.pool.text? 2 = none ∧
    (∃ text, e'.pool.text? 2 = some text ∧ text.length ≤ 4) ∧
    ([97, 98, 32, 99] : Bytes).length ≤ e.limits.lineLength := by
  obtain ⟨e, hstart, hs⟩ := (steady_new ⟨1, 2, 4⟩).performAll [.insertBulk 0 [97, 98, 10, 99]]
  obtain ⟨⟨answer, e', disk'⟩, hline, -⟩ :=
    dispatchOn_settles hs FileTree.storage ['1', ',', '2', 'J'] .empty
  have hbefore : ((Engine.new ⟨1, 2, 4⟩).performAll [.insertBulk 0 [97, 98, 10, 99]]).map (fun e =>
      (e.window.dol, e.window.lines.handles, e.pool.text? 2, e.asks ['1', ',', '2', 'J'])) =
      .ok (2, [0, 1], none, some ⟨some (.line (.join true)), .two ⟨.line 1, 0⟩ ⟨.line 2, 0⟩ false, []⟩) := by
    decide +kernel
  have hafter : ((Engine.new ⟨1, 2, 4⟩).performAll [.insertBulk 0 [97, 98, 10, 99]] >>= fun e =>
      (e.dispatchOn FileTree.storage ['1', ',', '2', 'J'] .empty).map fun r =>
        r.2.1.window.lines.handles) = .ok [2] := by decide +kernel
  have hplan : ((Engine.new ⟨1, 2, 4⟩).performAll [.insertBulk 0 [97, 98, 10, 99]] >>= fun e =>
      (e.view.plan (some (.join true)) ⟨1, 2, 2⟩ []).run.run e.remembered) =
      .ok (.ok (.edit (.replace 1 2 [[97, 98, 32, 99]]) true none), (Engine.new ⟨1, 2, 4⟩).remembered) := by
    rfl
  rw [hstart] at hbefore hafter hplan
  have hplan : (e.view.plan (some (.join true)) ⟨1, 2, 2⟩ []).run.run e.remembered = _ := hplan
  obtain ⟨hdol, hrest⟩ := Prod.mk.inj (Except.ok.inj hbefore)
  obtain ⟨hhandles, hrest⟩ := Prod.mk.inj hrest
  obtain ⟨hnew, hasks⟩ := Prod.mk.inj hrest
  have hjoined : (e.dispatchOn FileTree.storage ['1', ',', '2', 'J'] .empty).map (fun r =>
      r.2.1.window.lines.handles) = .ok [2] := hafter
  rw [hline] at hjoined
  have hjoined : e'.window.lines.handles = [2] := Except.ok.inj hjoined
  obtain ⟨hlines, hadded, hplanned⟩ := stays_within_limits hstart
  have hcurrent := (hlines e.session (hs.table_perm.mem_iff.mpr List.mem_cons_self)).1 e.window
    (List.mem_append_right _ (List.mem_singleton_self _))
  refine ⟨e, e', answer, disk', _, hstart, hline, hplan, hdol, hcurrent, hjoined, hnew, ?_, ?_⟩
  · refine (hadded _ _ _ _ _ _ _ hasks rfl hline 2 (by rw [hjoined]; decide)).resolve_left ?_
    rintro ⟨hold, -⟩
    rw [hhandles] at hold
    exact absurd hold (by decide)
  · exact hplanned e.view _ _ _ _ _ _ _ _ hplan _ List.mem_cons_self

end

end Engine

end LineEditor
