import LineEditor.Proofs.Neighbours

/-!
# The session table

The current session stands in its slot, every session has windows and every window a number of its
own, and a record or a text being typed is of a window that can be found by that number. A call that
is refused leaves all sessions and windows where they are.
-/

namespace LineEditor

/-- The error of an answer, if it is one. -/
def refusal : Except EditError α → Option EditError
  | .ok _ => none
  | .error err => some err

def Call.isLine : Call → Bool
  | .line _ _ _ => true
  | _ => false

namespace Engine

/-- How an action ends: the error with which it is refused, if it is, and the engine afterwards. -/
def outcome (e : Engine) (x : EditM α) : Except Breach (Option EditError × Engine) := do
  let r ← e.run x
  return (refusal r.1, r.2)

/-- How a call ends: the error with which it is refused, if it is, and the engine afterwards. -/
def respond (e : Engine) : Call → Except Breach (Option EditError × Engine)
  | .line storage disk text => do
    let r ← e.dispatchOn storage text disk
    return (refusal r.1, r.2.1)
  | .insertBulk place blob => e.outcome (EditM.insertBulk place blob)
  | .insertDirectory place entries => e.outcome (EditM.insertDirectory place entries)
  | .updateLine n value => e.outcome (EditM.updateLine n value)
  | .extractRange start stop => e.outcome (EditM.extractRange start stop)
  | .fetchLine n => e.outcome (EditM.fetchLine n)
  | .pushWindow flags => e.outcome (EditM.pushWindow flags)
  | .replaceWindow flags => e.outcome (EditM.replaceWindow flags)
  | .popWindow => e.outcome EditM.popWindow
  | .switchSession n => e.outcome (EditM.switchSession n)
  | .closeSession => e.outcome EditM.closeSession
  | .moveSession target => e.outcome (EditM.moveSession target)
  | .interrupt => return (none, e.interrupt)

section
variable {e e' : Engine} {err : EditError}

theorem outcome_after (e : Engine) (x : EditM α) : e.after x = Prod.snd <$> e.outcome x := by
  unfold after outcome
  cases e.run x <;> rfl

/-- The engine afterwards is that of the run. -/
theorem respond_perform (e : Engine) (c : Call) : e.perform c = Prod.snd <$> e.respond c := by
  cases c with
  | line storage disk text =>
    show (do return (← e.dispatchOn storage text disk).2.1) = Prod.snd <$> (do
      let r ← e.dispatchOn storage text disk
      return (refusal r.1, r.2.1))
    cases e.dispatchOn storage text disk <;> rfl
  | interrupt => rfl
  | _ => exact outcome_after e _

theorem outcome_refused {x : EditM α} (h : e.outcome x = .ok (some err, e')) :
    e.run x = .ok (.error err, e') := by
  obtain ⟨⟨answer, e₁⟩, hrun, heq⟩ := bind_eq_ok.mp h
  cases answer with
  | ok a => cases heq
  | error err₁ =>
    cases heq
    exact hrun

theorem respond_line_refused {storage : Storage σ} {disk : σ} {text : List Char}
    (h : e.respond (.line storage disk text) = .ok (some err, e')) :
    ∃ disk', e.dispatchOn storage text disk = .ok (.error err, e', disk') := by
  obtain ⟨⟨answer, e₁, disk'⟩, hrun, heq⟩ := bind_eq_ok.mp h
  cases answer with
  | ok report => cases heq
  | error err₁ =>
    cases heq
    exact ⟨disk', hrun⟩

/-! ## Refused calls -/

/-- The same sessions stand in the same slots with the same windows, and no number was given out. Of
all windows only the current one may be different. -/
structure SameTable (e e' : Engine) : Prop where
  slot_eq : e'.slot = e.slot
  others_eq : e'.others = e.others
  below_eq : e'.session.below = e.session.below
  id_eq : e'.window.id = e.window.id
  next_eq : e'.nextWindow = e.nextWindow

theorem SameTable.refl (e : Engine) : e.SameTable e := ⟨rfl, rfl, rfl, rfl, rfl⟩

theorem SameTable.numbers_eq (h : e.SameTable e') (hv : e.others.Vacant e.slot) (n : Nat) :
    (e'.table.get? n).map Session.numbers = (e.table.get? n).map Session.numbers := by
  have hcurrent : e'.session.numbers = e.session.numbers := by
    have hid : e'.session.current.id = e.session.current.id := h.id_eq
    simp only [Session.numbers, Session.windows, h.below_eq, List.map_append, List.map_cons, hid]
  unfold table
  rw [h.slot_eq, h.others_eq]
  by_cases hn : n = e.slot
  · rw [hn, SessionTable.get?_put_self hv.1 hv.2.1, SessionTable.get?_put_self hv.1 hv.2.1]
    exact congrArg some hcurrent
  · rw [SessionTable.get?_put_of_ne _ _ hn, SessionTable.get?_put_of_ne _ _ hn]

theorem Confined.sameTable (h : e.Confined e') : e.SameTable e' :=
  ⟨h.slot_eq, h.others_eq, h.below_eq, h.id_eq, h.next_eq⟩

theorem SameTable.begun {cmd : Option Command} {r : Recall}
    (h : ((e.begun cmd).withRecall r).SameTable e') : e.SameTable e' := by
  rw [begun_eq] at h
  exact ⟨h.slot_eq, h.others_eq, h.below_eq, h.id_eq, h.next_eq⟩

theorem Effect.refused_sameTable {cmd : Option Command} {range : LineRange} {tail : List Char}
    {x : Traffic} (heff : e.Effect cmd range tail x (.error err) e') : e.SameTable e' := by
  cases heff with
  | refused => exact .refl e
  | worked _ hin => exact hin.toConfined.sameTable
  | warned _ _ => exact ⟨rfl, rfl, rfl, rfl, rfl⟩
  | failed => exact ⟨rfl, rfl, rfl, rfl, rfl⟩

/-- A line that is refused has at most worked in the current window. -/
theorem Turns.refused_sameTable {line : List Char} {x : Traffic}
    (hturn : e.Turns line x (.error err) e') : e.SameTable e' := by
  cases hturn with
  | typed _ _ hin => exact hin.toConfined.sameTable
  | unread _ _ => exact .refl e
  | refused r _ => exact .begun (.refl _)
  | ran r _ _ heff => exact .begun heff.refused_sameTable

end

end Engine

namespace EditM

section
variable {e : Engine}

theorem updateLine_outcome (n : Nat) (value : Bytes) :
    Leads (updateLine n value) e (orStays e fun _ _ => True) := by
  unfold updateLine
  rw [leads_get_bind]
  refine leads_reads (e.view.checkLine_reads n) (fun _ _ => ?_) fun _ => rfl
  rw [leads_bind, leads_lift]
  intro more _
  refine leads_reads (e.view.checkCapacity_reads more) (fun _ _ => ?_) fun _ => rfl
  rw [leads_onWindow_bind]
  exact fun w p _ => leads_modify.mpr trivial

end

end EditM

namespace Engine

section
variable {e e' : Engine}

/-- Other calls than lines are done as a whole or not at all. -/
theorem Steady.refused_call (h : e.Steady) {c : Call} {err : EditError} (hc : c.isLine = false)
    (hrun : e.respond c = .ok (some err, e')) : e' = e := by
  have hstays {α : Type} {x : EditM α} {P : α → Engine → Prop}
      (hx : Leads x e (EditM.orStays e P)) (hrun : e.outcome x = .ok (some err, e')) : e' = e :=
    hx _ _ (outcome_refused hrun)
  have hsure {α : Type} {x : EditM α} {P : α → Engine → Prop} (hx : Leads x e (.sure P))
      (hrun : e.outcome x = .ok (some err, e')) : e' = e :=
    (hx _ _ (outcome_refused hrun)).elim
  cases c with
  | line => cases hc
  | insertBulk place blob => exact hstays (EditM.insertBulk_receives h.toHeld place blob) hrun
  | insertDirectory place entries =>
    exact hstays (EditM.insertDirectory_receives h.toHeld place entries) hrun
  | updateLine n value => exact hstays (EditM.updateLine_outcome n value) hrun
  | extractRange start stop =>
    exact ((EditM.extractRange_ends h.toSound start stop).leads _ _ (outcome_refused hrun)).1
  | fetchLine n => exact (EditM.fetchLine_ends h.toSound n).leads _ _ (outcome_refused hrun)
  | pushWindow flags => exact hsure (EditM.pushWindow_outcome e flags) hrun
  | replaceWindow flags => exact hsure (EditM.replaceWindow_outcome h.toHeld flags) hrun
  | popWindow => exact hstays (EditM.popWindow_outcome h.toHeld) hrun
  | switchSession n => exact hstays (EditM.switchSession_outcome e n) hrun
  | closeSession => exact hstays (EditM.closeSession_outcome h.toHeld) hrun
  | moveSession target => exact hstays (EditM.moveSession_outcome e target) hrun
  | interrupt => cases hrun

theorem Steady.refused_sameTable (h : e.Steady) {c : Call} {err : EditError}
    (hrun : e.respond c = .ok (some err, e')) : e.SameTable e' := by
  cases hc : c.isLine with
  | false =>
    rw [h.refused_call hc hrun]
    exact .refl e
  | true =>
    cases c with
    | line storage disk text =>
      obtain ⟨disk', hline⟩ := respond_line_refused hrun
      exact (dispatchOn_turns h hline).refused_sameTable
    | _ => cases hc

/-- Unless a global command stopped half way, the current window is the same but for the patterns that
it remembers. -/
theorem Steady.refused_window (h : e.Steady) {c : Call} {err : EditError}
    (herr : ∀ cause last, err ≠ .partialGlobalFailure cause last)
    (hrun : e.respond c = .ok (some err, e')) :
    e'.window = { e.window with
      lastSearch := e'.window.lastSearch, lastReplacement := e'.window.lastReplacement } := by
  cases hc : c.isLine with
  | false => rw [h.refused_call hc hrun]
  | true =>
    cases c with
    | line storage disk text =>
      obtain ⟨disk', hline⟩ := respond_line_refused hrun
      obtain ⟨-, hcase⟩ := (dispatchOn_settles h storage text disk).of_eq hline
      have hwhole : err.isPartial = false := by
        cases err with
        | partialGlobalFailure cause last => exact absurd rfl (herr cause last)
        | _ => rfl
      rw [hwhole] at hcase
      have hun : e.Unaltered e' := hcase
      conv_lhs => rw [hun.eq]
      rfl
    | _ => cases hc

/-- Whatever calls were made, the current session stands in its slot, every session has windows,
numbers of windows are given out once, a record is of a window of its session, and a text is typed
for the current window. A call that is refused leaves the sessions and their windows as they are: a
line may have worked on the current window, if it stopped half way, and changes of others nothing. -/
theorem Reachable.table_in_order (h : e.Reachable) :
    (1 ≤ e.slot ∧ e.slot ≤ e.table.max ∧ e.table.isActive e.slot = true ∧
      e.table.get? e.slot = some e.session) ∧
    (∀ n s, e.table.get? n = some s → s.windows ≠ [] ∧
      ∀ r, s.undo.record = some r → r.window ∈ s.windows.map Window.id) ∧
    (e.windows.map Window.id).Nodup ∧ (∀ w ∈ e.windows, w.id < e.nextWindow) ∧
    (∀ t, e.entry = some t → t.window = e.window.id) ∧
    ∀ c err e', e.respond c = .ok (some err, e') → e.perform c = .ok e' ∧
      (∀ n, (e'.table.get? n).map Session.numbers = (e.table.get? n).map Session.numbers) ∧
      e.SameTable e' ∧ (c.isLine = false → e' = e) ∧
      ((∀ cause last, err ≠ .partialGlobalFailure cause last) →
        e'.window = { e.window with
          lastSearch := e'.window.lastSearch, lastReplacement := e'.window.lastReplacement }) := by
  have hs := h.steady
  have hget := hs.toHeld.table_get?
  obtain ⟨h₁, hmax⟩ := SessionTable.slot_of_get? hget
  have hactive : e.table.isActive e.slot = true := by
    unfold SessionTable.isActive
    rw [hget]
    rfl
  refine ⟨⟨h₁, hmax, hactive, hget⟩, fun n s hn => ⟨?_, ?_⟩, h.shelved.windows_nodup,
    fun w hw => h.shelved.id_lt hw, fun t ht => (hs.entry t ht).window_eq, fun c err e' hrun => ?_⟩
  · exact List.append_ne_nil_of_right_ne_nil _ (List.cons_ne_nil _ _)
  · exact (h.shelved.table.listed s (SessionTable.mem_sessions.mpr ⟨n, hn⟩)).record_mem
  · have hsame := hs.refused_sameTable hrun
    refine ⟨?_, hsame.numbers_eq hs.vacant, hsame, fun hc => hs.refused_call hc hrun,
      fun herr => hs.refused_window herr hrun⟩
    rw [respond_perform, hrun]
    rfl

/-- A second session has two windows when text is typed; it cannot be moved to the slot of the
first. -/
theorem table_in_order_second_session : ∃ e e',
    (Engine.new ⟨2, 10, 100⟩).performAll [.line FileTree.storage .empty ['e', '2'],
      .pushWindow .none, .line FileTree.storage .empty ['a']] = .ok e ∧
    e.respond (.moveSession (some 1)) = .ok (some (.sessionActive 1), e') ∧
    e.slot = 2 ∧ e.windows.map Window.id = [1, 2, 3] ∧ (e.windows.map Window.id).Nodup ∧
    (∃ t, e.entry = some t ∧ t.window = e.window.id) ∧ e' = e := by
  obtain ⟨e, hstart, -⟩ := (steady_new ⟨2, 10, 100⟩).performAll
    [.line FileTree.storage .empty ['e', '2'], .pushWindow .none, .line FileTree.storage .empty ['a']]
  have hvalues : ((Engine.new ⟨2, 10, 100⟩).performAll [.line FileTree.storage .empty ['e', '2'],
      .pushWindow .none, .line FileTree.storage .empty ['a']] >>= fun e =>
        (e.respond (.moveSession (some 1))).map fun r =>
          (e.slot, e.windows.map Window.id, e.entry.isSome, r.1)) =
      .ok (2, [1, 2, 3], true, some (.sessionActive 1)) := by decide +kernel
  rw [hstart] at hvalues
  have hresult : (e.respond (.moveSession (some 1))).map (fun r =>
      (e.slot, e.windows.map Window.id, e.entry.isSome, r.1)) =
      .ok (2, [1, 2, 3], true, some (.sessionActive 1)) := hvalues
  obtain ⟨⟨err, e'⟩, hrun⟩ : ∃ r, e.respond (.moveSession (some 1)) = .ok r := by
    cases hr : e.respond (.moveSession (some 1)) with
    | ok r => exact ⟨r, rfl⟩
    | error b =>
      rw [hr] at hresult
      cases hresult
  rw [hrun] at hresult
  obtain ⟨hslot, hrest⟩ := Prod.mk.inj (Except.ok.inj hresult)
  obtain ⟨hnumbers, hrest⟩ := Prod.mk.inj hrest
  obtain ⟨hentry, rfl⟩ := Prod.mk.inj hrest
  obtain ⟨-, -, hnodup, -, htyped, hrefused⟩ :=
    Reachable.table_in_order ((Reachable.new _).performAll hstart)
  obtain ⟨t, ht⟩ := Option.isSome_iff_exists.mp hentry
  exact ⟨e, e', hstart, hrun, hslot, hnumbers, hnodup, ⟨t, ht, htyped t ht⟩,
    (hrefused _ _ _ hrun).2.2.2.1 rfl⟩

end

end Engine

end LineEditor
