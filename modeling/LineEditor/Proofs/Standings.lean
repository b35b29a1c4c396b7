import LineEditor.Proofs.BinaryWindows

/-!
# What windows tell of undo

A window is flagged when it is recorded, and nothing takes the flag away again. The one record of a
session goes from window to window. What each window tells is set beside what the record is of: the two
agree except in a window that was opened with the flag, and in one whose record was made over to the
window above it.
-/

namespace LineEditor

/-- Whether a window is flagged as having something to undo, and whether the record of its session is
of it. -/
structure Standing where
  window : Nat
  flagged : Bool
  held : Bool
  deriving Repr, DecidableEq

def Session.standings (s : Session) : List Standing :=
  s.windows.map fun w => ⟨w.id, w.flags.hasUndo, s.undo.holds w.id⟩

/-- Whether the call opens a window with the flag. -/
def Call.flags : Call → Bool
  | .pushWindow flags | .replaceWindow flags => flags.hasUndo
  | _ => false

namespace Engine

def standings (e : Engine) : List Standing := e.table.sessions.flatMap Session.standings

/-- The record was of the window with the number `n`, and then of the current one above it. -/
def Overtakes (e e' : Engine) (n : Nat) : Prop :=
  e.session.undo.holds n = true ∧ n ≠ e.window.id ∧ e'.session.undo.holds e.window.id = true

/-- Every window has the standing that it had, or one where flag and record agree. -/
def Upholds (e e' : Engine) : Prop := ∀ x ∈ e'.standings, x ∈ e.standings ∨ x.flagged = x.held

/-- Flag and record agree, or they stand as they did, or the record was made over. -/
def Honours (e e' : Engine) : Prop := ∀ x ∈ e'.standings,
  x ∈ e.standings ∨ x.flagged = x.held ∨ (x.held = false ∧ e.Overtakes e' x.window)

/-- On the way along the calls, the window with the number `n` is opened with the flag, or its record
is made over to the window above it. -/
inductive Strays (n : Nat) : Engine → List Call → Prop
  | opened {e c calls} : c.flags = true → e.nextWindow = n → Strays n e (c :: calls)
  | overtaken {e e' c calls} : e.perform c = .ok e' → e.Overtakes e' n → Strays n e (c :: calls)
  | later {e e' c calls} : e.perform c = .ok e' → Strays n e' calls → Strays n e (c :: calls)

section
variable {e e' e'' : Engine}

/-! ## Standings -/

theorem Held.mem_standings (h : e.Held) {x : Standing} : x ∈ e.standings ↔
    x ∈ e.session.standings ∨ x ∈ e.others.sessions.flatMap Session.standings := by
  unfold standings
  rw [(h.table_perm.flatMap_right _).mem_iff, List.flatMap_cons, List.mem_append]

theorem mem_session_standings {x : Standing} : x ∈ e.session.standings ↔
    x = ⟨e.window.id, e.window.flags.hasUndo, e.session.undo.holds e.window.id⟩ ∨
      ∃ w ∈ e.session.below, x = ⟨w.id, w.flags.hasUndo, e.session.undo.holds w.id⟩ := by
  unfold Session.standings
  rw [List.mem_map]
  constructor
  · rintro ⟨w, hw, rfl⟩
    rcases mem_session_windows.mp hw with hw | rfl
    · exact .inr ⟨w, hw, rfl⟩
    · exact .inl rfl
  · rintro (rfl | ⟨w, hw, rfl⟩)
    · exact ⟨e.window, e.window_mem_session, rfl⟩
    · exact ⟨w, below_mem_session hw, rfl⟩

theorem Upholds.refl (e : Engine) : e.Upholds e := fun _ hx => .inl hx

theorem Upholds.trans (h : e.Upholds e') (h' : e'.Upholds e'') : e.Upholds e'' := fun x hx =>
  (h' x hx).elim (h x) .inr

theorem Upholds.honours (h : e.Upholds e') : e.Honours e' := fun x hx => (h x hx).imp_right .inl

theorem Upholds.then_honours (h : e.Upholds e') (hid : e'.window.id = e.window.id)
    (hundo : e'.session.undo = e.session.undo) (h' : e'.Honours e'') : e.Honours e'' := by
  intro x hx
  rcases h' x hx with hx | hx | ⟨hheld, hholds, hne, hcurrent⟩
  · exact (h x hx).imp_right .inl
  · exact .inr (.inl hx)
  · refine .inr (.inr ⟨hheld, ?_, ?_, ?_⟩)
    · rwa [hundo] at hholds
    · rwa [hid] at hne
    · rwa [hid] at hcurrent

theorem upholds_of_table (h : e'.table = e.table) : e.Upholds e' := by
  intro x hx
  unfold standings at hx
  rw [h] at hx
  exact .inl hx

theorem upholds_of_session (h : e.Held) (h' : e'.Held) (hothers : e'.others = e.others)
    (hsession : ∀ x ∈ e'.session.standings, x ∈ e.session.standings ∨ x.flagged = x.held) :
    e.Upholds e' := by
  intro x hx
  rw [h'.mem_standings, hothers] at hx
  rcases hx with hx | hx
  · exact (hsession x hx).imp_left fun hx => h.mem_standings.mpr (.inl hx)
  · exact .inl (h.mem_standings.mpr (.inr hx))

/-- Whatever else was done to the current window, its flag is the same, and the record is of the same
window. -/
theorem upholds_of_window (h : e.Held) (h' : e'.Held) (hothers : e'.others = e.others)
    (hbelow : e'.session.below = e.session.below) (hid : e'.window.id = e.window.id)
    (hflag : e'.window.flags.hasUndo = e.window.flags.hasUndo)
    (hholds : ∀ n, e'.session.undo.holds n = e.session.undo.holds n) : e.Upholds e' := by
  refine upholds_of_session h h' hothers fun x hx => .inl ?_
  rw [mem_session_standings, hbelow, hid, hflag] at hx
  simp only [hholds] at hx
  exact mem_session_standings.mpr hx

theorem upholds_undone (h : e.Held) {r : UndoRecord} (hr : e.session.undo.record = some r)
    (hid : r.window = e.window.id) : e.Upholds (e.undone r) := by
  refine upholds_of_window h (h.confined_undone hr).toHeld rfl rfl rfl rfl fun n => ?_
  unfold UndoSlot.holds
  rw [hr]
  show (e.window.id == n) = (r.window == n)
  rw [hid]

theorem upholds_closed {n : Nat} {s : Session} (p : Pool) (h : e.Held) (hs : e.others.get? n = some s) :
    e.Upholds (e.closed n s p) := by
  intro x hx
  unfold standings at hx
  rw [table_closed p hs] at hx
  exact .inl (h.mem_standings.mpr (.inr hx))

theorem upholds_started {n : Nat} (h : e.Held) (h₁ : 1 ≤ n) (hn : n ≤ e.table.max)
    (hs : e.table.get? n = none) :
    e.Upholds ((e.newWindow .none).2.makeCurrent n (.ofWindow (e.newWindow .none).1)) := by
  intro x hx
  rw [(h.switch_new h₁ hn hs .none).mem_standings] at hx
  rcases hx with hx | hx
  · obtain rfl := List.mem_singleton.mp hx
    exact .inr rfl
  · change x ∈ (e.table.put n none).sessions.flatMap Session.standings at hx
    rw [SessionTable.put_self hs] at hx
    exact .inl hx

/-- Numbers are given out once, so no record is of a window that is yet to come. -/
theorem Shelved.holds_next (h : e.Shelved fun _ => none) :
    e.session.undo.holds e.nextWindow = false := by
  unfold UndoSlot.holds
  cases hr : e.session.undo.record with
  | none => rfl
  | some r =>
    obtain ⟨w, hw, hid⟩ := List.mem_map.mp (h.listed.record_mem r hr)
    have hlt := h.id_lt (h.toHeld.mem_windows_session hw)
    rw [hid] at hlt
    exact beq_false_of_ne (Nat.ne_of_lt hlt)

theorem standings_pushed (h : e.Shelved fun _ => none) (flags : WindowFlags) {x : Standing}
    (hx : x ∈ (e.pushed flags).standings) :
    x ∈ e.standings ∨ x = ⟨e.nextWindow, flags.hasUndo, false⟩ := by
  rw [(h.push flags).toHeld.mem_standings] at hx
  rcases hx with hx | hx
  · rcases mem_session_standings.mp hx with rfl | ⟨w, hw, rfl⟩
    · refine .inr ?_
      show (⟨_, _, e.session.undo.holds e.nextWindow⟩ : Standing) = _
      rw [h.holds_next]
      rfl
    · refine .inl (h.toHeld.mem_standings.mpr (.inl (mem_session_standings.mpr ?_)))
      rcases List.mem_cons.mp hw with rfl | hw
      · exact .inl rfl
      · exact .inr ⟨w, hw, rfl⟩
  · exact .inl (h.toHeld.mem_standings.mpr (.inr hx))

section
variable {undo : UndoSlot} {p : Pool}

/-- The windows beneath keep their standing when the current one goes. -/
theorem Shelved.standing_beneath (h : e.Shelved fun _ => none)
    (hholds : ∀ n, n ≠ e.window.id → undo.holds n = e.session.undo.holds n) {w : Window}
    (hw : w ∈ e.session.below) : ⟨w.id, w.flags.hasUndo, undo.holds w.id⟩ ∈ e.standings := by
  rw [hholds _ (h.id_ne (.inl hw))]
  exact h.toHeld.mem_standings.mpr (.inl (mem_session_standings.mpr (.inr ⟨w, hw, rfl⟩)))

theorem standings_replaced (h : e.Shelved fun _ => none) (hd : e.Dropping undo p)
    (hholds : ∀ n, n ≠ e.window.id → undo.holds n = e.session.undo.holds n) (flags : WindowFlags)
    {x : Standing} (hx : x ∈ (e.replaced undo p flags).standings) :
    x ∈ e.standings ∨ x = ⟨e.nextWindow, flags.hasUndo, false⟩ := by
  rw [(h.replace hd flags).toHeld.mem_standings] at hx
  rcases hx with hx | hx
  · rcases mem_session_standings.mp hx with rfl | ⟨w, hw, rfl⟩
    · refine .inr ?_
      have hnew : e.nextWindow ≠ e.window.id :=
        Nat.ne_of_gt (h.id_lt (h.toHeld.mem_windows_session e.window_mem_session))
      show (⟨_, _, undo.holds e.nextWindow⟩ : Standing) = _
      rw [hholds _ hnew, h.holds_next]
      rfl
    · exact .inl (h.standing_beneath hholds hw)
  · exact .inl (h.toHeld.mem_standings.mpr (.inr hx))

theorem upholds_popped (h : e.Shelved fun _ => none) (hd : e.Dropping undo p)
    (hholds : ∀ n, n ≠ e.window.id → undo.holds n = e.session.undo.holds n) {w : Window}
    {rest : List Window} (hb : e.session.below = w :: rest) : e.Upholds (e.popped undo p w rest) := by
  intro x hx
  rw [(h.pop hd hb).toHeld.mem_standings] at hx
  rcases hx with hx | hx
  · refine .inl ?_
    rcases mem_session_standings.mp hx with rfl | ⟨v, hv, rfl⟩
    · exact h.standing_beneath hholds (hb ▸ List.mem_cons_self)
    · exact h.standing_beneath hholds (hb ▸ List.mem_cons_of_mem _ hv)
  · exact .inl (h.toHeld.mem_standings.mpr (.inr hx))

end

/-! ## Work in place -/

/-- The work is done in place, and in its course flags and records stand as they may. -/
structure Honouring (e e' : Engine) : Prop extends e.InPlace e' where
  holds : ∀ n, e'.session.undo.holds n = true → n = e.window.id ∨ e.session.undo.holds n = true
  honours : e.Honours e'

theorem Honouring.refl (h : e.Held) : e.Honouring e :=
  ⟨.refl h, fun _ hn => .inr hn, (Upholds.refl e).honours⟩

/-- Flag and record of the current window are as they were. -/
theorem Honouring.retained (h : e.Honouring e') (hin : e.InPlace e'')
    (hflag : e''.window.flags.hasUndo = e'.window.flags.hasUndo)
    (hundo : e''.session.undo = e'.session.undo) : e.Honouring e'' := by
  have hupholds : e'.Upholds e'' := upholds_of_window h.toHeld hin.toHeld
    (hin.others_eq.trans h.others_eq.symm) (hin.below_eq.trans h.below_eq.symm)
    (hin.id_eq.trans h.id_eq.symm) hflag fun n => by rw [hundo]
  refine ⟨hin, fun n hn => h.holds n (hundo ▸ hn), fun x hx => ?_⟩
  rcases hupholds x hx with hx | hx
  · rcases h.honours x hx with hx | hx | ⟨hheld, hover⟩
    · exact .inl hx
    · exact .inr (.inl hx)
    · refine .inr (.inr ⟨hheld, hover.1, hover.2.1, ?_⟩)
      rw [hundo]
      exact hover.2.2
  · exact .inr (.inl hx)

theorem Recording.holds_eq {undo : UndoSlot} {p : Pool} (hr : e.Recording undo p) (n : Nat) :
    undo.holds n = (e.window.id == n) := by
  obtain ⟨lines, hrec, -⟩ := hr.record_eq
  unfold UndoSlot.holds
  rw [hrec]
  rfl

/-- A window that is recorded is flagged; if one beneath it was, the record is made over. -/
theorem Honouring.record (hs : e.Shelved fun _ => none) (h : e.Honouring e') {undo : UndoSlot} {p : Pool}
    (hr : e'.Recording undo p) : e.Honouring (e'.recorded undo p) := by
  have hin := h.toInPlace.trans (.record h.toHeld hr)
  have hcurrent : undo.holds e.window.id = true := by
    rw [hr.holds_eq, h.id_eq]
    exact beq_self_eq_true _
  refine ⟨hin, fun n hn => .inl ?_, fun x hx => ?_⟩
  · change undo.holds n = true at hn
    rw [hr.holds_eq, beq_iff_eq, h.id_eq] at hn
    exact hn.symm
  · -- the standings of the other windows were there, but for the record
    have hold {y : Standing} (hy : y ∈ e'.standings) :
        y ∈ e.standings ∨ y.flagged = y.held ∨
          (y.held = false ∧ e.Overtakes (e'.recorded undo p) y.window) := by
      rcases h.honours y hy with hy | hy | ⟨hheld, hover⟩
      · exact .inl hy
      · exact .inr (.inl hy)
      · exact .inr (.inr ⟨hheld, hover.1, hover.2.1, hcurrent⟩)
    rw [hin.toHeld.mem_standings] at hx
    rcases hx with hx | hx
    · rcases mem_session_standings.mp hx with rfl | ⟨w, hw, rfl⟩
      · refine .inr (.inl ?_)
        show true = undo.holds e'.window.id
        rw [hr.holds_eq, beq_self_eq_true]
      · have hne : w.id ≠ e.window.id := hs.id_ne (.inl (h.below_eq ▸ hw))
        have hlost : undo.holds w.id = false := by
          rw [hr.holds_eq, h.id_eq]
          exact beq_false_of_ne hne.symm
        show (⟨w.id, w.flags.hasUndo, undo.holds w.id⟩ : Standing) ∈ e.standings ∨
          w.flags.hasUndo = undo.holds w.id ∨ (undo.holds w.id = false ∧ _)
        rw [hlost]
        cases hheld : e'.session.undo.holds w.id with
        | true =>
          exact .inr (.inr ⟨rfl, (h.holds _ hheld).resolve_left hne, hne, hcurrent⟩)
        | false =>
          refine hold (h.toHeld.mem_standings.mpr (.inl (mem_session_standings.mpr (.inr ⟨w, hw, ?_⟩))))
          rw [hheld]
    · exact hold (h.toHeld.mem_standings.mpr (.inr hx))

theorem sustained_honouring (hs : e.Shelved fun _ => none) : Sustained e.Honouring freeTerms where
  held h := h.toHeld
  remember h r hr := h.retained ((sustained_inPlace e).remember h.toInPlace r hr) rfl rfl
  begin h hmode after replace :=
    h.retained ((sustained_inPlace e).begin h.toInPlace hmode after replace) rfl rfl
  untype h := h.retained ((sustained_inPlace e).untype h.toInPlace) rfl rfl
  note h _ hw := h.retained ((sustained_inPlace e).note h.toInPlace hw) (congrArg _ hw.flags_eq) rfl
  mark h _ hl := h.retained ((sustained_inPlace e).mark h.toInPlace hl) rfl rfl
  record h _ _ hr := h.record hs hr
  plan h _ _ hr hz hall tail := (sustained_inPlace e).plan h.toInPlace hr hz hall tail
  edit h _ hfit hallow w _ hrun := by
    refine h.retained ((sustained_inPlace e).edit h.toInPlace hfit hallow hrun) ?_ rfl
    have hsame := congrArg WindowFlags.hasUndo (Edit.perform_sameFlags hrun)
    show w.noteEdit.flags.hasUndo = _
    rw [w.noteEdit_flags]
    exact hsame
  type h _ hentry _ htext :=
    h.retained ((sustained_inPlace e).type h.toInPlace hentry htext) rfl rfl
  commit _ _ _ _ _ _ _ _ := trivial
  read h hmode e' _ _ _ hrun hr hflags := by
    refine h.retained ((sustained_inPlace e).read h.toInPlace hmode hrun hr hflags) ?_ ?_
    · show e'.window.noteEdit.flags.hasUndo = _
      rw [e'.window.noteEdit_flags, hflags]
      rfl
    · rw [hr.eq]
      rfl

end

end Engine

namespace EditM

section
variable {e : Engine}

/-! ## Windows that come and go -/

/-- A record that is not of the window that goes is kept. -/
theorem discardFor_holds {u : UndoSlot} {id : Nat} {p : Pool} {r : UndoSlot × Pool}
    (h : u.discardFor id p = .ok r) {n : Nat} (hn : n ≠ id) : r.1.holds n = u.holds n := by
  unfold UndoSlot.discardFor at h
  split at h
  · rename_i hheld
    obtain ⟨q, -, heq⟩ := bind_eq_ok.mp h
    cases heq
    unfold UndoSlot.holds at hheld ⊢
    cases hr : u.record with
    | none => rfl
    | some r' =>
      rw [hr] at hheld
      have hid : r'.window = id := beq_iff_eq.mp hheld
      show false = (r'.window == n)
      rw [hid]
      exact (beq_false_of_ne hn.symm).symm
  · cases h
    rfl

theorem popWindow_holds (e : Engine) : Leads popWindow e (orStays e fun _ e' =>
    ∀ n, n ≠ e.window.id → e'.session.undo.holds n = e.session.undo.holds n) := by
  unfold popWindow
  rw [leads_get_bind]
  cases hb : e.session.below with
  | nil =>
    simp only [Session.pop?, hb]
    exact leads_throw.mpr rfl
  | cons w rest =>
    simp only [Session.pop?, hb]
    refine leads_bind.mpr (leads_lift.mpr fun r hr => ?_)
    refine leads_bind.mpr (leads_lift.mpr fun q _ => ?_)
    exact leads_set.mpr fun n hn => discardFor_holds hr hn

theorem replaceWindow_holds (e : Engine) (flags : WindowFlags) :
    Leads (replaceWindow flags) e fun _ e' =>
      ∀ n, n ≠ e.window.id → e'.session.undo.holds n = e.session.undo.holds n := by
  unfold replaceWindow
  rw [leads_get_bind]
  refine leads_bind.mpr (leads_lift.mpr fun r hr => ?_)
  refine leads_bind.mpr (leads_lift.mpr fun q _ => ?_)
  refine leads_bind.mpr (leads_set.mpr (leads_pure.mpr fun n hn => ?_))
  exact discardFor_holds hr hn

theorem popWindow_upholds (h : e.Shelved fun _ => none) :
    Leads popWindow e fun _ e' => e.Upholds e' := by
  refine ((popWindow_outcome h.toHeld).and (popWindow_holds e)).mono fun answer e' hp => ?_
  cases answer with
  | ok _ =>
    obtain ⟨⟨undo, p, w, rest, hd, hb, rfl⟩, hholds⟩ := hp
    exact Engine.upholds_popped h hd hholds hb
  | error err =>
    rw [show e' = e from hp.1]
    exact .refl e

theorem replaceWindow_standings (h : e.Shelved fun _ => none) (flags : WindowFlags) :
    Leads (replaceWindow flags) e fun _ e' => e'.Held ∧ ∀ x ∈ e'.standings,
      x ∈ e.standings ∨ x = ⟨e.nextWindow, flags.hasUndo, false⟩ := by
  refine ((replaceWindow_outcome h.toHeld flags).and (replaceWindow_holds e flags)).mono
    fun answer e' hp => ?_
  cases answer with
  | ok _ =>
    obtain ⟨⟨undo, p, hd, rfl⟩, hholds⟩ := hp
    exact ⟨(h.replace hd flags).toHeld, fun x => Engine.standings_replaced h hd hholds flags⟩
  | error err => exact hp.1.elim

theorem receive_upholds {e' : Engine} (h : e.Held) {place : Nat} {new : List Row}
    (hr : e.Received e' place new) (hflag : e'.window.flags.hasUndo = e.window.flags.hasUndo) :
    e.Upholds e' := by
  have hc := hr.confined h
  refine Engine.upholds_of_window h hc.toHeld hc.others_eq hc.below_eq hc.id_eq hflag fun n => ?_
  rw [hr.eq]
  rfl

theorem insertBulk_upholds (h : e.Held) (place : Nat) (blob : Bytes) :
    Leads (insertBulk place blob) e fun _ e' => e'.Held ∧ e.Upholds e' := by
  refine (insertBulk_receives h place blob).maintains ⟨h, .refl e⟩ fun _ e' hp => ?_
  obtain ⟨-, hr, hflags⟩ := hp
  refine ⟨hr.held h, receive_upholds h hr ?_⟩
  rw [hflags]
  rfl

theorem insertDirectory_upholds (h : e.Held) (place : Nat) (entries : List (Bytes × Option Suffix)) :
    Leads (insertDirectory place entries) e fun _ e' => e'.Held ∧ e.Upholds e' := by
  refine (insertDirectory_receives h place entries).maintains ⟨h, .refl e⟩ fun _ e' hp => ?_
  obtain ⟨-, hr, hflags⟩ := hp
  refine ⟨hr.held h, receive_upholds h hr ?_⟩
  rw [hflags]
  rfl

theorem showLoaded_upholds (h : e.Shelved fun _ => none) (path : List Char) (onTop : Bool)
    (loaded : Loaded) : Leads (showLoaded path onTop loaded) e fun _ e' => e.Upholds e' := by
  have hname {e₁ : Engine} (h₁ : e₁.Held ∧ e.Upholds e₁) (size : Nat) : Leads (do
      modifyWindow fun w => { w with fileName := some path }
      return Report.ofSwitch [toString size]) e₁ fun _ e' => e.Upholds e' := by
    rw [leads_modifyWindow_bind]
    have hnamed : e₁.InPlace (e₁.setWindow { e₁.window with fileName := some path }) :=
      h₁.1.inPlace_same rfl rfl rfl
    exact leads_pure.mpr (h₁.2.trans
      (Engine.upholds_of_window h₁.1 hnamed.toHeld rfl rfl rfl rfl fun _ => rfl))
  -- a window that is opened for what was loaded has neither flag nor record
  have hopen {f : EditM Report} (hf : ∀ e₁, e₁.Held ∧ e.Upholds e₁ →
        Leads f e₁ fun _ e₂ => e.Upholds e₂) :
      Leads (if onTop then (do let _ ← pushWindow .none; f)
        else (do let _ ← replaceWindow .none; f)) e fun _ e' => e.Upholds e' := by
    have hnew {e₁ : Engine} (hx : ∀ x ∈ e₁.standings, x ∈ e.standings ∨
        x = ⟨e.nextWindow, WindowFlags.none.hasUndo, false⟩) : e.Upholds e₁ :=
      fun x hmem => (hx x hmem).imp_right fun heq => by rw [heq]; rfl
    cases onTop with
    | true =>
      refine (pushWindow_outcome e .none).then ?_ fun _ _ hp => hp.elim
      rintro _ _ rfl
      exact hf _ ⟨(h.push .none).toHeld, hnew fun x => Engine.standings_pushed h .none⟩
    | false =>
      exact (replaceWindow_standings h .none).then (fun _ e₁ hp => hf e₁ ⟨hp.1, hnew hp.2⟩)
        fun _ _ hp => hnew hp.2
  unfold showLoaded
  rw [leads_get_bind]
  cases loaded with
  | file bytes =>
    dsimp only
    split
    · exact leads_throw.mpr (.refl e)
    · refine hopen fun e₁ h₁ => ?_
      exact (insertBulk_upholds h₁.1 0 bytes).then (fun _ _ hp => hname ⟨hp.1, h₁.2.trans hp.2⟩ _)
        fun _ _ hp => h₁.2.trans hp.2
  | directory entries =>
    dsimp only
    split
    · exact leads_throw.mpr (.refl e)
    · refine hopen fun e₁ h₁ => ?_
      exact (insertDirectory_upholds h₁.1 0 entries).then
        (fun size _ hp => hname ⟨hp.1, h₁.2.trans hp.2⟩ size) fun _ _ hp => h₁.2.trans hp.2

end

end EditM

namespace Engine

section
variable {e e' : Engine}

/-! ## Commands -/

/-- A command that leaves the text alone, and neither opens a window for a file nor drops one, leaves
flags and records where they are. -/
theorem Effect.upholds (h : e.Held) {cmd : Option Command} {range : LineRange} {tail : List Char}
    {x : Traffic} {answer : Except EditError Report} (heff : e.Effect cmd range tail x answer e')
    (hwork : EditM.worksInPlace cmd = false) (hback : cmd ≠ some .back)
    (hload : cmd = some .edit → ∀ path loaded, x ≠ .load path (.ok loaded)) : e.Upholds e' := by
  have hd : e.disarmed.Held := ⟨h.vacant, h.accounts⟩
  cases heff with
  | refused => exact .refl e
  | worked hin =>
    rw [hin] at hwork
    cases hwork
  | undone hr hid => exact upholds_undone h hr hid
  | wrote => exact upholds_of_window h (h.confined_written _ _).toHeld rfl rfl rfl rfl fun _ => rfl
  | told => exact .refl e
  | warned => exact upholds_of_table rfl
  | failed => exact upholds_of_table rfl
  | quit => exact upholds_of_table rfl
  | closed _ hs => exact upholds_closed (e := e.disarmed) _ hd hs
  | switched hs => exact upholds_of_table (table_switched (e := e.disarmed) hs)
  | started h₁ hn hs => exact upholds_started (e := e.disarmed) hd h₁ hn hs
  | moved h₁ hn hs =>
    exact upholds_of_window h (h.move h₁ hn hs) rfl rfl rfl rfl fun _ => rfl
  | popped => exact absurd rfl hback
  | replaced => exact absurd rfl (hload rfl _ _)
  | pushed => exact absurd rfl (hload rfl _ _)

end

end Engine

namespace EditM

section
variable {e : Engine}

theorem runEdit_upholds (h : e.Shelved fun _ => none) (tail : List Char) :
    Leads (runEdit tail) e (Engine.Brings fun _ _ e' => e.Upholds e') := by
  have hload {e₁ : Engine} (h₁ : e₁.Shelved fun _ => none) (hstay : e.Upholds e₁) (path : List Char)
      (onTop : Bool) (answer : Except String Loaded) : Leads (do
        showLoaded path onTop (← liftExcept (ofStorage path answer))) e₁ fun _ e' => e.Upholds e' := by
    refine leads_reads (ofStorage_reads path answer) (fun loaded _ => ?_) fun _ => hstay
    exact (showLoaded_upholds h₁ path onTop loaded).mono fun _ _ hp => hstay.trans hp
  unfold runEdit
  dsimp only
  split
  · rw [leads_get_bind]
    exact leads_pure.mpr (.refl e)
  · split
    · refine leads_done ((editSession_effect ⟨0, 0, 0⟩ tail _).mono fun answer e' heff => ?_)
      exact heff.upholds h.toHeld rfl (by simp) fun _ path loaded hx => by cases hx
    · rw [leads_get_bind]
      split
      · refine (guardUnsaved_outcome e _).then ?_ ?_
        · rintro _ _ ⟨-, rfl⟩
          have hd : e.disarmed.Shelved fun _ => none := (Engine.kept_shelved _).arm h false
          exact leads_pure.mpr fun answer => hload hd (Engine.upholds_of_table rfl) _ _ answer
        · rintro _ _ ⟨-, -, rfl⟩
          exact Engine.upholds_of_table rfl
      · exact leads_pure.mpr fun answer => hload h (.refl e) _ _ answer

theorem runBack_upholds (h : e.Shelved fun _ => none) (tail : List Char) :
    Leads (runBack tail) e fun _ e' => e.Upholds e' := by
  unfold runBack
  refine leads_reads (noTail_reads _ tail) (fun _ _ => ?_) fun _ => .refl e
  exact (popWindow_upholds h).then (fun _ _ hp => leads_pure.mpr hp) fun _ _ hp => hp

theorem runCommand_honours (h : e.Idle) (hs : e.Shelved fun _ => none) {cmd : Option Command}
    {range : LineRange} (hall : cmd.all e.window.mode.allows = true) (hr : range.Within e.window.dol)
    (hz : 0 < range.start ∨ cmd.any Command.allowsZero) (tail : List Char) :
    Leads (runCommand cmd range tail) e (Engine.Brings fun _ _ e' => e.Honours e') := by
  cases hcmd : worksInPlace cmd with
  | true =>
    refine (runInPlace_arrives (Engine.sustained_honouring hs) (.refl h.toHeld) hcmd hall hr hz tail
      fun _ => True).mono fun answer e₁ harrives => ?_
    refine Engine.Brings.mono harrives fun x _ _ hin => (hin ?_).honours
    cases x with
    | load path answer => cases answer <;> exact trivial
    | _ => exact trivial
  | false =>
    unfold runCommand
    cases cmd with
    | none => cases hcmd
    | some cmd =>
      cases cmd with
      | edit =>
        exact (runEdit_upholds hs tail).mono fun _ _ hb => hb.mono fun _ _ _ hp => hp.honours
      | back => exact leads_done ((runBack_upholds hs tail).mono fun _ _ hp => hp.honours)
      | undo =>
        refine leads_done ((runUndo_effect range tail).mono fun _ _ heff => ?_)
        exact (heff.upholds h.toHeld rfl (by simp) (by simp)).honours
      | quit =>
        refine leads_done ((runQuit_effect h.toHeld range tail).mono fun _ _ heff => ?_)
        exact (heff.upholds h.toHeld rfl (by simp) (by simp)).honours
      | moveSession =>
        refine leads_done ((runMoveSession_effect range tail).mono fun _ _ heff => ?_)
        exact (heff.upholds h.toHeld rfl (by simp) (by simp)).honours
      | write =>
        refine (runWrite_effect h.toSound range tail).mono fun _ _ hb => hb.mono fun _ _ _ heff => ?_
        exact (heff.upholds h.toHeld rfl (by simp) (by simp)).honours
      | _ => cases hcmd

/-- A line makes the record over to the current window at most. -/
theorem dispatch_honours (h : e.Steady) (hs : e.Shelved fun _ => none) (line : List Char) :
    Leads (dispatch line) e (Engine.Brings fun _ _ e' => e.Honours e') := by
  unfold dispatch
  rw [leads_get_bind]
  split
  · rename_i t ht
    refine leads_done ((typeLine_leads (Engine.sustained_honouring hs) h (.refl h.toHeld) ht
      trivial).mono fun _ _ hin => hin.honours)
  · rename_i hn
    have hbegun (q : Request) (r : Recall) : e.Upholds ((e.begun q.command).withRecall r) :=
      Engine.upholds_of_window h.toHeld (h.toHeld.begun q.command r) (by rw [Engine.begun_eq]; rfl)
        (by rw [Engine.begun_eq]; rfl) (e.begun_id q.command r) (by rw [Engine.begun_eq]; rfl)
        fun _ => by rw [Engine.begun_eq]; rfl
    refine execute_leads (fun _ _ => (Engine.Upholds.refl e).honours)
      (fun q _ _ r => (hbegun q r).honours) fun q _ range hrange hall r => ?_
    obtain ⟨hr, hz⟩ := Engine.rangeOf_within h.toHeld.readable hrange
    have hidle := (Engine.Idle.mk h hn).begun q.command r
    have hwindow : ((e.begun q.command).withRecall r).window.mode = e.window.mode ∧
        ((e.begun q.command).withRecall r).window.dol = e.window.dol := by
      rw [Engine.begun_eq]
      exact ⟨rfl, rfl⟩
    refine (runCommand_honours hidle (hs.begun q.command r) (hwindow.1 ▸ hall) (hwindow.2 ▸ hr) hz
      q.tail).mono fun _ _ hb => hb.mono fun _ _ e' hp => ?_
    refine (hbegun q r).then_honours (e.begun_id q.command r) ?_ hp
    rw [Engine.begun_eq]
    rfl

end

end EditM

namespace Engine

section
variable {e e' : Engine}

/-! ## Calls and runs -/

/-- Whatever is called, flag and record of each window agree or stand as they did, or this call made
the record over, or opened the window with the flag. -/
theorem perform_standings (h : e.Steady) (hs : e.Shelved fun _ => none) (c : Call)
    (hrun : e.perform c = .ok e') {x : Standing} (hx : x ∈ e'.standings) :
    x ∈ e.standings ∨ x.flagged = x.held ∨
      (x.held = false ∧ (e.Overtakes e' x.window ∨ (c.flags = true ∧ e.nextWindow = x.window))) := by
  have hhonours (hp : e.Honours e') : x ∈ e.standings ∨ x.flagged = x.held ∨
      (x.held = false ∧ (e.Overtakes e' x.window ∨ (c.flags = true ∧ e.nextWindow = x.window))) :=
    (hp x hx).imp_right fun hp => hp.imp_right fun hover => ⟨hover.1, .inl hover.2⟩
  have hupholds {α : Type} {y : EditM α} (hy : Leads y e fun _ e' => e.Upholds e')
      (hafter : e.after y = .ok e') : x ∈ e.standings ∨ x.flagged = x.held ∨
        (x.held = false ∧ (e.Overtakes e' x.window ∨ (c.flags = true ∧ e.nextWindow = x.window))) := by
    obtain ⟨⟨answer, e₁⟩, hr, heq⟩ := bind_eq_ok.mp hafter
    cases heq
    exact hhonours (Upholds.honours (hy _ _ hr))
  have hnew {α : Type} {y : EditM α} {flags : WindowFlags} (hc : c.flags = flags.hasUndo)
      (hy : Leads y e fun _ e' => ∀ x ∈ e'.standings,
        x ∈ e.standings ∨ x = ⟨e.nextWindow, flags.hasUndo, false⟩)
      (hafter : e.after y = .ok e') : x ∈ e.standings ∨ x.flagged = x.held ∨
        (x.held = false ∧ (e.Overtakes e' x.window ∨ (c.flags = true ∧ e.nextWindow = x.window))) := by
    obtain ⟨⟨answer, e₁⟩, hr, heq⟩ := bind_eq_ok.mp hafter
    cases heq
    rcases hy _ _ hr x hx with hx | rfl
    · exact .inl hx
    · refine .inr ?_
      rw [hc]
      cases flags.hasUndo with
      | false => exact .inl rfl
      | true => exact .inr ⟨rfl, .inr ⟨rfl, rfl⟩⟩
  cases c with
  | line storage disk text =>
    obtain ⟨⟨answer, e₁, disk'⟩, hd, heq⟩ := bind_eq_ok.mp hrun
    cases heq
    exact hhonours (dispatchOn_brings (EditM.dispatch_honours h hs text) hd)
  | insertBulk place blob =>
    exact hupholds ((EditM.insertBulk_upholds h.toHeld place blob).mono fun _ _ hp => hp.2) hrun
  | insertDirectory place entries =>
    exact hupholds ((EditM.insertDirectory_upholds h.toHeld place entries).mono fun _ _ hp => hp.2) hrun
  | updateLine n value =>
    obtain ⟨⟨answer, e₁⟩, hr, heq⟩ := bind_eq_ok.mp hrun
    cases heq
    have hI := (sustained_honouring hs).toLineWork
    exact hhonours (Honouring.honours (EditM.updateLine_works hI (.refl h.toHeld) n value
      (fun _ _ _ => trivial) _ _ hr))
  | extractRange start stop => exact hupholds (EditM.maintains_extractRange start stop e (.refl e)) hrun
  | fetchLine n => exact hupholds (EditM.maintains_fetchLine n e (.refl e)) hrun
  | pushWindow flags =>
    refine hnew rfl ((EditM.pushWindow_outcome e flags).mono fun answer e' hp => ?_) hrun
    cases answer with
    | ok _ =>
      obtain rfl : e' = e.pushed flags := hp
      exact fun x => standings_pushed hs flags
    | error err => exact hp.elim
  | replaceWindow flags =>
    exact hnew rfl ((EditM.replaceWindow_standings hs flags).mono fun _ _ hp => hp.2) hrun
  | popWindow => exact hupholds (EditM.popWindow_upholds hs) hrun
  | switchSession n =>
    refine hupholds ((EditM.switchSession_outcome e n).maintains (.refl e) ?_) hrun
    rintro _ e' (⟨s, hget, rfl⟩ | ⟨h₁, hn, hget, rfl⟩)
    · exact upholds_of_table (table_switched hget)
    · exact upholds_started h.toHeld h₁ hn hget
  | closeSession =>
    refine hupholds ((EditM.closeSession_outcome h.toHeld).maintains (.refl e) fun slot e' hp => ?_) hrun
    cases slot with
    | none =>
      obtain ⟨-, rfl⟩ := hp
      exact .refl _
    | some n =>
      obtain ⟨s, p, hget, -, -, rfl⟩ := hp
      exact upholds_closed p h.toHeld hget
  | moveSession target =>
    refine hupholds ((EditM.moveSession_outcome e target).maintains (.refl e) ?_) hrun
    rintro n _ ⟨h₁, hn, hget, rfl⟩
    exact upholds_of_window h.toHeld (h.toHeld.move h₁ hn hget) rfl rfl rfl rfl fun _ => rfl
  | interrupt =>
    cases hrun
    exact hhonours (upholds_of_table rfl).honours

theorem performAll_standings (h : e.Reachable) {calls : List Call} (hrun : e.performAll calls = .ok e')
    {x : Standing} (hx : x ∈ e'.standings) :
    x ∈ e.standings ∨ x.flagged = x.held ∨ (x.held = false ∧ Strays x.window e calls) := by
  -- on the calls; what the later ones left as they found it is looked up after the first one
  induction calls generalizing e with
  | nil =>
    cases hrun
    exact .inl hx
  | cons c calls ih =>
    obtain ⟨e₁, hfirst, hrest⟩ := bind_eq_ok.mp hrun
    rcases ih (.call c h hfirst) hrest with hx₁ | hx₁ | ⟨hheld, hstrays⟩
    · rcases perform_standings h.steady h.shelved c hfirst hx₁ with hx₀ | hx₀ | ⟨hheld, hcall⟩
      · exact .inl hx₀
      · exact .inr (.inl hx₀)
      · refine .inr (.inr ⟨hheld, ?_⟩)
        rcases hcall with hover | ⟨hflags, hid⟩
        · exact .overtaken hfirst hover
        · exact .opened hflags hid
    · exact .inr (.inl hx₁)
    · exact .inr (.inr ⟨hheld, .later hfirst hstrays⟩)

theorem standings_new {limits : Limits} {x : Standing} (hx : x ∈ (Engine.new limits).standings) :
    x = ⟨1, false, false⟩ := by
  unfold standings at hx
  rw [sessions_new] at hx
  exact List.mem_singleton.mp hx

theorem restorable_isSome : e.restorable.isSome = e.session.undo.holds e.window.id := by
  unfold restorable UndoSlot.holds
  cases e.session.undo.record with
  | none => rfl
  | some r => cases hr : r.window == e.window.id <;> simp [hr]

/-- With no text being typed, `u` works just where the record is of the current window. In whatever
session, a window that the record is of is flagged; and a flagged window has the record, unless it was
opened with the flag or its record was made over to the window above it. -/
theorem flag_tells_undo (limits : Limits) (calls : List Call) :
    ∃ e, (Engine.new limits).performAll calls = .ok e ∧
      (e.entry = none → ∀ {σ : Type} (storage : Storage σ) (disk : σ),
        (∃ report e' disk', e.dispatchOn storage ['u'] disk = .ok (.ok report, e', disk')) ↔
          e.session.undo.holds e.window.id = true) ∧
      ∀ s ∈ e.table.sessions, ∀ w ∈ s.windows,
        (s.undo.holds w.id = true → w.flags.hasUndo = true) ∧
        (w.flags.hasUndo = true →
          s.undo.holds w.id = true ∨ Strays w.id (Engine.new limits) calls) := by
  obtain ⟨e, hrun, hs⟩ := (steady_new limits).performAll calls
  refine ⟨e, hrun, fun hn σ storage disk => ?_, fun s hsession w hw => ?_⟩
  · rw [dispatchOn_undo_line ⟨hs, hn⟩ storage disk, ← restorable_isSome]
    cases e.restorable with
    | none => simp
    | some r => simp
  · have hx : (⟨w.id, w.flags.hasUndo, s.undo.holds w.id⟩ : Standing) ∈ e.standings :=
      List.mem_flatMap.mpr ⟨s, hsession, List.mem_map_of_mem hw⟩
    rcases performAll_standings (.new limits) hrun hx with hx | hx | ⟨hheld, hstrays⟩
    · obtain ⟨-, hflag, hheld⟩ := Standing.mk.inj (standings_new hx)
      simp [hflag, hheld]
    · have hagree : w.flags.hasUndo = s.undo.holds w.id := hx
      rw [hagree]
      exact ⟨id, .inl⟩
    · have hlost : s.undo.holds w.id = false := hheld
      rw [hlost]
      exact ⟨fun h => absurd h Bool.false_ne_true, fun _ => .inr hstrays⟩

/-- After a deletion the window is flagged, and `u` works. -/
theorem flag_tells_undo_delete : ∃ e report e' disk',
    (Engine.new ⟨1, 10, 100⟩).performAll
        [.insertBulk 0 [97, 10], .line FileTree.storage .empty ['d']] = .ok e ∧
      e.window.flags.hasUndo = true ∧
      e.dispatchOn FileTree.storage ['u'] .empty = .ok (.ok report, e', disk') := by
  have hvalues : ((Engine.new ⟨1, 10, 100⟩).performAll
      [.insertBulk 0 [97, 10], .line FileTree.storage .empty ['d']]).map (fun e =>
        (e.entry.isNone, e.session.undo.holds e.window.id)) = .ok (true, true) := by
    decide +kernel
  obtain ⟨e, hrun, hundo, hflags⟩ := flag_tells_undo ⟨1, 10, 100⟩
    [.insertBulk 0 [97, 10], .line FileTree.storage .empty ['d']]
  have hheld : e.Held := ((Reachable.new _).performAll hrun).steady.toHeld
  rw [hrun] at hvalues
  obtain ⟨hentry, hholds⟩ := Prod.mk.inj (Except.ok.inj hvalues)
  obtain ⟨report, e', disk', hline⟩ :=
    (hundo (Option.isNone_iff_eq_none.mp hentry) FileTree.storage .empty).mpr hholds
  have hsession : e.session ∈ e.table.sessions :=
    SessionTable.mem_sessions.mpr ⟨e.slot, hheld.table_get?⟩
  exact ⟨e, report, e', disk', hrun, (hflags e.session hsession e.window e.window_mem_session).1 hholds,
    hline⟩

/-- A line is deleted in a window, another one in a window on top of it, which is then dropped: the
record is gone with it, but the flag of the first window is not. So it is with a window that is opened
with the flag. -/
theorem flag_outlasts_record : ∃ e₁ e₂,
    (Engine.new ⟨1, 10, 100⟩).performAll [.insertBulk 0 [97, 10], .line FileTree.storage .empty ['d'],
      .pushWindow .none, .insertBulk 0 [98, 10], .line FileTree.storage .empty ['d'], .popWindow] =
        .ok e₁ ∧
    (Engine.new ⟨1, 10, 100⟩).performAll [.pushWindow { WindowFlags.none with hasUndo := true }] =
      .ok e₂ ∧
    ∀ e ∈ [e₁, e₂], e.entry = none ∧ e.window.flags.hasUndo = true ∧ e.session.undo.record = none ∧
      ∃ e', e.dispatchOn FileTree.storage ['u'] .empty = .ok (.error .nothingToUndo, e', .empty) := by
  have hvalues : ([[.insertBulk 0 [97, 10], .line FileTree.storage .empty ['d'],
      .pushWindow .none, .insertBulk 0 [98, 10], .line FileTree.storage .empty ['d'], .popWindow],
      [.pushWindow { WindowFlags.none with hasUndo := true }]] : List (List Call)).map (fun calls =>
        ((Engine.new ⟨1, 10, 100⟩).performAll calls).map fun e =>
          (e.entry.isNone, e.window.flags.hasUndo, e.session.undo.record.isNone)) =
      [.ok (true, true, true), .ok (true, true, true)] := by
    decide +kernel
  obtain ⟨e₁, hrun₁, hs₁⟩ := (steady_new ⟨1, 10, 100⟩).performAll [.insertBulk 0 [97, 10],
    .line FileTree.storage .empty ['d'], .pushWindow .none, .insertBulk 0 [98, 10],
    .line FileTree.storage .empty ['d'], .popWindow]
  obtain ⟨e₂, hrun₂, hs₂⟩ := (steady_new ⟨1, 10, 100⟩).performAll
    [.pushWindow { WindowFlags.none with hasUndo := true }]
  have hstale {e : Engine} (hs : e.Steady)
      (hvalue : (e.entry.isNone, e.window.flags.hasUndo, e.session.undo.record.isNone) =
        (true, true, true)) : e.entry = none ∧ e.window.flags.hasUndo = true ∧
        e.session.undo.record = none ∧
        ∃ e', e.dispatchOn FileTree.storage ['u'] .empty = .ok (.error .nothingToUndo, e', .empty) := by
    simp only [Prod.mk.injEq, Option.isNone_iff_eq_none] at hvalue
    obtain ⟨hn, hflag, hrecord⟩ := hvalue
    refine ⟨hn, hflag, hrecord, e.disarmed, ?_⟩
    rw [dispatchOn_undo_line ⟨hs, hn⟩, restorable, hrecord]
    rfl
  rw [List.map_cons, List.map_cons, hrun₁, hrun₂] at hvalues
  obtain ⟨hvalue₁, hvalues⟩ := List.cons.inj hvalues
  obtain ⟨hvalue₂, -⟩ := List.cons.inj hvalues
  refine ⟨e₁, e₂, hrun₁, hrun₂, fun e he => ?_⟩
  rcases List.mem_cons.mp he with rfl | he
  · exact hstale hs₁ (Except.ok.inj hvalue₁)
  · obtain rfl := List.mem_singleton.mp he
    exact hstale hs₂ (Except.ok.inj hvalue₂)

end

end Engine

end LineEditor
