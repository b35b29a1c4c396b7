import LineEditor.Proofs.Runs

/-!
# No breach

Whatever is asked of an engine, and in whatever order, no part of it breaks its promise to another:
no number is taken from a smaller one, and no line, byte or character is looked for where there is
none. What the parts rely on between calls is said of the engine that a run leads to: the current
session stands in its slot, and a text being typed still fits its window.
-/

namespace LineEditor

namespace Engine

/-- What is asked of an engine in a run, up to the first breach. -/
def performAll [CountLimit] (e : Engine) : List Call → Except Breach Engine
  | [] => return e
  | c :: calls => do (← e.perform c).performAll calls

theorem performAll_append [CountLimit] (e : Engine) (calls calls' : List Call) :
    e.performAll (calls ++ calls') = e.performAll calls >>= fun e' => e'.performAll calls' := by
  -- on the calls that come first
  induction calls generalizing e with
  | nil => rfl
  | cons c calls ih =>
    show (e.perform c >>= fun e₁ => e₁.performAll (calls ++ calls')) = (e.perform c >>= _) >>= _
    rw [bind_assoc]
    exact bind_congr ih

theorem Steady.performAll {e : Engine} (h : e.Steady) (calls : List Call) :
    Succeeds (e.performAll calls) Steady := by
  induction calls generalizing e with
  | nil => exact Succeeds.pure_iff.mpr h
  | cons c calls ih =>
    unfold Engine.performAll
    rw [Succeeds.bind_iff]
    exact (h.perform c).mono fun e' he => ih he

/-- No run meets a breach. It leads to an engine whose current session is in its slot, whose slots
of lines are counted right, and in which a text being typed is for the current window, at a place
that is there and for lines that are there. -/
theorem runs_without_breach (limits : Limits) (calls : List Call) :
    ∃ e, (Engine.new limits).performAll calls = .ok e ∧
      (1 ≤ e.slot ∧ e.slot ≤ e.table.max ∧ e.table.get? e.slot = some e.session) ∧
      e.pool.live + e.pool.free.length = e.pool.slots.size ∧
      ∀ t, e.entry = some t → t.window = e.window.id ∧ t.after ≤ e.window.dol ∧
        ∀ start stop, t.replace = some (start, stop) →
          1 ≤ start ∧ start ≤ stop ∧ stop ≤ e.window.dol := by
  obtain ⟨e, hrun, hs⟩ := (steady_new limits).performAll calls
  have hget := hs.toSound.table_get?
  obtain ⟨h₁, hmax⟩ := SessionTable.slot_of_get? hget
  refine ⟨e, hrun, ⟨h₁, hmax, hget⟩, hs.accounts.balanced.live_add_free, fun t ht => ?_⟩
  obtain ⟨hid, hafter, hfits, -⟩ := hs.entry t ht
  refine ⟨hid, hafter, fun start stop hreplace => ?_⟩
  unfold EditM.entryEdit at hfits
  rw [hreplace] at hfits
  exact hfits

end Engine

end LineEditor
