import LineEditor.Proofs.LineCommands

/-!
# Typed text

A text fits its window when it is begun, and whatever happens to the window until it is complete
either lets it fit or gives it up. So the text goes in without error, or is refused for its size.
-/

namespace LineEditor

/-- Whether a text fits does not depend on its lines. -/
theorem EditM.entryEdit_fits {t : TextEntry} {size : Nat} (h : (entryEdit t).Fits size)
    (lines : List Bytes) : (entryEdit { t with lines := lines }).Fits size := by
  obtain ⟨_, _, replace, _⟩ := t
  cases replace with
  | none => exact h
  | some r => exact h

namespace Engine

section
variable {e : Engine}

theorem EntryFits.steady (h : e.Steady) {t : TextEntry} (ht : e.EntryFits t) :
    Steady { e with entry := some t } where
  vacant := h.vacant
  accounts := h.accounts
  consistent := h.consistent
  below := h.below
  record := h.record
  others := h.others
  entry _ he := by
    cases he
    exact ⟨ht.window_eq, ht.after_le, ht.fits, ht.calm⟩
  unmarked := h.unmarked

theorem unaltered_untyped (e : Engine) : e.Unaltered { e with entry := none } := ⟨rfl, .inr rfl, id⟩

end

end Engine

namespace EditM

section
variable {e : Engine}

theorem beginEntry_ends (h : e.Ready) {after : Nat} {replace : Option (Nat × Nat)}
    (hafter : after ≤ e.window.dol)
    (hfit : (entryEdit ⟨e.window.id, after, replace, []⟩).Fits e.window.dol) :
    Ends (beginEntry after replace) e e.Settles := by
  unfold beginEntry
  rw [ends_modify_bind, ends_pure]
  exact (Engine.EntryFits.steady h.toSteady ⟨rfl, hafter, hfit, h.calm⟩).settles rfl

section
variable {range : LineRange}

theorem runAppend_settles (h : e.Ready) (hr : range.Within e.window.dol) (tail : List Char) :
    Ends (runAppend range tail) e e.Settles := by
  unfold runAppend
  exact settles_reads h.toIdle (noTail_reads _ tail) fun _ _ => beginEntry_ends h hr.stop_le hr.stop_le

theorem runInsert_settles (h : e.Ready) (hr : range.Within e.window.dol) (tail : List Char) :
    Ends (runInsert range tail) e e.Settles := by
  have hfit : range.stop - 1 ≤ e.window.dol := Nat.le_trans (Nat.sub_le _ _) hr.stop_le
  unfold runInsert
  exact settles_reads h.toIdle (noTail_reads _ tail) fun _ _ => beginEntry_ends h hfit hfit

theorem runChange_settles (h : e.Ready) (h₁ : 0 < range.start) (hr : range.Within e.window.dol)
    (tail : List Char) : Ends (runChange range tail) e e.Settles := by
  unfold runChange
  refine settles_reads h.toIdle (noTail_reads _ tail) fun _ _ => ?_
  refine (ends_difference h₁).mpr ?_
  have hstart := Nat.le_trans hr.le hr.stop_le
  exact beginEntry_ends h (Nat.le_trans (Nat.sub_le _ _) hstart) ⟨h₁, hr.le, hr.stop_le⟩

end

theorem entryRemoved_succeeds {t : TextEntry} {size : Nat} (hfit : (entryEdit t).Fits size) :
    Succeeds (entryRemoved t) fun _ => True := by
  unfold entryEdit at hfit
  unfold entryRemoved
  split at hfit
  · rw [difference_of_le hfit.2.1]
    exact Succeeds.pure_iff.mpr trivial
  · exact Succeeds.pure_iff.mpr trivial

theorem commitEntry_settles (h : e.Ready) {t : TextEntry} (hfit : (entryEdit t).Fits e.window.dol) :
    Ends (commitEntry t) e e.Settles := by
  have hput : Ends (do
      snapshot
      edit (entryEdit t)
      return .ofEdit true []) e e.Settles :=
    snapshot_edit_then h hfit fun _ hrec hunmarked => ends_pure.mpr (hrec.settles hunmarked _)
  unfold commitEntry
  rw [ends_get_bind]
  simp only
  split
  · exact ends_pure.mpr (h.toSteady.settles rfl)
  · rw [ends_bind, ends_lift]
    refine (entryRemoved_succeeds hfit).mono fun removed _ => ?_
    rw [Post.after_ok]
    split
    · exact ends_pure.mpr (h.toSteady.settles rfl)
    · split
      · exact settles_checkCapacity h.toIdle fun _ => hput
      · exact hput

theorem typeLine_settles (h : e.Steady) {t : TextEntry} (ht : e.entry = some t) (line : List Char) :
    Ends (typeLine t line) e e.Settles := by
  have hfits := h.entry t ht
  unfold typeLine
  split
  · rw [ends_modify_bind]
    have hun := e.unaltered_untyped
    have hsteady : Engine.Steady { e with entry := none } := ⟨hun.sound h.toSound rfl, h.unmarked⟩
    have hready : Engine.Ready { e with entry := none } := ⟨⟨hsteady, rfl⟩, hfits.calm⟩
    exact (commitEntry_settles hready hfits.fits).mono fun _ _ hp => hun.settles hp
  · rw [ends_modify_bind, ends_pure]
    have hmore : e.EntryFits { t with lines := t.lines ++ [Utf8.ofChars line] } :=
      ⟨hfits.window_eq, hfits.after_le, entryEdit_fits hfits.fits _, hfits.calm⟩
    exact (hmore.steady h).settles rfl

end

end EditM

end LineEditor
