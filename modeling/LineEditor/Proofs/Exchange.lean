import LineEditor.Engine.Exchange
import LineEditor.Proofs.Transaction
import LineEditor.Text.Blob

/-!
# Exchange of bytes

Bytes that come into the window from outside only make it larger, so a text being typed still fits.
They are refused for a place or a size that the engine can tell before.
-/

namespace LineEditor

theorem Bytes.length_splitOn (sep : UInt8) (s : Bytes) : (splitOn sep s).length = s.count sep + 1 := by
  induction s with
  | nil => rfl
  | cons b rest ih =>
    unfold splitOn
    by_cases hb : b = sep
    · simp [hb, ih]
    · rw [if_neg hb, List.count_cons_of_ne hb]
      cases hs : splitOn sep rest with
      | nil => exact absurd hs (splitOn_ne_nil sep rest)
      | cons piece pieces => rw [← ih, hs]; rfl

/-- Counting the lines of a blob and cutting it come to the same number. -/
theorem Blob.countLines_eq (blob : Bytes) : countLines blob = (split blob).lines.length := by
  unfold countLines split
  cases hl : blob.getLast? with
  | none =>
    rw [List.getLast?_eq_none_iff] at hl
    simp [hl, endsLine]
  | some b =>
    obtain ⟨front, rfl⟩ := List.getLast?_eq_some_iff.mp hl
    by_cases hb : b = Bytes.newline
    · simp [endsLine, hb, Bytes.length_splitOn]
    · simp [endsLine, hb, Bytes.length_splitOn]

theorem Blob.read_bind (blob : Bytes) (f : SplitBlob → EditM α) :
    (liftM (read blob) >>= f) = f (split blob) := by
  rw [read_eq]
  rfl

namespace EditM

section
variable {e : Engine}

/-- What comes of bytes from outside: work in the window, or a refusal for a reason `ok` excludes. -/
def Enters (e : Engine) (ok : Prop) : Post Engine α
  | .ok _, e' => e.Worked e'
  | .error _, e' => e' = e ∧ ¬ok

theorem Enters.worked (h : e.Sound) {ok : Prop} {answer : Except EditError α} {e' : Engine}
    (h' : Enters e ok answer e') : e.Worked e' := by
  cases answer with
  | ok a => exact h'
  | error err =>
    rw [h'.1]
    exact .refl h

theorem Enters.sure {ok : Prop} (hok : ok) {x : EditM α} (hx : Ends x e (Enters e ok)) :
    Ends x e (.sure fun _ e' => e.Worked e') := by
  refine hx.mono fun answer e' h' => ?_
  cases answer with
  | ok a => exact h'
  | error err => exact h'.2 hok

theorem worked_flags (h : e.Sound) (flags : WindowFlags) :
    e.Worked (e.setWindow { e.window with flags := flags }) :=
  h.worked_note rfl rfl rfl rfl

/-- Bytes are refused for a place that is not in the window and for a size that it cannot hold. -/
theorem enters_room {place adding : Nat} {rest : EditM α}
    (hrest : place ≤ e.window.dol → Ends rest e
      (Enters e (place ≤ e.window.dol ∧ e.window.dol + adding ≤ e.limits.lines))) :
    Ends (do
      liftExcept (e.view.checkPlace place)
      liftExcept (e.view.checkCapacity adding)
      rest) e (Enters e (place ≤ e.window.dol ∧ e.window.dol + adding ≤ e.limits.lines)) := by
  unfold View.checkPlace View.checkCapacity
  rw [ends_check]
  refine ⟨fun hout => ⟨rfl, fun hok => Nat.not_lt.mpr hok.1 hout⟩, fun hplace => ?_⟩
  rw [ends_check]
  refine ⟨fun hout => ⟨rfl, fun hok => Nat.not_lt.mpr hok.2 hout⟩, fun _ => ?_⟩
  exact hrest (Nat.not_lt.mp hplace)

theorem insertBulk_ends (h : e.Sound) (after : Nat) (blob : Bytes) :
    Ends (insertBulk after blob) e (Enters e (after ≤ e.window.dol ∧
      e.window.dol + (Blob.split blob).lines.length ≤ e.limits.lines)) := by
  have hput {ok : Prop} {e₁ : Engine} (hw : e.Worked e₁) (hfit : after ≤ e₁.window.dol) : Ends (do
      onWindow fun w p => w.insertLines p after (Blob.split blob).lines
      if after = e.view.window.dol && !(Blob.split blob).lines.isEmpty &&
          !(Blob.split blob).finalNewline then
        modifyWindow fun w => { w with flags.noFinalNewline := true }
      return (Blob.split blob).lines.length) e₁ (Enters e ok) := by
    have hins := Window.insertLines_edited hw.sound.consistent hw.sound.accounts hfit
      (Blob.split blob).lines
    refine (onWindow_grows hw.sound ?_).sure_then fun _ e₂ hw' => ?_
    · exact hins.mono fun r hr => ⟨hr.1, by omega⟩
    · dsimp only
      split
      · rw [ends_modifyWindow_bind, ends_pure]
        exact (hw.trans hw').trans (worked_flags hw'.sound _)
      · exact ends_pure.mpr (hw.trans hw')
  unfold insertBulk
  simp only [Blob.read_bind]
  rw [ends_get_bind]
  refine enters_room fun hplace => ?_
  split
  · rw [ends_modifyWindow_bind]
    exact hput (worked_flags h _) hplace
  · exact hput (.refl h) hplace

theorem insertDirectory_ends (h : e.Sound) (after : Nat) (entries : List (Bytes × Option Suffix)) :
    Ends (insertDirectory after entries) e (Enters e (after ≤ e.window.dol ∧
      e.window.dol + entries.length ≤ e.limits.lines)) := by
  unfold insertDirectory
  rw [ends_get_bind]
  refine enters_room fun hplace => ?_
  rw [ends_modifyWindow_bind]
  have hw := worked_flags h { e.window.flags with directory := true }
  have hins := Window.insertEntries_edited hw.sound.consistent hw.sound.accounts hplace entries
  refine (onWindow_grows hw.sound ?_).sure_then fun _ _ hw' => ends_pure.mpr (hw.trans hw')
  exact hins.mono fun r hr => ⟨hr.1, by omega⟩

theorem updateLine_ends (h : e.Sound) (n : Nat) (value : Bytes) :
    Ends (updateLine n value) e fun _ e' => e.Worked e' := by
  unfold updateLine
  rw [ends_get_bind]
  refine (e.view.checkLine_reads n).then (fun _ ⟨h₁, hn⟩ => ?_) fun _ _ => .refl h
  have hne := Bytes.splitOn_ne_nil Bytes.newline value
  have hpos : 1 ≤ (Bytes.splitOn Bytes.newline value).length := List.length_pos_iff.mpr hne
  refine (ends_difference hpos).mpr ?_
  refine (e.view.checkCapacity_reads _).then (fun _ _ => ?_) fun _ _ => .refl h
  have hrep := Window.replaceLines_edited h.consistent h.accounts h₁ (Nat.le_refl n) hn
    (Bytes.splitOn Bytes.newline value)
  refine (onWindow_grows h ?_).sure_then fun _ e₁ hw => ?_
  · refine hrep.mono fun r hr => ⟨hr.1, ?_⟩
    have hn' : n ≤ e.window.dol := hn
    rw [hr.2 hne]
    omega
  · exact ends_modify.mpr (hw.trans (noteEdit_worked hw.sound))

theorem extractRange_ends (h : e.Sound) (start stop : Nat) :
    Ends (extractRange start stop) e fun answer e' => e' = e ∧ Answers answer fun _ => True := by
  unfold extractRange
  rw [ends_get_bind]
  refine (e.view.checkRun_reads start stop).then (fun _ _ => ?_) fun _ herr => ⟨rfl, herr⟩
  exact ends_lift.mpr ((h.readable.blob start stop).mono fun _ _ => ⟨rfl, trivial⟩)

theorem fetchLine_ends (h : e.Sound) (n : Nat) : Ends (fetchLine n) e fun _ e' => e' = e := by
  unfold fetchLine
  rw [ends_get_bind]
  refine (e.view.checkLine_reads n).then (fun _ _ => ?_) fun _ _ => rfl
  rw [ends_bind, ends_lift]
  exact (h.readable.text? n).mono fun text _ => by simp

end

end EditM

end LineEditor
