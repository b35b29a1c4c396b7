import LineEditor.Proofs.KeptRuns
import LineEditor.Proofs.ProperTexts

/-!
# Proper texts in every run

Each way by which lines get into a window leaves all texts proper: an edit that is planned, a text
that is complete, a blob, a listing, a line that is updated. A listing has to be asked for names of
the kind that the lines are of, and typed lines have to be of that kind; everything else cuts what it
brings into lines itself.
-/

namespace LineEditor

/-- The names in a directory that is listed are of the kind that lines are of. -/
def Loaded.Named (C : Bytes → Prop) : Loaded → Prop
  | .file _ => True
  | .directory entries => ∀ x ∈ entries, C x.1

/-- Texts stay proper if typed lines are of the kind and listed names are. Anything may be put into
any window, for it is cut into lines. -/
def properTerms (C : Bytes → Prop) : Terms where
  edits limits _ rows change := change.Keeps C limits.lines rows
  takes _ := True
  typed text := C (Utf8.ofChars text)
  loaded := Loaded.Named C
  opens _ := True

namespace Engine

/-- All texts are proper, and the lines of a text being typed are of the kind. -/
abbrev Proper (C : Bytes → Prop) (e : Engine) : Prop := e.Everywhere (ProperText C) C

section
variable {C : Bytes → Prop} {e e' : Engine}

theorem Proper.dol_le (h : e.Proper C) : e.window.dol ≤ e.limits.lines := by
  have hsize := h.session.current.size_le
  rwa [Pool.length_texts] at hsize

theorem Proper.length_window (h : e.Proper C) {s : Session} (hs : s ∈ e.table.sessions) {w : Window}
    (hw : w ∈ s.windows) : w.lines.length ≤ e.limits.lines := by
  rw [← Pool.length_texts e.pool]
  exact ((h.table s hs).windows w hw).size_le

theorem Proper.length_record (h : e.Proper C) {s : Session} (hs : s ∈ e.table.sessions)
    {r : UndoRecord} (hr : s.undo.record = some r) : r.lines.length ≤ e.limits.lines := by
  rw [← Pool.length_texts e.pool]
  exact ((h.table s hs).record r hr).size_le

theorem Proper.rows (h : e.Proper C) : ∀ row ∈ e.pool.rows e.window.lines, C row.text :=
  fun _ hrow => h.session.current.lines _ (List.mem_map_of_mem hrow)

/-- Lines of the kind came in, and the note on the last line is not about an empty one. -/
theorem Received.proper {place : Nat} {new : List Row} (h : e.Received e' place new)
    (hp : e.Proper C) (hnew : ∀ row ∈ new, C row.text)
    (hlast : e'.window.flags.noFinalNewline = true → ∀ last,
      ((Sequence.splice (e.pool.rows e.window.lines) place 0 new).map Row.text).getLast? = some last →
        last ≠ []) : e'.Proper C := by
  have hwork := hp.work h.shows ⟨?_, hlast, fun line hline => ?_⟩
  · rwa [← h.eq] at hwork
  · have hlen : (e.pool.rows e.window.lines).length = e.window.dol := Pool.length_rows _ _
    have hplace := h.place_le
    have hsize := h.size_le
    rw [List.length_map, Sequence.length_splice _ _ (by omega), hlen]
    omega
  · obtain ⟨row, hrow, rfl⟩ := List.mem_map.mp hline
    rcases Sequence.mem_splice hrow with hrow | hrow
    · exact hp.rows row hrow
    · exact hnew row hrow

/-! ## Typed text -/

theorem Proper.entryEdit_keeps (h : e.Proper C) {t : TextEntry} (ht : ∀ line ∈ t.lines, C line)
    (hfit : (EditM.entryEdit t).Fits e.window.dol) {removed : Nat}
    (hremoved : EditM.entryRemoved t = .ok removed)
    (hroom : removed < t.lines.length →
      e.window.dol + (t.lines.length - removed) ≤ e.limits.lines) :
    (EditM.entryEdit t).Keeps C e.limits.lines (e.pool.rows e.window.lines) := by
  have hlen : (e.pool.rows e.window.lines).length = e.window.dol := Pool.length_rows _ _
  have hsize := h.dol_le
  have hplain (row : Row) (hrow : row ∈ t.lines.map Row.plain) : C row.text := by
    obtain ⟨line, hline, rfl⟩ := List.mem_map.mp hrow
    exact ht line hline
  have hsplice {start remove : Nat} (row : Row)
      (hrow : row ∈ Sequence.splice (e.pool.rows e.window.lines) start remove (t.lines.map Row.plain)) :
      C row.text := (Sequence.mem_splice hrow).elim (h.rows row) (hplain row)
  unfold EditM.entryEdit at hfit ⊢
  unfold EditM.entryRemoved at hremoved
  split at hfit
  · rename_i start stop hreplace
    obtain ⟨h₁, hs, hstop⟩ := hfit
    rw [hreplace] at hremoved
    dsimp only at hremoved
    rw [difference_of_le hs] at hremoved
    cases hremoved
    refine ⟨?_, hsplice⟩
    show (Sequence.splice _ (start - 1) (stop - start + 1) _).length ≤ _
    rw [Sequence.length_splice _ _ (by omega), List.length_map, hlen]
    omega
  · rename_i hreplace
    rw [hreplace] at hremoved
    cases hremoved
    refine ⟨?_, hsplice⟩
    have hafter : t.after ≤ e.window.dol := hfit
    show (Sequence.splice _ t.after 0 _).length ≤ _
    rw [Sequence.length_splice _ _ (by omega), List.length_map, hlen]
    omega

/-! ## Bytes from outside -/

/-- The note that a blob leaves is about its own last line, or about one that is still the last. -/
theorem bulkFlags_last {limits : Limits} {texts : List Bytes} {w : Window} {place : Nat} {blob : Bytes}
    (h : ProperText C limits texts w.flags.noFinalNewline) (hlen : texts.length = w.dol)
    (hplace : place ≤ w.dol) (hset : (EditM.bulkFlags w place blob).noFinalNewline = true) {last : Bytes}
    (hlast : (Sequence.splice texts place 0 (Blob.split blob).lines).getLast? = some last) :
    last ≠ [] := by
  -- a blob put at the end brings the last line; otherwise the last line is still the one it was
  by_cases hend : (decide (place = w.dol) && !(Blob.split blob).lines.isEmpty) = true
  · simp only [EditM.bulkFlags, hend, if_true, Bool.not_eq_true'] at hset
    rw [Bool.and_eq_true, decide_eq_true_eq, Bool.not_eq_true', List.isEmpty_eq_false_iff] at hend
    obtain ⟨rfl, hne⟩ := hend
    rw [Sequence.splice, Nat.add_zero, List.drop_of_length_le (Nat.le_of_eq hlen), List.append_nil,
      List.getLast?_append_of_ne_nil _ hne] at hlast
    exact Blob.getLast?_split_ne_nil hset hlast
  · simp only [EditM.bulkFlags, if_neg hend] at hset
    have hsame : (Sequence.splice texts place 0 (Blob.split blob).lines).getLast? = texts.getLast? := by
      by_cases hlt : place < w.dol
      · exact Sequence.getLast?_splice _ (hlen ▸ hlt)
      · have hnil : (Blob.split blob).lines = [] := by
          by_contra hne
          exact hend (by simp [show place = w.dol by omega, hne])
        rw [hnil]
        simp [Sequence.splice]
    exact h.last_ne_nil hset last (hsame ▸ hlast)

theorem Proper.bulk (h : e.Proper C) (hC : LineKind C) {place : Nat} {blob : Bytes}
    (hr : e.Received e' place ((Blob.split blob).lines.map Row.plain))
    (hflags : e'.window.flags = EditM.bulkFlags e.window place blob) : e'.Proper C := by
  refine hr.proper h (fun row hrow => ?_) fun hset last hlast => ?_
  · obtain ⟨line, hline, rfl⟩ := List.mem_map.mp hrow
    obtain ⟨s, hpiece⟩ := Blob.mem_splitOn_of_mem_split hline
    exact hC.piece s line hpiece
  · rw [Sequence.map_splice, Row.map_text_plain] at hlast
    rw [hflags] at hset
    exact bulkFlags_last h.session.current (Pool.length_texts _ _) hr.place_le hset hlast

theorem Proper.listing (h : e.Proper C) {place : Nat} {entries : List (Bytes × Option Suffix)}
    (hentries : (Loaded.directory entries).Named C)
    (hr : e.Received e' place (entries.map Row.ofEntry))
    (hflags : e'.window.flags = EditM.listingFlags e.window place entries) : e'.Proper C := by
  have hlen : (e.pool.rows e.window.lines).length = e.window.dol := Pool.length_rows _ _
  have hspliced : ({ e.window with flags.directory := true } : Window).Spliced e'.window place 0
      (entries.map Row.ofEntry).length := by
    rw [List.length_map]
    refine ⟨?_, hflags⟩
    rw [hr.dol_eq, List.length_map]
    rfl
  refine hr.proper h (fun row hrow => ?_) fun hset last hl => ?_
  · obtain ⟨x, hx, rfl⟩ := List.mem_map.mp hrow
    exact hentries x hx
  · obtain ⟨hold, hsame⟩ := hspliced.last hlen hset
    rw [List.getLast?_map, hsame, ← List.getLast?_map] at hl
    exact h.session.current.last_ne_nil hold last hl

theorem Proper.update_keeps (h : e.Proper C) {n : Nat} {lines : List Bytes}
    (hlines : ∀ line ∈ lines, C line) (hne : lines ≠ []) (h₁ : 1 ≤ n) (hn : n ≤ e.window.dol)
    (hroom : e.window.dol + (lines.length - 1) ≤ e.limits.lines) :
    (Edit.replace n n lines).Keeps C e.limits.lines (e.pool.rows e.window.lines) := by
  have hlen : (e.pool.rows e.window.lines).length = e.window.dol := Pool.length_rows _ _
  have hpos := List.length_pos_iff.mpr hne
  refine ⟨?_, fun row hrow => ?_⟩
  · show (Sequence.splice _ (n - 1) (n - n + 1) _).length ≤ _
    rw [Sequence.length_splice _ _ (by omega), List.length_map, hlen]
    omega
  · rcases Sequence.mem_splice hrow with hrow | hrow
    · exact h.rows row hrow
    · obtain ⟨line, hline, rfl⟩ := List.mem_map.mp hrow
      exact hlines line hline

end

/-! ## Runs -/

/-- Every call leaves all texts proper, if the lines typed and the names listed are of the kind. -/
theorem kept_proper {C : Bytes → Prop} (hC : LineKind C) : Kept (Proper C) (properTerms C) where
  toFramed := framed_everywhere (fun limits unended => .nil C limits unended) trivial
  plan h _ _ hr hz _ tail := by
    refine (View.plan_keeps hC h.toHeld.readable hr h.rows h.dol_le hz tail).mono fun plan hk => ?_
    cases plan with
    | edit change shape print => exact hk
    | _ => exact trivial
  edit h _ hfit hkeeps _ _ hrun := Everywhere.noteEdit
    (h.work ((Edit.perform_shows h.accounts hfit).of_eq hrun) (h.session.current.edit hfit hkeeps hrun))
  type h entry hentry text htext := by
    refine ⟨⟨h.vacant, h.accounts⟩, h.session, h.others, fun t ht line hline => ?_⟩
    cases ht
    rcases List.mem_append.mp hline with hline | hline
    · exact h.typed entry hentry line hline
    · rw [List.mem_singleton.mp hline]
      exact htext
  commit h entry hentry _ hfit _ hremoved hroom :=
    h.entryEdit_keeps (h.typed entry hentry) hfit hremoved hroom
  read h _ _ _ _ _ _ hr hflags := Everywhere.noteEdit (h.bulk hC hr hflags)
  receptive _ _ := trivial
  bulk h _ _ _ _ _ _ hr hflags := h.bulk hC hr hflags
  listing h _ _ hentries _ _ _ _ hr hflags := h.listing hentries hr hflags
  update h _ _ value h₁ hn hroom :=
    h.update_keeps (hC.piece value) (Bytes.splitOn_ne_nil _ _) h₁ hn hroom

theorem proper_new (C : Bytes → Prop) (limits : Limits) : (Engine.new limits).Proper C where
  toHeld := (steady_new limits).toHeld
  session := .ofWindow (.nil C limits _)
  others s hs := by
    rw [others_new] at hs
    cases hs
  typed _ ht := by cases ht

/-- Whatever its lines are, a text that can be reached is proper. -/
theorem Reachable.proper {e : Engine} (h : e.Reachable) : e.Proper fun _ => True := by
  refine (kept_proper lineKind_any).reachable (fun _ => trivial) (fun l => ?_) (fun _ => trivial)
    (fun _ _ => trivial) (proper_new _) h
  cases l with
  | file bytes => exact trivial
  | directory entries => exact fun _ _ => trivial

end Engine

end LineEditor
