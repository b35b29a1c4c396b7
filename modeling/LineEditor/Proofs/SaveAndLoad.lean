import LineEditor.Proofs.StoredLines

/-!
# Saving and loading

A text that is written to a file and loaded again is the text that was written. Reading the window,
counting the lines of the file and cutting it into lines agree, because the note that the last line
has no newline is never about an empty line; only in an empty window does it say nothing.
-/

namespace LineEditor

/-! ## Lines that name a file -/

/-- A path as it can be typed behind a letter, and that is not the number of a session. -/
structure IsPath (path : List Char) : Prop where
  ne_nil : path ≠ []
  trim_eq : Unicode.trim path = path
  not_number : path.all Char.isDigit = false

theorem Unicode.trim_space_cons (s : List Char) : trim (' ' :: s) = trim s := by
  have hspace : isSpace ' ' = true := by decide +kernel
  unfold trim trimStart
  rw [List.dropWhile_cons_of_pos hspace]

section
variable {path : List Char}

theorem IsPath.getLast?_ne_newline (h : IsPath path) : path.getLast? ≠ some '\n' := by
  have hspace : Unicode.isSpace '\n' = true := by decide +kernel
  intro hlast
  have htrim : path.reverse = ((Unicode.trimStart path).reverse).dropWhile Unicode.isSpace := by
    conv_lhs => rw [← h.trim_eq]
    rw [Unicode.trim, List.reverse_reverse]
  have hhead := List.head?_dropWhile_not Unicode.isSpace (Unicode.trimStart path).reverse
  rw [← htrim, List.head?_reverse, hlast] at hhead
  have hnot : Unicode.isSpace '\n' = false := hhead
  rw [hspace] at hnot
  cases hnot

theorem IsPath.withoutNewline (h : IsPath path) (letter : Char) :
    EditM.withoutNewline (letter :: ' ' :: path) = letter :: ' ' :: path := by
  obtain ⟨c, rest, rfl⟩ := List.exists_cons_of_ne_nil h.ne_nil
  have hlast := h.getLast?_ne_newline
  unfold EditM.withoutNewline
  rw [List.getLast?_cons_cons, List.getLast?_cons_cons, if_neg hlast]

end

/-! ## Saving -/

namespace Engine

/-- The engine after its window was written to the file at `path` as a whole. -/
def saved (e : Engine) (path : List Char) : Engine :=
  { e.setWindow { e.window with
      fileName := e.window.fileName <|> some path
      flags.changed := false } with
    quitArmed := false }

def blob (e : Engine) : Bytes :=
  Blob.join (e.pool.texts e.window.lines) !e.window.flags.noFinalNewline

def whole (e : Engine) : LineRange := ⟨min e.window.dol 1, e.window.dol, 0⟩

end Engine

namespace EditM

section
variable {e : Engine} {path : List Char}

theorem targetFile_path (h : IsPath path) :
    Ends (targetFile (' ' :: path)) e (.sure fun name e' => name = path ∧ e' = e) := by
  have hname : Unicode.trim (' ' :: path) = path := (Unicode.trim_space_cons path).trans h.trim_eq
  have hsome : path.isEmpty = false := by simpa using h.ne_nil
  unfold targetFile
  dsimp only
  rw [hname, hsome, if_neg (by simp)]
  exact ends_pure.mpr ⟨rfl, rfl⟩

theorem noteWritten_whole (count : Nat) :
    Ends (noteWritten path e.whole false count) { e with quitArmed := false }
      (.sure fun _ e' => e' = e.saved path) := by
  have hwhole : (decide (e.whole.start ≤ 1) && decide (e.whole.stop = e.window.dol)) = true := by
    simp [Engine.whole]
  unfold noteWritten rememberFile
  rw [ends_get_bind, ends_modifyWindow_bind]
  dsimp only
  rw [show ({ e with quitArmed := false } : Engine).window = e.window from rfl, hwhole,
    if_pos (by decide), ends_modifyWindow_bind, ends_pure]
  rfl

theorem dispatch_write (h : e.Idle) (hpath : IsPath path) :
    Ends (dispatch ('w' :: ' ' :: path)) e (.sure fun progress e' =>
      (progress = .write path e.blob false fun answer => do
        noteWritten path e.whole false (← liftExcept (ofStorage path answer))) ∧
      e' = { e with quitArmed := false }) := by
  have hparse : CommandLine.parse ('w' :: ' ' :: path) =
      .ok ⟨.default, some Command.write.letter, ' ' :: path⟩ := CommandLine.parse_letter .write _
  have hmode : e.window.mode.allows .write = true := by cases e.window.mode <;> rfl
  have hrange : effectiveRange e.window.dot e.window.dol false (some .write) none = .ok e.whole :=
    if_neg (Nat.lt_irrefl _)
  rw [dispatch_untyped h.untyped, hpath.withoutNewline]
  refine execute_known hparse hmode rfl hrange ?_
  rw [if_neg (by decide)]
  unfold runCommand runWrite
  dsimp only
  refine (targetFile_path hpath).sure_then ?_
  rintro _ _ ⟨rfl, rfl⟩
  have hextract : Ends (extractRange e.whole.start e.whole.stop) { e with quitArmed := false }
      (.sure fun bytes e' => bytes = e.blob ∧ e' = { e with quitArmed := false }) :=
    ⟨_, extractRange_whole (e := { e with quitArmed := false }) h.toHeld.readable
      (Nat.min_le_right _ _) fun hdol => Nat.min_eq_right (Nat.pos_of_ne_zero hdol), rfl, rfl⟩
  refine hextract.sure_then ?_
  rintro _ _ ⟨rfl, rfl⟩
  exact ends_pure.mpr ⟨rfl, rfl⟩

end

end EditM

namespace Engine

section
variable {e : Engine} {path : List Char}

theorem dispatchOn_of_dispatch {line : List Char} {progress : Progress} {e₁ : Engine}
    (h : Ends (EditM.dispatch line) e (.sure fun p s => p = progress ∧ s = e₁))
    (storage : Storage σ) (disk : σ) : e.dispatchOn storage line disk =
      (e₁.run (progress.complete storage disk).1 >>= fun r =>
        return (r.1, r.2, (progress.complete storage disk).2)) := by
  obtain ⟨⟨answer, s⟩, hrun, hp⟩ := h
  have hdispatch : e.run (EditM.dispatch line) = .ok (answer, s) := hrun
  cases answer with
  | error err => exact hp.elim
  | ok p =>
    obtain ⟨rfl, rfl⟩ := hp
    unfold dispatchOn
    rw [hdispatch]
    rfl

/-- Where the command succeeds, the window was written and there is nothing more to be saved. -/
theorem saved_of_dispatchOn (h : e.Idle) (hpath : IsPath path) {storage : Storage σ}
    {disk disk' : σ} {report : Report} {e' : Engine}
    (hrun : e.dispatchOn storage ('w' :: ' ' :: path) disk = .ok (.ok report, e', disk')) :
    e' = e.saved path ∧ ∃ n, storage.write disk path e.blob false = (.ok n, disk') := by
  rw [dispatchOn_of_dispatch (EditM.dispatch_write h hpath)] at hrun
  cases hw : storage.write disk path e.blob false with
  | mk answer disk₂ =>
    simp only [Progress.complete, hw] at hrun
    obtain ⟨⟨last, e₂⟩, hlast, heq⟩ := bind_eq_ok.mp hrun
    cases heq
    cases answer with
    | error text => cases hlast
    | ok n => exact ⟨(EditM.noteWritten_whole n).of_eq hlast, n, rfl⟩

end

end Engine

/-! ## Loading -/

/-- The window shows what was loaded from a file of these bytes. -/
structure Engine.Displays (e : Engine) (bytes : Bytes) : Prop extends e.Held where
  texts_eq : e.pool.texts e.window.lines = (Blob.split bytes).lines
  dot_eq : e.window.dot = e.window.dol
  flags_eq : e.window.flags = { WindowFlags.none with
    binary := (Blob.split bytes).hasNul
    noFinalNewline := !(Blob.split bytes).finalNewline }

namespace EditM

section
variable {e : Engine} {path : List Char}

theorem pushWindow_flags (flags : WindowFlags) :
    Leads (pushWindow flags) e fun _ e' => e'.window.flags = flags := by
  unfold pushWindow
  rw [leads_get_bind]
  exact leads_bind.mpr (leads_set.mpr (leads_pure.mpr rfl))

theorem replaceWindow_flags (flags : WindowFlags) :
    Leads (replaceWindow flags) e fun _ e' => e'.window.flags = flags := by
  unfold replaceWindow
  rw [leads_get_bind]
  refine leads_bind.mpr (leads_lift.mpr fun r _ => ?_)
  refine leads_bind.mpr (leads_lift.mpr fun q _ => ?_)
  exact leads_bind.mpr (leads_set.mpr (leads_pure.mpr rfl))

/-- A window opened for what was loaded is empty and has no flags. -/
theorem openWindow_ends (h : e.Steady) (onTop : Bool) {f : EditM Report} {post : Post Engine Report}
    (hf : ∀ e', e.Opened e' → e'.window.flags = .none → Ends f e' post) :
    Ends (if onTop then (do let _ ← pushWindow .none; f) else (do let _ ← replaceWindow .none; f)) e
      post := by
  split
  · refine ((pushWindow_ends h .none).and (pushWindow_flags .none)).then ?_ fun _ _ hp => hp.1.elim
    exact fun _ e' hp => hf e' hp.1 hp.2
  · refine ((replaceWindow_ends h .none).and (replaceWindow_flags .none)).then ?_
      fun _ _ hp => hp.1.elim
    exact fun _ e' hp => hf e' hp.1 hp.2

theorem insertBulk_displays (h : e.Steady) (hdol : e.window.dol = 0)
    (hflags : e.window.flags = .none) {bytes : Bytes}
    (hsize : Blob.countLines bytes ≤ e.limits.lines) :
    Ends (insertBulk 0 bytes) e (.sure fun _ e' => e'.Displays bytes) := by
  have hfit : e.window.dol + (Blob.split bytes).lines.length ≤ e.limits.lines := by
    rw [hdol, Nat.zero_add, ← Blob.countLines_eq]
    exact hsize
  have hput := Enters.sure ⟨Nat.zero_le _, hfit⟩ (insertBulk_ends h.toSound 0 bytes)
  refine (hput.and (insertBulk_receives h.toHeld 0 bytes)).mono fun answer e' hp => ?_
  cases answer with
  | error err => exact hp.1.elim
  | ok n =>
    obtain ⟨hw, -, hrec, hbulk⟩ := hp
    have hnil : e.pool.texts e.window.lines = [] := by
      rw [← List.length_eq_zero_iff, Pool.length_texts]
      exact hdol
    have hlines : e'.window.dol = (Blob.split bytes).lines.length := by
      rw [hrec.dol_eq, hdol, Nat.zero_add, List.length_map]
    refine ⟨hrec.held h.toHeld, ?_, ?_, ?_⟩
    · rw [hrec.texts_eq, hnil, Row.map_text_plain]
      simp [Sequence.splice]
    · -- nothing that comes in moves dot, which is on the place before the first line
      by_cases hne : (Blob.split bytes).lines = []
      · have hle : e'.window.dot ≤ e'.window.dol := hw.sound.consistent.dot_le
        rw [hne, List.length_nil] at hlines
        omega
      · rw [hrec.dot_eq (by simpa using hne), hlines, List.length_map, Nat.zero_add]
    · by_cases hne : bytes = []
      · rw [hbulk, bulkFlags, hflags, hne]
        simp [Blob.split, Blob.endsLine, WindowFlags.none]
      · have hsome : (Blob.split bytes).lines.isEmpty = false := by
          simpa using Blob.split_lines_ne_nil hne
        rw [hbulk, bulkFlags, hflags, hdol, hsome]
        simp [WindowFlags.none]

theorem showLoaded_file (h : e.Steady) (path : List Char) (onTop : Bool) {bytes : Bytes}
    (hsize : Blob.countLines bytes ≤ e.limits.lines) :
    Ends (showLoaded path onTop (.file bytes)) e (.sure fun _ e' => e'.Displays bytes) := by
  unfold showLoaded
  rw [ends_get_bind]
  dsimp only
  rw [if_neg (Nat.not_lt.mpr hsize)]
  refine openWindow_ends h onTop fun e₁ h₁ hflags => ?_
  rw [← h₁.limits_eq] at hsize
  refine (insertBulk_displays h₁.toSteady h₁.dol_eq hflags hsize).sure_then fun _ e₂ hd => ?_
  rw [pure_bind, ends_modifyWindow_bind, ends_pure]
  exact ⟨⟨hd.vacant, hd.accounts⟩, hd.texts_eq, hd.dot_eq, hd.flags_eq⟩

theorem dispatch_edit (h : e.Idle) (hpath : IsPath path) (hsaved : e.window.flags.changed = false) :
    Ends (dispatch ('e' :: ' ' :: path)) e (.sure fun progress e' =>
      (progress = .load path fun answer => do
        showLoaded path e.window.flags.browsing (← liftExcept (ofStorage path answer))) ∧
      e' = { e with quitArmed := e.window.flags.browsing && e.quitArmed }) := by
  have hparse : CommandLine.parse ('e' :: ' ' :: path) =
      .ok ⟨.default, some Command.edit.letter, ' ' :: path⟩ := CommandLine.parse_letter .edit _
  have hmode : e.window.mode.allows .edit = true := by cases e.window.mode <;> rfl
  have hrange : effectiveRange e.window.dot e.window.dol false (some .edit) none =
      .ok ⟨e.window.dot, e.window.dot, 0⟩ := if_neg (Nat.not_lt.mpr h.consistent.dot_le)
  have hname : Unicode.trim (' ' :: path) = path := (Unicode.trim_space_cons path).trans hpath.trim_eq
  have hsome : path.isEmpty = false := by simpa using hpath.ne_nil
  rw [dispatch_untyped h.untyped, hpath.withoutNewline]
  refine execute_known hparse hmode rfl hrange ?_
  rw [if_pos (by decide)]
  unfold runCommand runEdit
  dsimp only
  rw [hname, hsome, if_neg (by simp), hpath.not_number, if_neg (by simp), ends_get_bind]
  cases hb : e.window.flags.browsing with
  | true => exact ends_pure.mpr ⟨rfl, rfl⟩
  | false =>
    have hguard : Ends (guardUnsaved e.window.flags.changed) e
        (.sure fun _ e' => e' = { e with quitArmed := false }) := by
      unfold guardUnsaved
      rw [hsaved, ends_get_bind, Bool.false_and, if_neg (by decide)]
      exact ends_modify.mpr rfl
    refine hguard.sure_then ?_
    rintro _ _ rfl
    exact ends_pure.mpr ⟨rfl, rfl⟩

end

end EditM

namespace Engine

section
variable {e : Engine} {path : List Char}

theorem dispatchOn_edit (h : e.Idle) (hpath : IsPath path) (hsaved : e.window.flags.changed = false)
    {storage : Storage σ} {disk : σ} {bytes : Bytes}
    (hload : storage.load disk path = .ok (.file bytes))
    (hsize : Blob.countLines bytes ≤ e.limits.lines) :
    ∃ report e', e.dispatchOn storage ('e' :: ' ' :: path) disk = .ok (.ok report, e', disk) ∧
      e'.Displays bytes := by
  have hidle := (e.unaltered_armed (e.window.flags.browsing && e.quitArmed)).idle h
  obtain ⟨⟨answer, e'⟩, hrun, hp⟩ :=
    EditM.showLoaded_file hidle.toSteady path e.window.flags.browsing hsize
  cases answer with
  | error err => exact hp.elim
  | ok report =>
    refine ⟨report, e', ?_, hp⟩
    rw [dispatchOn_of_dispatch (EditM.dispatch_edit h hpath hsaved)]
    simp only [Progress.complete, hload]
    exact bind_eq_ok.mpr ⟨_, hrun, rfl⟩

/-- A window without newlines in its lines that was written to a file and is loaded from there is
shown as it was, with the current line at the end and nothing to be saved, and with a note on what
bytes there are. Only an empty window loses the note that its last line has no newline. -/
theorem Reachable.write_then_edit (h : e.Reachable) (hn : e.entry = none) (hpath : IsPath path)
    {lines : List Bytes} (hlines : e.window.texts e.pool 1 e.window.dol = .ok lines)
    (hnl : ∀ line ∈ lines, Bytes.newline ∉ line) {storage : Storage σ} {disk disk' : σ}
    {report : Report} {e' : Engine}
    (hwrite : e.dispatchOn storage ('w' :: ' ' :: path) disk = .ok (.ok report, e', disk'))
    (hback : ∀ bytes n, storage.write disk path bytes false = (.ok n, disk') →
      storage.load disk' path = .ok (.file bytes)) :
    ∃ report' e'', e'.dispatchOn storage ('e' :: ' ' :: path) disk' = .ok (.ok report', e'', disk') ∧
      e''.window.texts e''.pool 1 e''.window.dol = .ok lines ∧
      e''.window.flags.noFinalNewline = (e.window.flags.noFinalNewline && !lines.isEmpty) ∧
      e''.window.dot = e''.window.dol ∧ e''.window.flags.changed = false ∧
      (e''.window.flags.binary = true ↔ ∃ line ∈ lines, 0 ∈ line) := by
  have hidle : e.Idle := ⟨h.steady, hn⟩
  have htexts : e.pool.texts e.window.lines = lines := by
    rw [hidle.toHeld.texts_eq] at hlines
    exact Except.ok.inj hlines
  have hproper : ProperText (fun line => Bytes.newline ∉ line) e.limits
      (e.pool.texts e.window.lines) e.window.flags.noFinalNewline :=
    ⟨h.proper.session.current.size_le, h.proper.session.current.last_ne_nil, htexts ▸ hnl⟩
  obtain ⟨rfl, n, hw⟩ := saved_of_dispatchOn hidle hpath hwrite
  have hsaved : (e.saved path).Idle :=
    ⟨((dispatchOn_settles hidle.toSteady storage _ disk).of_eq hwrite).steady, hn⟩
  have hsize : Blob.countLines e.blob ≤ e.limits.lines := hproper.countLines_join ▸ hproper.size_le
  obtain ⟨report', e'', hrun, hd⟩ := dispatchOn_edit hsaved hpath rfl (hback _ _ hw) hsize
  refine ⟨report', e'', hrun, ?_, ?_, hd.dot_eq, ?_, ?_⟩
  · rw [hd.toHeld.texts_eq, hd.texts_eq, ← htexts]
    exact congrArg _ hproper.split_join.1
  · rw [hd.flags_eq, ← htexts]
    show (!(Blob.split e.blob).finalNewline) = _
    rw [blob, hproper.split_join.2, Bool.not_not]
  · rw [hd.flags_eq]
    rfl
  · rw [hd.flags_eq, ← htexts]
    exact (Blob.hasNul_split _).trans (Blob.zero_mem_join _)

/-- Two lines, with a zero byte in the last one and no newline behind it. -/
theorem write_then_edit_two_lines : ∃ e e' e'' disk report report',
    (Engine.new ⟨1, 10, 100⟩).perform (.insertBulk 0 [97, 10, 0, 98]) = .ok e ∧
      e.dispatchOn FileTree.storage ['w', ' ', 'p'] .empty = .ok (.ok report, e', disk) ∧
      e'.dispatchOn FileTree.storage ['e', ' ', 'p'] disk = .ok (.ok report', e'', disk) ∧
      e''.window.texts e''.pool 1 e''.window.dol = .ok [[97], [0, 98]] ∧
      e''.window.flags.noFinalNewline = true ∧ e''.window.flags.binary = true := by
  have hall : ((Engine.new ⟨1, 10, 100⟩).perform (.insertBulk 0 [97, 10, 0, 98]) >>= fun e =>
      e.dispatchOn FileTree.storage ['w', ' ', 'p'] .empty >>= fun r => return (r.1, r.2.2)) =
      .ok (.ok (.ofOutput ["4"]), ⟨[([[112]], .file [97, 10, 0, 98])]⟩) := by decide +kernel
  obtain ⟨e, he, hall⟩ := bind_eq_ok.mp hall
  obtain ⟨⟨answer, e', disk⟩, hw, hall⟩ := bind_eq_ok.mp hall
  cases hall
  have hstart : e.window.texts e.pool 1 e.window.dol = .ok [[97], [0, 98]] ∧ e.entry = none ∧
      e.window.flags.noFinalNewline = true := by
    cases he
    exact ⟨rfl, rfl, rfl⟩
  obtain ⟨hlines, hn, hold⟩ := hstart
  have hpath : IsPath ['p'] := ⟨by decide, by decide +kernel, by decide⟩
  have hback (bytes : Bytes) (n : Nat)
      (hwrite : FileTree.storage.write .empty ['p'] bytes false =
        (.ok n, ⟨[([[112]], .file [97, 10, 0, 98])]⟩)) :
      FileTree.storage.load ⟨[([[112]], .file [97, 10, 0, 98])]⟩ ['p'] = .ok (.file bytes) := by
    have hdisk : FileTree.storage.write .empty ['p'] bytes false =
        (.ok bytes.length, ⟨[([[112]], .file bytes)]⟩) := rfl
    rw [hdisk] at hwrite
    cases hwrite
    rfl
  obtain ⟨report', e'', hload, htexts, hfinal, -, -, hbinary⟩ := Reachable.write_then_edit
    (.call _ (.new _) he) hn hpath hlines (by decide) hw hback
  refine ⟨e, e', e'', _, _, report', he, hw, hload, htexts, ?_, hbinary.mpr (by decide)⟩
  rw [hfinal, hold]
  rfl

/-- In an empty window the note that the last line has no newline says nothing, and a file cannot
keep it. -/
theorem empty_window_loses_note : ∃ e e' e'' disk report report',
    (Engine.new ⟨1, 10, 100⟩).perform (.pushWindow { WindowFlags.none with noFinalNewline := true }) =
      .ok e ∧
      e.dispatchOn FileTree.storage ['w', ' ', 'p'] .empty = .ok (.ok report, e', disk) ∧
      e'.dispatchOn FileTree.storage ['e', ' ', 'p'] disk = .ok (.ok report', e'', disk) ∧
      e.window.flags.noFinalNewline = true ∧ e''.window.flags.noFinalNewline = false := by
  have hall : ((Engine.new ⟨1, 10, 100⟩).perform
      (.pushWindow { WindowFlags.none with noFinalNewline := true }) >>= fun e =>
      e.dispatchOn FileTree.storage ['w', ' ', 'p'] .empty >>= fun r =>
        r.2.1.dispatchOn FileTree.storage ['e', ' ', 'p'] r.2.2 >>= fun q =>
          return (r.1, r.2.2, q.1, q.2.2, e.window.flags.noFinalNewline,
            q.2.1.window.flags.noFinalNewline)) =
      .ok (.ok (.ofOutput ["0"]), ⟨[([[112]], .file [])]⟩, .ok (.ofSwitch ["0"]),
        ⟨[([[112]], .file [])]⟩, true, false) := by decide +kernel
  obtain ⟨e, he, hall⟩ := bind_eq_ok.mp hall
  obtain ⟨⟨answer, e', disk⟩, hw, hall⟩ := bind_eq_ok.mp hall
  obtain ⟨⟨answer', e'', disk'⟩, hload, hall⟩ := bind_eq_ok.mp hall
  have hvalues := Except.ok.inj hall
  simp only [Prod.mk.injEq] at hvalues
  obtain ⟨rfl, rfl, rfl, rfl, hold, hnew⟩ := hvalues
  exact ⟨e, e', e'', _, _, _, he, hw, hload, hold, hnew⟩

end

end Engine

end LineEditor
