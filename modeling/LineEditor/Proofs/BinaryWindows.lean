import LineEditor.Proofs.KeptRecords

/-!
# Binary windows

A window is binary from the moment that bytes with a zero among them are put into it, and then
patterns match its lines byte by byte. No edit touches that flag, and neither does an undo: the record
tells of lines, dot and labels, not of how they are matched.
-/

namespace LineEditor

/-- Bytes were read, and there is a zero among them. -/
def Traffic.readsNul : Traffic → Bool
  | .read _ (.ok bytes) => bytes.contains 0
  | _ => false

namespace Window

/-- At most the note of the end of the last line is another. -/
def SameFlags (w w' : Window) : Prop :=
  { w'.flags with noFinalNewline := w.flags.noFinalNewline } = w.flags

section
variable {w w' w'' : Window} {p p' : Pool}

theorem SameFlags.refl (w : Window) : w.SameFlags w := rfl

theorem SameFlags.trans (h : w.SameFlags w') (h' : w'.SameFlags w'') : w.SameFlags w'' := by
  unfold SameFlags at *
  rw [← h, ← h']

theorem Spliced.sameFlags {start remove added : Nat} (h : w.Spliced w' start remove added) :
    w.SameFlags w' := by
  unfold SameFlags
  rw [h.flags_eq]

theorem reviseLines_sameFlags {shift : Nat} {changes : List (Nat × List Bytes)}
    (h : w.reviseLines p shift changes = .ok (w', p')) : w.SameFlags w' := by
  -- on the changes, each one made to what the ones above it left
  induction changes generalizing w p shift with
  | nil =>
    cases h
    exact .refl _
  | cons c rest ih =>
    obtain ⟨w₁, p₁, hrevise, h⟩ := reviseLines_cons h
    have hline : w.SameFlags w₁ := (reviseLine_spliced hrevise).sameFlags
    have hdot (n : Nat) : w.SameFlags (w₁.setDot n) := hline
    exact (hdot _).trans (ih h)

end

end Window

theorem Edit.perform_sameFlags {change : Edit} {w w' : Window} {p p' : Pool}
    (h : change.perform w p = .ok (w', p')) : w.SameFlags w' := by
  cases change with
  | insert after lines => exact (Window.insertEntries_spliced h).sameFlags
  | delete start stop => exact (Window.deleteLines_spliced h).sameFlags
  | replace start stop lines => exact (Window.replaceLines_spliced h).sameFlags
  | copy start stop after => exact (Window.copyLines_spliced h).sameFlags
  | revise changes => exact Window.reviseLines_sameFlags h
  | move start stop after =>
    obtain ⟨w₁, hmove, heq⟩ := bind_eq_ok.mp h
    cases heq
    rw [Window.moveLines_eq] at hmove
    obtain ⟨-, hmove⟩ := guarded_eq_ok hmove
    obtain ⟨-, hmove⟩ := guarded_eq_ok hmove
    obtain ⟨-, hmove⟩ := guarded_eq_ok hmove
    cases hmove
    rfl

namespace Engine

/-- The lines of the current window are matched byte by byte just if `b` is true. -/
structure Matching (b : Bool) (e : Engine) : Prop extends e.Held where
  binary_eq : e.window.flags.binary = b

section
variable {e : Engine} {b : Bool}

theorem lineWork_matching (b : Bool) : LineWork (Matching b) freeTerms where
  held h := h.toHeld
  remember h r hr := ⟨((sustained_inPlace _).remember (.refl h.toHeld) r hr).toHeld, h.binary_eq⟩
  begin h _ _ _ := ⟨⟨h.vacant, h.accounts⟩, h.binary_eq⟩
  untype h := ⟨⟨h.vacant, h.accounts⟩, h.binary_eq⟩
  note h w hw := by
    refine ⟨((sustained_inPlace _).note (.refl h.toHeld) hw).toHeld, ?_⟩
    show w.flags.binary = b
    rw [hw.flags_eq]
    exact h.binary_eq
  mark h _ hl := ⟨((sustained_inPlace _).mark (.refl h.toHeld) hl).toHeld, h.binary_eq⟩
  record h _ _ hr := ⟨((sustained_inPlace _).record (.refl h.toHeld) hr).toHeld, h.binary_eq⟩
  plan h _ _ hr hz hall tail := (sustained_inPlace _).plan (.refl h.toHeld) hr hz hall tail
  edit h _ hfit hallow w _ hrun := by
    refine ⟨((sustained_inPlace _).edit (.refl h.toHeld) hfit hallow hrun).toHeld, ?_⟩
    have hsame := congrArg WindowFlags.binary (Edit.perform_sameFlags hrun)
    show w.noteEdit.flags.binary = b
    rw [w.noteEdit_flags]
    exact hsame.trans h.binary_eq

/-- The line was refused, or it made the window binary if `nul` is true and left it as it was if
not. -/
def Matches (b : Bool) (nul : Bool) : Post Engine Report
  | .ok _, e' => e'.Matching (b || nul)
  | .error _, _ => True

theorem Matching.done (h : e.Matching b) (answer : Except EditError Report) :
    Matches b false answer e := by
  cases answer with
  | ok report => rwa [Matches, Bool.or_false]
  | error err => exact trivial

end

end Engine

namespace EditM

section
variable {e : Engine} {b : Bool}

/-! ## Commands in the current window -/

theorem matches_done {x : EditM Report} (h : Leads x e fun _ e' => e'.Matching b) :
    Leads (.done <$> x) e (Engine.Brings fun x => Engine.Matches b x.readsNul) :=
  leads_done (h.mono fun answer _ h' => h'.done answer)

theorem typeLine_matching (hs : e.Steady) (h : e.Matching b) {entry : TextEntry}
    (hentry : e.entry = some entry) (text : List Char) :
    Leads (typeLine entry text) e fun _ e' => e'.Matching b := by
  have hI := Engine.lineWork_matching b
  unfold typeLine
  split
  · rw [leads_modify_bind]
    exact commitEntry_leads hI (hI.untype h) (hs.entry entry hentry).fits fun _ _ _ _ => trivial
  · rw [leads_modify_bind]
    exact leads_pure.mpr ⟨⟨h.vacant, h.accounts⟩, h.binary_eq⟩

theorem beginEntry_matching (h : e.Matching b) (after : Nat) (replace : Option (Nat × Nat)) :
    Leads (beginEntry after replace) e fun _ e' => e'.Matching b := by
  unfold beginEntry
  rw [leads_modify_bind]
  exact leads_pure.mpr ⟨⟨h.vacant, h.accounts⟩, h.binary_eq⟩

theorem insertFile_matches (h : e.Matching b) (path : List Char) (place : Nat) (bytes : Bytes) :
    Leads (insertFile path place bytes) e (Engine.Matches b (bytes.contains 0)) := by
  have hI := Engine.lineWork_matching b
  unfold insertFile checkCapacity
  rw [bind_assoc, leads_get_bind]
  refine leads_reads (e.view.checkCapacity_reads _) (fun _ _ => ?_) fun _ => trivial
  unfold rememberFile
  rw [leads_modifyWindow_bind]
  have hnamed : (e.setWindow { e.window with
      fileName := e.window.fileName <|> some path }).Matching b :=
    hI.note h ⟨rfl, rfl, rfl, rfl, rfl⟩
  cases bytes with
  | nil => exact leads_pure.mpr (hnamed.done _)
  | cons byte rest =>
    refine (maintains_snapshot hI.toLocal _ hnamed).then ?_ fun _ _ _ => trivial
    intro _ e₁ h₁
    refine (insertBulk_receives h₁.toHeld place _).then ?_ fun _ _ _ => trivial
    rintro n e₂ ⟨-, hreceived, hflags⟩
    have hplace := Engine.InPlace.read h₁.toHeld hreceived
    rw [leads_modifyWindow_bind]
    refine leads_pure.mpr ⟨hplace.toHeld, ?_⟩
    show e₂.window.noteEdit.flags.binary = _
    rw [e₂.window.noteEdit_flags, hflags]
    show (e₁.window.flags.binary || _) = _
    rw [h₁.binary_eq]
    rfl

theorem runRead_matches (h : e.Matching b) (range : LineRange) (tail : List Char) :
    Leads (runRead range tail) e (Engine.Brings fun x => Engine.Matches b x.readsNul) := by
  unfold runRead
  refine (targetFile_ends tail).leads.then ?_ fun _ _ _ => trivial
  rintro path _ ⟨rfl, -⟩
  refine leads_pure.mpr fun answer => ?_
  cases answer with
  | ok bytes => exact insertFile_matches h path range.stop bytes
  | error text => exact leads_throw.mpr trivial

theorem runFileName_matching (h : e.Matching b) (tail : List Char) :
    Leads (runFileName tail) e fun _ e' => e'.Matching b := by
  unfold runFileName
  dsimp only
  split
  case' isTrue => rw [leads_modifyWindow_bind]
  all_goals
    rw [leads_get_bind]
    split
    · exact leads_pure.mpr ⟨⟨h.vacant, h.accounts⟩, h.binary_eq⟩
    · exact leads_throw.mpr ⟨⟨h.vacant, h.accounts⟩, h.binary_eq⟩

theorem runCommand_matches (h : e.Matching b) {cmd : Option Command} (hcmd : worksInPlace cmd = true)
    {range : LineRange} (hall : cmd.all e.window.mode.allows = true) (hr : range.Within e.window.dol)
    (hz : 0 < range.start ∨ cmd.any Command.allowsZero) (tail : List Char) :
    Leads (runCommand cmd range tail) e (Engine.Brings fun x => Engine.Matches b x.readsNul) := by
  have hI := Engine.lineWork_matching b
  have hbegin (letter : Char) (place : Nat) (replace : Option (Nat × Nat)) : Leads (do
      liftExcept (noTail letter tail)
      beginEntry place replace) e fun _ e' => e'.Matching b :=
    leads_reads (noTail_reads letter tail) (fun _ _ => beginEntry_matching h place replace) fun _ => h
  unfold runCommand
  cases cmd with
  | none => exact matches_done (runLine_leads hI h false none hr hz hall tail)
  | some cmd =>
    cases cmd with
    | line c => exact matches_done (runLine_leads hI h false (some c) hr hz hall tail)
    | append => exact matches_done (hbegin _ _ _)
    | insert => exact matches_done (hbegin _ _ _)
    | change =>
      refine matches_done (leads_reads (noTail_reads _ tail) (fun _ _ => ?_) fun _ => h)
      exact leads_bind.mpr (leads_lift.mpr fun place _ => beginEntry_matching h place _)
    | global inverted => exact matches_done (maintains_runGlobal hI inverted range tail e h)
    | fileName => exact matches_done (runFileName_matching h tail)
    | read => exact runRead_matches h range tail
    | _ => cases hcmd

/-! ## Lines of input -/

/-- Where the text is reported to have changed, it was by a command that works in place. -/
theorem dispatch_matches (hs : e.Steady) (line : List Char) :
    Leads (dispatch line) e (Engine.Brings fun x answer e' => ∀ report, answer = .ok report →
      report.changed = true → Engine.Matches e.window.flags.binary x.readsNul answer e') := by
  have h : e.Matching e.window.flags.binary := ⟨hs.toHeld, rfl⟩
  unfold dispatch
  rw [leads_get_bind]
  split
  · rename_i entry hentry
    refine (matches_done (typeLine_matching hs h hentry _)).mono fun answer e' hb => ?_
    exact hb.mono fun _ _ _ hm _ _ _ => hm
  · rename_i hn
    refine execute_leads (fun _ _ _ hr => by cases hr) (fun _ _ _ _ _ hr => by cases hr) ?_
    intro q _ range hrange hall r
    obtain ⟨hr, hz⟩ := Engine.rangeOf_within hs.toHeld.readable hrange
    have h₁ : ((e.begun q.command).withRecall r).Matching e.window.flags.binary := by
      rw [Engine.begun_eq]
      exact ⟨⟨h.vacant, h.accounts⟩, rfl⟩
    have hwindow : ((e.begun q.command).withRecall r).window.mode = e.window.mode ∧
        ((e.begun q.command).withRecall r).window.dol = e.window.dol := by
      rw [Engine.begun_eq]
      exact ⟨rfl, rfl⟩
    cases hwork : worksInPlace q.command with
    | true =>
      refine (runCommand_matches h₁ hwork (hwindow.1 ▸ hall) (hwindow.2 ▸ hr) hz q.tail).mono
        fun answer e' hb => ?_
      exact hb.mono fun _ _ _ hm _ _ _ => hm
    | false =>
      have hidle := (Engine.Idle.mk hs hn).begun q.command r
      refine (runCommand_elsewhere hidle.toSound hwork range q.tail).mono fun answer e' hb => ?_
      refine hb.mono fun _ _ _ helse report hanswer hchanged => ?_
      subst hanswer
      rw [helse.1] at hchanged
      cases hchanged

end

end EditM

namespace Engine

section
variable {e e₁ : Engine}

/-- After a line that changed the text and an undo, the window is binary if it was, and also if the
line read bytes with a zero among them; in every other case patterns match as they did. -/
theorem Reachable.undo_keeps_binary (h : e.Reachable) {storage : Storage σ} {line : List Char}
    {disk disk' : σ} {report : Report}
    (hrun : e.dispatchOn storage line disk = .ok (.ok report, e₁, disk'))
    (hchanged : report.changed = true) : ∃ e₂,
      (∀ {τ : Type} (s : Storage τ) d,
        e₁.dispatchOn s ['u'] d = .ok (.ok (.ofSwitch []), e₂, d)) ∧
      e₂.window.id = e.window.id ∧ (∀ n, e₂.window.text? e₂.pool n = e.window.text? e.pool n) ∧
      e₂.window.flags.binary = (e.window.flags.binary || (e.traffic storage line disk).readsNul) ∧
      ((e.traffic storage line disk).readsNul = false ∨ e.window.flags.binary = true →
        ∀ source ignoreCase, e₂.window.compile source ignoreCase = e.window.compile source ignoreCase) := by
  have hs := h.steady
  have hsettled := (dispatchOn_settles hs storage line disk).of_eq hrun
  have hrec := hsettled.2 hchanged
  have hmatching : e₁.Matching _ :=
    dispatchOn_brings (EditM.dispatch_matches hs line) hrun report rfl hchanged
  have hready : e₁.Ready := ⟨⟨hsettled.steady, hrec.untyped⟩, hrec.calm⟩
  have hbinary : (e₁.undone (UndoSlot.recordOf e.window e.window.lines.clearMarks)).window.flags.binary =
      (e.window.flags.binary || (e.traffic storage line disk).readsNul) := hmatching.binary_eq
  refine ⟨_, fun s d => dispatchOn_undo hready hrec.record_eq hrec.id_eq.symm s d, hrec.id_eq,
    Window.text?_congr hs.unmarked.clearMarks_eq hrec.keeps, hbinary, fun hsame source ignoreCase => ?_⟩
  have hkept : (e.window.flags.binary || (e.traffic storage line disk).readsNul) =
      e.window.flags.binary := by
    rcases hsame with hnul | hb
    · rw [hnul, Bool.or_false]
    · rw [hb, Bool.true_or]
  unfold Window.compile
  rw [hbinary, hkept]

/-- Deleting a line reads nothing, and once it is undone patterns match as before. -/
theorem undo_keeps_binary_delete : ∃ e e₁ e₂ report,
    (Engine.new ⟨1, 10, 100⟩).perform (.insertBulk 0 [97, 0, 10, 98, 10]) = .ok e ∧
      e.dispatchOn FileTree.storage ['d'] .empty = .ok (.ok report, e₁, .empty) ∧
      e₁.dispatchOn FileTree.storage ['u'] .empty = .ok (.ok (.ofSwitch []), e₂, .empty) ∧
      e.window.flags.binary = true ∧ e₂.window.flags.binary = true ∧
      ∀ source ignoreCase, e₂.window.compile source ignoreCase = e.window.compile source ignoreCase := by
  obtain ⟨e, he, hs⟩ := (steady_new ⟨1, 10, 100⟩).perform (.insertBulk 0 [97, 0, 10, 98, 10])
  obtain ⟨⟨answer, e₁, disk⟩, hrun, -⟩ := dispatchOn_settles hs FileTree.storage ['d'] .empty
  have hvalues : ((Engine.new ⟨1, 10, 100⟩).perform (.insertBulk 0 [97, 0, 10, 98, 10]) >>= fun e =>
      (e.dispatchOn FileTree.storage ['d'] .empty).map fun r =>
        (r.1, r.2.2, e.window.flags.binary)) = .ok (.ok (.ofEdit true []), .empty, true) := by
    decide +kernel
  rw [he] at hvalues
  change (e.dispatchOn FileTree.storage ['d'] .empty).map _ = _ at hvalues
  rw [hrun] at hvalues
  obtain ⟨rfl, hrest⟩ := Prod.mk.inj (Except.ok.inj hvalues)
  obtain ⟨rfl, hb⟩ := Prod.mk.inj hrest
  obtain ⟨e₂, hundo, -, -, hbinary, hcompile⟩ :=
    Reachable.undo_keeps_binary (.call _ (.new ⟨1, 10, 100⟩) he) hrun rfl
  refine ⟨e, e₁, e₂, _, he, hrun, hundo _ _, hb, ?_, hcompile (.inr hb)⟩
  rw [hbinary, hb, Bool.true_or]

/-- A file with a zero byte is read and the reading is undone: the window is empty again, but a letter
of two bytes that was one character to a pattern is two from now on. -/
theorem undo_leaves_binary : ∃ e e₁ e₂ d₁ d₂ report, e = Engine.new ⟨1, 10, 100⟩ ∧
    e.dispatchOn FileTree.storage ['r', ' ', 'f'] ⟨[([[102]], .file [0])]⟩ = .ok (.ok report, e₁, d₁) ∧
    report.changed = true ∧
    e₁.dispatchOn FileTree.storage ['u'] d₁ = .ok (.ok (.ofSwitch []), e₂, d₂) ∧
    e.window.flags.binary = false ∧ e₂.window.flags.binary = true ∧ e₂.window.lines = e.window.lines ∧
    ((e.window.compile ['^', '.', '$'] false).map fun m => m.isMatch [0xC3, 0xA9]) = .ok true ∧
    ((e₂.window.compile ['^', '.', '$'] false).map fun m => m.isMatch [0xC3, 0xA9]) = .ok false := by
  have hall : ((Engine.new ⟨1, 10, 100⟩).dispatchOn FileTree.storage ['r', ' ', 'f']
        ⟨[([[102]], .file [0])]⟩ >>= fun r₁ =>
      r₁.2.1.dispatchOn FileTree.storage ['u'] r₁.2.2 >>= fun r₂ =>
        return (r₁.1, r₂.1, r₂.2.1.window.flags.binary, r₂.2.1.window.lines)) =
      .ok (.ok (.ofEdit true ["1"]), .ok (.ofSwitch []), true, []) := by decide +kernel
  have htext : ((compilePattern ['^', '.', '$'] false false).map fun m => m.isMatch [0xC3, 0xA9]) =
      .ok true := by decide +kernel
  have hbytes : ((compilePattern ['^', '.', '$'] false true).map fun m => m.isMatch [0xC3, 0xA9]) =
      .ok false := by decide +kernel
  obtain ⟨⟨answer₁, e₁, d₁⟩, h₁, hall⟩ := bind_eq_ok.mp hall
  obtain ⟨⟨answer₂, e₂, d₂⟩, h₂, hall⟩ := bind_eq_ok.mp hall
  have hvalues := Except.ok.inj hall
  simp only [Prod.mk.injEq] at hvalues
  obtain ⟨rfl, rfl, hb, hlines⟩ := hvalues
  refine ⟨_, e₁, e₂, d₁, d₂, _, rfl, h₁, rfl, h₂, rfl, hb, hlines, htext, ?_⟩
  unfold Window.compile
  rw [hb]
  exact hbytes

end

end Engine

end LineEditor
