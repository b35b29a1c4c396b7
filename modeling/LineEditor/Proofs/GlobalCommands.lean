import LineEditor.Proofs.LineCommands

/-!
# Global commands

Marks hold nothing, so marking keeps the accounts. Each visit is work in the recorded window, and so
is every run of visits, by induction on their number; whether the run ends or stops half way, the
record is still the one made before it. No mark is left at the end.
-/

namespace LineEditor

namespace LineMap

theorem clearMarks_modify (m : LineMap) (i : Nat) (on : Bool) :
    clearMarks (m.modify i fun x => { x with marked := on }) = m.clearMarks := by
  unfold clearMarks
  refine List.ext_getElem? fun j => ?_
  rw [List.getElem?_map, List.getElem?_modify, List.getElem?_map]
  cases m[j]? with
  | none => rfl
  | some x =>
    simp only [Option.map_eq_map, Option.map_some]
    split <;> rfl

/-- A run of entries with new marks is the run itself but for the marks. -/
theorem unmark_zipWith : ∀ (m : LineMap) (hits : List Bool),
    (m.zipWith (fun x hit => { x with marked := hit }) hits).map Entry.unmark =
      (m.take hits.length).map Entry.unmark
  | [], _ => by simp
  | _ :: _, [] => by simp
  | x :: m, hit :: hits => by
    simp only [List.zipWith_cons_cons, List.map_cons, List.length_cons, List.take_succ_cons,
      unmark_zipWith m hits]
    rfl

theorem clearMarks_markRun (m : LineMap) (before : Nat) (hits : List Bool) :
    (m.markRun before hits).clearMarks = m.clearMarks := by
  have hm : m = m.take before ++ ((m.drop before).take hits.length ++ m.drop (before + hits.length)) := by
    rw [← List.drop_drop, List.take_append_drop, List.take_append_drop]
  conv_rhs => rw [hm]
  unfold markRun clearMarks
  simp only [List.map_append, unmark_zipWith, List.append_assoc, List.map_map]
  rfl

theorem contents_of_clearMarks_eq {l m : LineMap} (h : l.clearMarks = m.clearMarks) :
    l.contents = m.contents := by
  rw [← contents_clearMarks l, h, contents_clearMarks]

theorem nextMarkedBehind?_le {m : LineMap} {before n : Nat} (h : m.nextMarkedBehind? before = some n) :
    1 ≤ n ∧ n ≤ m.length := by
  unfold nextMarkedBehind? at h
  obtain ⟨i, hi, rfl⟩ := Option.map_eq_some_iff.mp h
  obtain ⟨hlt, -⟩ := List.findIdx?_eq_some_iff_getElem.mp hi
  rw [List.length_drop] at hlt
  omega

theorem nextMarked?_le {m : LineMap} {n k : Nat} (h : m.nextMarked? n = some k) :
    1 ≤ k ∧ k ≤ m.length := by
  unfold nextMarked? at h
  cases hb : m.nextMarkedBehind? (n - 1) with
  | some j =>
    rw [hb] at h
    cases h
    exact nextMarkedBehind?_le hb
  | none =>
    rw [hb] at h
    exact nextMarkedBehind?_le h

end LineMap

namespace Engine

section
variable {e : Engine}

/-- How a global command may come out: the window was recorded, or nothing was done. -/
def Records (e : Engine) : Post Engine Report
  | .ok _, e' => e'.Steady ∧ e.Recorded e'
  | .error err, e' => e'.Steady ∧ if err.isPartial then e.Recorded e' else e.Unaltered e'

theorem Records.settles {e' : Engine} {answer : Except EditError Report} (h : e.Records answer e') :
    e.Settles answer e' := by
  cases answer with
  | ok report => exact ⟨h.1, fun _ => h.2⟩
  | error err => exact h

/-- How visits may come out: what was done is work in the window, and an error is that of a global
command that stopped half way. -/
def Visits (e : Engine) : Post Engine Report
  | .ok _, e' => e.Worked e'
  | .error err, e' => e.Worked e' ∧ err.isPartial = true

theorem Worked.visits {e' e'' : Engine} (h : e.Worked e') {answer : Except EditError Report}
    (h' : e'.Visits answer e'') : e.Visits answer e'' := by
  cases answer with
  | ok report => exact h.trans h'
  | error err => exact ⟨h.trans h'.1, h'.2⟩

theorem Sound.of_marks (h : e.Sound) {l : LineMap} (hl : l.clearMarks = e.window.lines.clearMarks) :
    (e.setWindow { e.window with lines := l }).Sound := by
  have hlen := congrArg List.length hl
  simp only [LineMap.clearMarks, List.length_map] at hlen
  refine h.of_window rfl ?_ (LineMap.contents_of_clearMarks_eq hl)
  show Placed e.window.dot e.window.labels l.length
  rw [hlen]
  exact h.consistent

theorem Sound.worked_marks (h : e.Sound) {l : LineMap}
    (hl : l.clearMarks = e.window.lines.clearMarks) (hu : e.window.lines.Unmarked → l.Unmarked) :
    e.Worked (e.setWindow { e.window with lines := l }) :=
  ⟨h.of_marks hl, rfl, rfl, .refl _ _, hu⟩

theorem Sound.worked_unmark (h : e.Sound) (n : Nat) :
    e.Worked (e.setWindow (e.window.setMark n false)) := by
  cases n with
  | zero => exact .refl h
  | succ i =>
    refine h.worked_marks (LineMap.clearMarks_modify _ i false) fun hu x hx => ?_
    obtain ⟨j, hj⟩ := List.mem_iff_getElem?.mp hx
    rw [List.getElem?_modify] at hj
    obtain ⟨y, hy, hyx⟩ := Option.map_eq_some_iff.mp hj
    rw [← hyx]
    split
    · rfl
    · exact hu y (List.mem_of_getElem? hy)

theorem dol_setMark (e : Engine) (n : Nat) (on : Bool) :
    (e.setWindow (e.window.setMark n on)).window.dol = e.window.dol := by
  cases n with
  | zero => rfl
  | succ i => exact List.length_modify _ _ _

end

end Engine

namespace EditM

section
variable {e : Engine}

theorem ends_attempt {x : EditM α} {post : Post Engine (Except EditError α)} :
    Ends (attempt x) e post ↔ Ends x e fun answer e' => post (.ok answer) e' := by
  unfold Ends
  rw [run_attempt, Succeeds.bind_iff]
  simp only [Succeeds.pure_iff]

theorem runSubcommand_ends (h : e.Sound) (hn : e.entry = none) (text : List Char) :
    Ends (runSubcommand text) e fun _ e' => e.Worked e' := by
  have hsame : e.Worked e := .refl h
  unfold runSubcommand
  rw [CommandLine.lift_read]
  refine (CommandLine.parse_reads text).then (fun line _ => ?_) fun _ _ => hsame
  refine (identify_reads line.letter).then (fun cmd _ => ?_) fun _ _ => hsame
  rw [ends_get_bind]
  refine (checkMode_reads _ cmd).then (fun _ _ => ?_) fun _ _ => hsame
  refine (checkGlobal_reads cmd).then (fun lineCmd hcmd => ?_) fun _ _ => hsame
  refine (query_ends (View.locate_yields h.readable true cmd line.range)).then ?_
    fun err e' hq => hq.1.worked h hn
  rintro range e' ⟨hq, hr, hz⟩
  have hw := hq.worked h hn
  obtain ⟨r, rfl, -⟩ := hq
  rw [hcmd] at hz
  exact (runLine_ends lineCmd hw.sound hn hr hz line.tail).mono fun _ _ hp => hw.trans hp

theorem visit_ends (h : e.Sound) (hn : e.entry = none) {n : Nat} (h₁ : 1 ≤ n)
    (hdol : n ≤ e.window.dol) (text : List Char) (last : Option Nat) :
    Ends (visit text n last) e e.Visits := by
  have hmark : e.Worked (e.setWindow (e.window.setMark n false)) := h.worked_unmark n
  have hsize : n ≤ (e.setWindow (e.window.setMark n false)).window.dol := by
    rw [Engine.dol_setMark]
    exact hdol
  unfold visit
  rw [ends_modifyWindow_bind]
  refine (goto_ends hmark.sound hn h₁ hsize).sure_then fun _ e₁ hgoto => ?_
  have hn₁ : e₁.entry = none := hgoto.untyped hn
  rw [ends_bind, ends_attempt]
  refine (runSubcommand_ends hgoto.sound hn₁ text).mono fun outcome e₂ hrun => ?_
  have hw : e.Worked e₂ := (hmark.trans hgoto).trans hrun
  rw [Post.after_ok]
  split
  · exact ends_pure.mpr hw
  · exact ends_pure.mpr hw
  · exact ends_throw.mpr ⟨hw, rfl⟩

/-- By induction on the number of visits that may come. -/
theorem visitMarked_ends (text : List Char) : ∀ (fuel : Nat) {e : Engine}, e.Sound → e.entry = none →
    ∀ (n : Nat) (last : Option Nat), Ends (visitMarked text fuel n last) e e.Visits
  | 0, e, h, _, _, _ => ends_pure.mpr (.refl h)
  | fuel + 1, e, h, hn, n, last => by
    unfold visitMarked
    rw [ends_get_bind]
    cases hnext : e.window.lines.nextMarked? n with
    | none => exact ends_pure.mpr (.refl h)
    | some k =>
      obtain ⟨hk₁, hk⟩ := LineMap.nextMarked?_le hnext
      refine (visit_ends h hn hk₁ hk text last).then (fun report e₁ hw => ?_) fun _ _ hp => hp
      rw [ends_get_bind]
      have hrest := visitMarked_ends text fuel hw.sound (hw.untyped hn)
      refine (hrest _ _).then (fun rest e₂ hp => ?_) fun err e₂ hp => hw.visits hp
      exact ends_pure.mpr (hw.trans hp)

theorem parse_yields {v : View} (hv : v.Readable) (inverted : Bool) (range : LineRange)
    (tail : List Char) : Query.Yields (GlobalRequest.parse v inverted range tail) fun _ => True := by
  unfold GlobalRequest.parse
  rw [Delimited.lift_readFirst]
  refine (Query.Yields.liftExcept (Delimited.first_reads tail)).bind fun d _ => ?_
  refine (Query.resolve_yields _).bind fun source _ => ?_
  refine (Query.Yields.liftExcept (v.window.compile_reads source false)).bind fun matcher _ => ?_
  refine (Query.remember_yields source).bind fun _ _ => ?_
  refine Query.checkInterrupt_yields.bind fun _ _ => ?_
  refine (Query.Yields.lift (hv.shownLines _ _)).bind fun lines _ => ?_
  simp only
  split
  · exact .throw rfl
  · exact .pure trivial

/-- One record is made, of the window before any line is marked, whatever comes of the visits. -/
theorem runGlobal_records (h : e.Ready) (inverted : Bool) (range : LineRange) (tail : List Char) :
    Ends (runGlobal inverted range tail) e e.Records := by
  unfold runGlobal
  refine (query_ends (parse_yields h.toSound.readable inverted range tail)).then ?_
    fun err e₁ hq => hq.1.unaltered.refused (hq.1.ready h).toSteady hq.2
  rintro request e₁ ⟨hq, -⟩
  have h₁ := hq.ready h
  have hmarks := e₁.window.lines.clearMarks_markRun (range.start - 1) request.hits
  have hsound := h₁.toSound.of_marks hmarks
  rw [ends_modifyWindow_bind]
  refine (snapshot_ends hsound h₁.untyped h₁.calm).sure_then fun _ e₂ ⟨hrec, _⟩ => ?_
  -- the record has no marks, so it is also that of the window before they were set
  have hrec₁ : e₁.Recorded e₂ :=
    hrec.of_recordOf_eq rfl (congrArg (UndoSlot.recordOf e₁.window) hmarks)
  rw [ends_get_bind, ends_bind, ends_attempt]
  refine (visitMarked_ends _ _ hrec.sound hrec.untyped 1 none).mono fun outcome e₃ hvisits => ?_
  have hw : e₂.Worked e₃ := by
    cases outcome with
    | ok report => exact hvisits
    | error err => exact hvisits.1
  rw [Post.after_ok, ends_modifyWindow_bind, ends_liftExcept]
  have hclear : e₃.Worked (e₃.setWindow e₃.window.clearMarks) := by
    refine hw.sound.worked_marks ?_ fun _ => LineMap.unmarked_clearMarks _
    exact (LineMap.unmarked_clearMarks _).clearMarks_eq
  have hback := hq.unaltered.recorded ((hrec₁.worked hw).worked hclear)
  have hu : (e₃.setWindow e₃.window.clearMarks).window.lines.Unmarked := LineMap.unmarked_clearMarks _
  cases outcome with
  | ok report => exact ⟨⟨hback.sound, hu⟩, hback⟩
  | error err =>
    refine ⟨⟨hback.sound, hu⟩, ?_⟩
    rw [hvisits.2]
    exact hback

theorem runGlobal_settles (h : e.Ready) (inverted : Bool) (range : LineRange) (tail : List Char) :
    Ends (runGlobal inverted range tail) e e.Settles :=
  (runGlobal_records h inverted range tail).mono fun _ _ => Engine.Records.settles

end

end EditM

end LineEditor
