import LineEditor.Proofs.ListFunctions

/-!
# Texts as edits

A text is typed line by line, and while it is typed nothing else changes; the dot behind it makes a
single edit of it. What the edit makes of a list of lines is given here beside the commands. The main
statement is that a command, the lines typed after it and the dot come to just that, or leave the
window alone when the lines would be too many.
-/

namespace LineEditor

/-- The commands that a text is typed for. -/
inductive TextCommand where
  | append
  | insert
  | change
  deriving Repr, DecidableEq

namespace TextCommand

def command : TextCommand → Command
  | append => .append
  | insert => .insert
  | change => .change

/-- How many lines stand before the text. Text for line 0 goes to the top. -/
def front (start stop : Nat) : TextCommand → Nat
  | append => stop
  | insert => stop - 1
  | change => start - 1

/-- How many lines the text takes the place of. -/
def taken (start stop : Nat) : TextCommand → Nat
  | change => stop - start + 1
  | _ => 0

/-- The list with a text put in by a command on lines `start` to `stop`, and the line that is current
afterwards. -/
def compute (limits : Limits) (l : List Bytes) (dot start stop : Nat) (text : List Bytes)
    (c : TextCommand) : Except EditError (List Bytes × Nat) :=
  let new := l.take (c.front start stop) ++ text ++ l.drop (c.front start stop + c.taken start stop)
  if c.taken start stop < text.length ∧ limits.lines < new.length then
    .error (.tooManyLines limits.lines)
  else if text ≠ [] then .ok (new, c.front start stop + text.length)
  else if c = change then .ok (new, min start new.length)
  else .ok (new, dot)

/-- The text that is being typed once `lines` are. -/
def entry (c : TextCommand) (window : Nat) (range : LineRange) (lines : List Bytes) : TextEntry where
  window := window
  after := c.front range.start range.stop
  replace := if c = change then some (range.start, range.stop) else none
  lines := lines

def run (c : TextCommand) (range : LineRange) (tail : List Char) : EditM Report :=
  match c with
  | append => EditM.runAppend range tail
  | insert => EditM.runInsert range tail
  | change => EditM.runChange range tail

theorem runCommand_eq (c : TextCommand) (range : LineRange) (tail : List Char) :
    EditM.runCommand (some c.command) range tail = .done <$> c.run range tail := by
  cases c <;> rfl

end TextCommand

/-- The line of a window that a line of input is. -/
def typedLine (line : List Char) : Bytes := Utf8.ofChars (EditM.withoutNewline line)

/-! ## Ranges without a search -/

def Base.searches : Base → Bool
  | .forward _ | .backward _ => true
  | _ => false

def RangeExpr.searches : RangeExpr → Bool
  | .one a => a.base.searches
  | .two first second _ => first.base.searches || second.base.searches
  | _ => false

/-- Nothing is remembered, and no request to stop is heeded. -/
def Query.Silent (q : Query α) : Prop := ∀ r, Leads q r fun _ r' => r' = r

namespace Query.Silent

theorem pure (a : α) : Silent (pure a) := fun _ => leads_pure.mpr rfl

theorem throw (err : EditError) : Silent (throw err : Query α) := fun _ => leads_throw.mpr rfl

theorem liftExcept (x : Except EditError α) : Silent (liftExcept x) :=
  fun _ => leads_liftExcept.mpr rfl

theorem bind {q : Query α} {f : α → Query β} (hq : q.Silent) (hf : ∀ a, (f a).Silent) :
    Silent (q >>= f) := by
  intro r
  refine (hq r).then ?_ fun _ _ hr => hr
  intro a r' hr
  subst hr
  exact hf a r'

end Query.Silent

namespace View

variable (v : View)

theorem address_silent (dot : Nat) {a : Address} (ha : a.base.searches = false) :
    (v.address dot a).Silent := by
  have hbase : (v.base dot a.base).Silent := by
    cases hb : a.base with
    | label name =>
      simp only [base]
      cases v.window.labels.get? name with
      | some n => exact .pure n
      | none => exact .throw _
    | forward pattern =>
      rw [hb] at ha
      cases ha
    | backward pattern =>
      rw [hb] at ha
      cases ha
    | _ => exact .pure _
  unfold address
  refine hbase.bind fun n => ?_
  dsimp only
  split
  · exact .throw _
  · split
    · exact .throw _
    · exact .pure _

theorem locate_silent (inGlobal : Bool) (cmd : Option Command) {expr : RangeExpr}
    (hexpr : expr.searches = false) : (v.locate inGlobal cmd expr).Silent := by
  have hordered (start stop given : Nat) : (ordered start stop given).Silent := by
    unfold ordered
    split
    · exact .throw _
    · exact .pure _
  have hrange : (v.range expr).Silent := by
    cases expr with
    | default => exact .pure _
    | whole => exact hordered _ _ _
    | dotToEnd => exact hordered _ _ _
    | one a => exact (v.address_silent _ hexpr).bind fun n => hordered _ _ _
    | two first second fromFirst =>
      obtain ⟨hfirst, hsecond⟩ := Bool.or_eq_false_iff.mp hexpr
      exact (v.address_silent _ hfirst).bind fun start =>
        (v.address_silent _ hsecond).bind fun stop => hordered _ _ _
  unfold locate
  exact hrange.bind fun given => (Query.Silent.liftExcept _).bind fun range =>
    (Query.Silent.liftExcept _).bind fun _ => .pure range

end View

namespace Engine

section
variable {e e₁ : Engine} {q : Request} {range : LineRange}

theorem located_silent (hloc : e.located q = some (range, e₁)) (hq : q.range.searches = false) :
    e₁ = e.begun q.command := by
  obtain ⟨r, hrun, rfl⟩ := located_eq_some.mp hloc
  have hr := e.view.locate_silent false q.command hq e.remembered _ _ hrun
  rw [hr, begun_eq]
  rfl

end

/-- Takes lines of input one after the other, with the answer to each. -/
def dispatchAll (s : Storage σ) : List (List Char) → Engine → σ →
    Except Breach (List (Except EditError Report) × Engine × σ)
  | [], e, disk => return ([], e, disk)
  | line :: lines, e, disk => do
    let (answer, e, disk) ← e.dispatchOn s line disk
    let (answers, e, disk) ← dispatchAll s lines e disk
    return (answer :: answers, e, disk)

theorem dispatchAll_cons {s : Storage σ} {line : List Char} {lines : List (List Char)}
    {e e₁ e₂ : Engine} {disk disk₁ disk₂ : σ} {answer : Except EditError Report}
    {answers : List (Except EditError Report)} (h : e.dispatchOn s line disk = .ok (answer, e₁, disk₁))
    (hrest : dispatchAll s lines e₁ disk₁ = .ok (answers, e₂, disk₂)) :
    dispatchAll s (line :: lines) e disk = .ok (answer :: answers, e₂, disk₂) := by
  simp only [dispatchAll, h, hrest, bind, Except.bind]
  rfl

end Engine

/-! ## While a text is typed -/

namespace EditM

section
variable {e : Engine} {t : TextEntry} (ht : e.entry = some t)
include ht

theorem dispatch_typed {line : List Char} {post : Post Engine Progress} :
    Ends (dispatch line) e post ↔
      Ends (.done <$> typeLine t (withoutNewline line)) e post := by
  unfold dispatch
  rw [ends_get_bind, ht]

/-- A line of a text is noted. -/
theorem dispatchOn_typed {line : List Char} (hline : withoutNewline line ≠ ['.']) (s : Storage σ)
    (disk : σ) : e.dispatchOn s line disk = .ok (.ok .clean,
      { e with entry := some { t with lines := t.lines ++ [typedLine line] } }, disk) := by
  refine Engine.dispatchOn_done ((dispatch_typed ht).mpr ?_) s disk
  unfold typeLine
  rw [if_neg hline, ends_map, ends_modify_bind, ends_pure]
  exact ⟨rfl, rfl⟩

end

/-- By induction on the lines: each one is behind those that are noted. -/
theorem dispatchAll_typed {e : Engine} {t : TextEntry} (ht : e.entry = some t)
    {text : List (List Char)} (htext : ∀ line ∈ text, withoutNewline line ≠ ['.']) (s : Storage σ)
    (disk : σ) : Engine.dispatchAll s text e disk = .ok (text.map fun _ => .ok .clean,
      { e with entry := some { t with lines := t.lines ++ text.map typedLine } }, disk) := by
  induction text generalizing e t with
  | nil =>
    simp only [List.map_nil, List.append_nil, ← ht]
    rfl
  | cons line text ih =>
    obtain ⟨hline, htext⟩ := List.forall_mem_cons.mp htext
    have hnoted : ({ e with entry := some { t with lines := t.lines ++ [typedLine line] } } :
        Engine).entry = some { t with lines := t.lines ++ [typedLine line] } := rfl
    have hrest := ih hnoted htext
    rw [List.append_assoc] at hrest
    exact Engine.dispatchAll_cons (dispatchOn_typed ht hline s disk) hrest

/-! ## The end of a text -/

section
variable {e : Engine} {c : TextCommand} {range : LineRange}

/-- How a text may end: nothing is typed any more, and the lines are those that came out; without an
edit nothing changed. -/
def Commits (e : Engine) (c : TextCommand) (range : LineRange) (text : List Bytes) :
    Post Engine Report := fun answer e' =>
  e'.entry = none ∧
    Engine.Gives (e.pool.texts e.window.lines) (c.compute e.limits (e.pool.texts e.window.lines)
      e.window.dot range.start range.stop text) answer e' ∧
    ((text = [] ∧ c ≠ .change) ∨ (∃ err, answer = .error err) → e' = e)

/-- The command finds lines that it can work on. -/
def Suits (c : TextCommand) (range : LineRange) (dol : Nat) : Prop :=
  range.Within dol ∧ (c = .change → 1 ≤ range.start)

theorem Suits.fits {dol : Nat} (h : Suits c range dol) (window : Nat) (text : List Bytes) :
    (entryEdit (c.entry window range text)).Fits dol := by
  obtain ⟨hr, h₁⟩ := h
  cases c with
  | append => exact hr.stop_le
  | insert => exact Nat.le_trans (Nat.sub_le _ _) hr.stop_le
  | change => exact ⟨h₁ rfl, hr.le, hr.stop_le⟩

theorem Suits.front_le {dol : Nat} (h : Suits c range dol) :
    c.front range.start range.stop + c.taken range.start range.stop ≤ dol := by
  obtain ⟨hr, h₁⟩ := h
  have hle := hr.le
  have hstop := hr.stop_le
  cases c with
  | append => exact hstop
  | insert => exact Nat.le_trans (Nat.sub_le _ _) hstop
  | change =>
    have hstart := h₁ rfl
    simp only [TextCommand.front, TextCommand.taken]
    omega

theorem entryRemoved_eq (hr : range.start ≤ range.stop) (window : Nat) (text : List Bytes) :
    entryRemoved (c.entry window range text) = .ok (c.taken range.start range.stop) := by
  cases c with
  | change =>
    unfold entryRemoved TextCommand.entry
    simp only [if_true, difference_of_le hr]
    rfl
  | _ => rfl

theorem entryEdit_rows (window : Nat) (text : List Bytes) (rows : List Row) :
    (entryEdit (c.entry window range text)).rows rows = Sequence.splice rows
      (c.front range.start range.stop) (c.taken range.start range.stop) (text.map Row.plain) := by
  cases c <;> rfl

theorem entryEdit_dot {window : Nat} {text : List Bytes} (hedit : text ≠ [] ∨ c = .change)
    {w w' : Window} {p p' : Pool}
    (hrun : (entryEdit (c.entry window range text)).perform w p = .ok (w', p')) :
    w'.dot = if text ≠ [] then c.front range.start range.stop + text.length
      else min range.start (w.dol - (range.stop - range.start + 1)) := by
  have hinsert {after : Nat} (hne : text ≠ []) (hrun : w.insertLines p after text = .ok (w', p')) :
      w'.dot = after + text.length := by
    have hdot := Window.insertEntries_dot hrun (by simpa using hne)
    rwa [List.length_map] at hdot
  by_cases hne : text ≠ []
  · rw [if_pos hne]
    cases c with
    | append => exact hinsert hne hrun
    | insert => exact hinsert hne hrun
    | change => exact Window.replaceLines_dot hne hrun
  · rw [if_neg hne]
    obtain rfl := hedit.resolve_left hne
    rw [not_not] at hne
    subst hne
    exact Window.deleteLines_dot hrun

section
variable (hsuits : Suits c range e.window.dol) (text : List Bytes)
include hsuits

theorem length_commits : (Sequence.splice (e.pool.texts e.window.lines)
    (c.front range.start range.stop) (c.taken range.start range.stop) text).length =
      e.window.dol - c.taken range.start range.stop + text.length := by
  have hlen : (e.pool.texts e.window.lines).length = e.window.dol := Pool.length_texts _ _
  have hfront := hsuits.front_le
  rw [Sequence.length_splice _ _ (by omega), hlen]

variable (h : e.Ready) {new : List Bytes} (hnew : Sequence.splice (e.pool.texts e.window.lines)
  (c.front range.start range.stop) (c.taken range.start range.stop) text = new)
include h hnew

theorem edit_commits (hedit : text ≠ [] ∨ c = .change)
    (hroom : ¬(c.taken range.start range.stop < text.length ∧ e.limits.lines < new.length)) :
    Ends (do
      snapshot
      edit (entryEdit (c.entry e.window.id range text))
      return .ofEdit true []) e (Commits e c range text) := by
  refine snapshot_edit_reworks h (hsuits.fits _ text) fun e' hre hrec => ends_pure.mpr ⟨hrec.untyped, ?_, ?_⟩
  · have htexts : e'.pool.texts e'.window.lines = new := by
      rw [Pool.texts, hre.rows_eq, entryEdit_rows, Sequence.map_splice, Row.map_text_plain, ← hnew]
      rfl
    have hdot : e'.window.dot = if text ≠ [] then c.front range.start range.stop + text.length
        else min range.start (e.window.dol - (range.stop - range.start + 1)) := by
      obtain ⟨p, w, hrun, hwindow⟩ := hre.performed
      have hnote : w.noteEdit.dot = w.dot := by rw [Window.noteEdit_eq]
      rw [hwindow, hnote, entryEdit_dot hedit hrun]
      rfl
    have hcompute : c.compute e.limits (e.pool.texts e.window.lines) e.window.dot range.start
        range.stop text = .ok (new, e'.window.dot) := by
      rw [hdot]
      unfold TextCommand.compute
      rw [show _ ++ text ++ _ = new from hnew, if_neg hroom]
      by_cases hne : text ≠ []
      · rw [if_pos hne, if_pos hne]
      · obtain rfl := hedit.resolve_left hne
        have hlen := length_commits hsuits text
        rw [hnew, not_not.mp hne, List.length_nil, Nat.add_zero] at hlen
        rw [if_neg hne, if_neg hne, if_pos rfl, hlen]
        rfl
    rw [hcompute]
    exact ⟨⟨_, rfl⟩, by rw [hre.held.texts_eq, htexts], rfl⟩
  · rintro (⟨hnone, hc⟩ | ⟨err, herr⟩)
    · exact absurd hedit (by simp [hnone, hc])
    · cases herr

theorem commitEntry_commits :
    Ends (commitEntry (c.entry e.window.id range text)) e (Commits e c range text) := by
  have hlen := length_commits hsuits text
  have hfront := hsuits.front_le
  have hlines : (c.entry e.window.id range text).lines = text := rfl
  rw [hnew] at hlen
  unfold commitEntry
  rw [ends_get_bind, if_neg (by simp [TextCommand.entry]), ends_bind, ends_lift,
    entryRemoved_eq hsuits.1.le, Succeeds.ok_iff, Post.after_ok, hlines]
  dsimp only
  by_cases hedit : text ≠ [] ∨ c = .change
  · have hwork : ¬(text.isEmpty && decide (c.taken range.start range.stop = 0)) = true := by
      rcases hedit with hne | rfl
      · simp [hne]
      · simp [TextCommand.taken]
    rw [if_neg hwork]
    have hput := edit_commits hsuits text h hnew hedit
    by_cases hmore : c.taken range.start range.stop < text.length
    · have hsize : e.window.dol + (text.length - c.taken range.start range.stop) = new.length := by
        omega
      rw [if_pos hmore]
      unfold checkCapacity
      rw [bind_assoc, ends_get_bind]
      refine ends_check.mpr ⟨fun hfull => ⟨h.untyped, ?_, fun _ => rfl⟩, fun hroom => ?_⟩
      · have hfull : e.limits.lines < new.length := hsize ▸ hfull
        unfold TextCommand.compute
        rw [show _ ++ text ++ _ = new from hnew, if_pos ⟨hmore, hfull⟩]
        exact ⟨rfl, h.toSteady.toHeld.texts_eq⟩
      · have hroom : ¬e.limits.lines < new.length := hsize ▸ hroom
        exact hput fun hfull => hroom hfull.2
    · rw [if_neg hmore]
      exact hput fun hfull => hmore hfull.1
  · obtain ⟨hnone, hc⟩ := not_or.mp hedit
    rw [not_not] at hnone
    have htaken : c.taken range.start range.stop = 0 := by
      cases c with
      | change => exact absurd rfl hc
      | _ => rfl
    subst hnone
    rw [if_pos (by simp [htaken]), ends_pure]
    refine ⟨h.untyped, ?_, fun _ => rfl⟩
    have hcompute : c.compute e.limits (e.pool.texts e.window.lines) e.window.dot range.start
        range.stop [] = .ok (e.pool.texts e.window.lines, e.window.dot) := by
      unfold TextCommand.compute
      simp [htaken, hc]
    rw [hcompute]
    exact ⟨⟨_, rfl⟩, h.toSteady.toHeld.texts_eq, rfl⟩

end

/-- The dot ends the text, and the edit finds the engine as the command left it. -/
theorem dispatchOn_dot (h : e.Ready) (hsuits : Suits c range e.window.dol) (text : List Bytes)
    {line : List Char} (hline : withoutNewline line = ['.']) (s : Storage σ) (disk : σ) :
    ∃ answer e', Engine.dispatchOn s line
        { e with entry := some (c.entry e.window.id range text) } disk = .ok (answer, e', disk) ∧
      Commits e c range text answer e' := by
  refine dispatchOn_of_done (fun post hpost => (dispatch_typed rfl).mpr ?_)
    (commitEntry_commits hsuits text h rfl) s disk
  have huntyped : ({ e with entry := none } : Engine) = e := by rw [← h.untyped]
  unfold typeLine
  rw [if_pos hline, map_bind, ends_modify_bind, huntyped]
  exact hpost

end

end EditM

namespace TextCommand

/-- The command itself only begins the text. -/
theorem run_begins {e : Engine} {c : TextCommand} {range : LineRange} {tail : List Char}
    (hstart : c = .change → 1 ≤ range.start) (htail : noTail c.command.letter tail = .ok ()) :
    Ends (c.run range tail) e fun answer e' => answer = .ok .clean ∧
      e' = { e with entry := some (c.entry e.window.id range []) } := by
  have hbegin (after : Nat) (replace : Option (Nat × Nat)) :
      Ends (EditM.beginEntry after replace) e fun answer e' => answer = .ok .clean ∧
        e' = { e with entry := some ⟨e.window.id, after, replace, []⟩ } := by
    unfold EditM.beginEntry
    rw [ends_modify_bind, ends_pure]
    exact ⟨rfl, rfl⟩
  have htyped {f : Unit → EditM Report} {post : Post Engine Report} (hf : Ends (f ()) e post) :
      Ends (liftExcept (noTail c.command.letter tail) >>= f) e post := by
    rw [ends_bind, ends_liftExcept, htail]
    exact hf
  cases c with
  | append => exact htyped (hbegin _ _)
  | insert => exact htyped (hbegin _ _)
  | change => exact htyped ((ends_difference (hstart rfl)).mpr (hbegin _ _))

end TextCommand

namespace Engine

/-- While a text is typed, nothing changes but what is typed; up to the search that found the range,
the window is the one before the command. The dot makes a single edit of the text, or refuses it, and
then no text is typed any more. -/
theorem Reachable.text_is_one_edit {e e₁ : Engine} (h : e.Reachable) (hmode : e.window.mode = .normal)
    {line dot : List Char} {text : List (List Char)} {q : Request} {range : LineRange}
    {c : TextCommand} (hq : e.asks line = some q) (hloc : e.located q = some (range, e₁))
    (hc : q.command = some c.command) (htail : noTail c.command.letter q.tail = .ok ())
    (htext : ∀ t ∈ text, EditM.withoutNewline t ≠ ['.']) (hdot : EditM.withoutNewline dot = ['.'])
    (s : Storage σ) (disk : σ) :
    (range.start ≤ range.stop ∧ range.stop ≤ e.window.dol ∧ (c = .change → 1 ≤ range.start)) ∧
      e.Unaltered e₁ ∧ (q.range.searches = false → e₁ = { e with quitArmed := false }) ∧
      ∃ typed lines answer e',
        typed = { e₁ with entry := some (c.entry e.window.id range (text.map typedLine)) } ∧
        dispatchAll s (line :: text) e disk =
          .ok (List.replicate (text.length + 1) (.ok .clean), typed, disk) ∧
        e.window.texts e.pool 1 e.window.dol = .ok lines ∧
        typed.dispatchOn s dot disk = .ok (answer, e', disk) ∧ e'.entry = none ∧
        Gives lines (c.compute e.limits lines e.window.dot range.start range.stop
          (text.map typedLine)) answer e' ∧
        ((text = [] ∧ c ≠ .change) ∨ (∃ err, answer = .error err) → e' = e₁) := by
  have hidle : e.Idle := ⟨h.steady, (asks_eq_some.mp hq).1⟩
  have hkeeps : EditM.keepsWarning q.command = false := by
    rw [hc]
    cases c <;> rfl
  have hready : e₁.Ready := hidle.ready_located hkeeps hloc
  have hun : e.Unaltered e₁ := hidle.located_unaltered hloc
  obtain ⟨hpool, hlimits, hlines, -, hwdot, -⟩ := located_same hloc
  have hid : e₁.window.id = e.window.id := by
    rw [hun.eq]
    rfl
  obtain ⟨hr, hpos⟩ := rangeOf_within hidle.toHeld.readable (rangeOf_of_located hloc)
  have hsuits : EditM.Suits c range e₁.window.dol := by
    rw [Window.dol, hlines]
    refine ⟨hr, ?_⟩
    rintro rfl
    rw [hc] at hpos
    exact hpos.resolve_right Bool.false_ne_true
  have hall : q.command.all e.window.mode.allows = true := by
    rw [hc, hmode]
    rfl
  obtain ⟨answer₁, _, hfirst, rfl, rfl⟩ := EditM.dispatchOn_located hq hloc hall
    (by rw [hc]; exact c.runCommand_eq range q.tail) (TextCommand.run_begins hsuits.2 htail) s disk
  have hrun := dispatchAll_cons hfirst (EditM.dispatchAll_typed rfl htext s disk)
  rw [List.map_const'] at hrun
  obtain ⟨answer, e', hlast, hnone, hgives, hsame⟩ :=
    EditM.dispatchOn_dot hready hsuits (text.map typedLine) hdot s disk
  rw [hpool, hlimits, hlines, hwdot] at hgives
  rw [List.map_eq_nil_iff] at hsame
  rw [← hid]
  refine ⟨⟨hr.le, hr.stop_le, hsuits.2⟩, hun, fun hsilent => ?_, _, _, answer, e', rfl, hrun,
    hidle.toHeld.texts_eq, hlast, hnone, hgives, hsame⟩
  exact (located_silent hloc hsilent).trans (if_neg (by simp [hkeeps]))

/-- Two lines take the place of the first of two. -/
theorem text_is_one_edit_change : ∃ e typed answer e',
    (Engine.new ⟨1, 10, 100⟩).perform (.insertBulk 0 [97, 10, 98, 10]) = .ok e ∧
      dispatchAll FileTree.storage [['1', 'c'], ['x'], ['y']] e .empty =
        .ok ([.ok .clean, .ok .clean, .ok .clean], typed, .empty) ∧
      typed.dispatchOn FileTree.storage ['.'] .empty = .ok (answer, e', .empty) ∧
      e'.entry = none ∧ Gives [[97], [98]] (.ok ([[120], [121], [98]], 2)) answer e' := by
  have hall : ((Engine.new ⟨1, 10, 100⟩).perform (.insertBulk 0 [97, 10, 98, 10]) >>=
      fun e => pure (e.window.mode = .normal && e.limits = ⟨1, 10, 100⟩ &&
        e.window.texts e.pool 1 e.window.dol = .ok [[97], [98]] &&
        (e.asks ['1', 'c']).any fun q => q.command = some TextCommand.change.command &&
          noTail TextCommand.change.command.letter q.tail = .ok () &&
            (e.located q).any fun x => x.1 = ⟨1, 1, 1⟩)) = .ok true := by
    decide +kernel
  obtain ⟨e, hnew, hall⟩ := bind_eq_ok.mp hall
  have hvalues := Except.ok.inj hall
  simp only [Bool.and_eq_true, decide_eq_true_eq, Option.any_eq_true] at hvalues
  obtain ⟨⟨⟨hmode, hlimits⟩, htexts⟩, q, hq, ⟨hc, htail⟩, ⟨range, e₁⟩, hloc, rfl⟩ := hvalues
  obtain ⟨-, -, -, typed, lines, answer, e', -, hrun, hlines, hlast, hnone, hgives, -⟩ :=
    Reachable.text_is_one_edit (.call _ (.new _) hnew) hmode hq hloc hc htail
      (show ∀ t ∈ [['x'], ['y']], EditM.withoutNewline t ≠ ['.'] by decide)
      (show EditM.withoutNewline ['.'] = ['.'] by decide) FileTree.storage .empty
  obtain rfl := Except.ok.inj (htexts.symm.trans hlines)
  rw [hlimits] at hgives
  exact ⟨e, typed, answer, e', hnew, hrun, hlast, hnone, hgives⟩

end Engine

end LineEditor
