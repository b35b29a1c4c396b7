import LineEditor.Proofs.Dispatch
import LineEditor.Proofs.Recalls

/-!
# What a line asks for

A line that is not text makes a request, if it can be read. The request is refused in a window that
does not allow the command, and where no lines are found for it; else the command is run, and what
passes between it and the file system is one question and its answer at most.
-/

namespace LineEditor

/-- A command line that has been read. -/
structure Request where
  command : Option Command
  range : RangeExpr
  tail : List Char
  deriving Repr, DecidableEq

def Request.read (text : List Char) : Except EditError Request := do
  let line ← CommandLine.parse text
  let cmd ← identify line.letter
  return ⟨cmd, line.range, line.tail⟩

theorem Request.read_letter (cmd : Command) (tail : List Char) :
    read (cmd.letter :: tail) = .ok ⟨some cmd, .default, tail⟩ := by
  rw [read, CommandLine.parse_letter cmd tail]
  dsimp only [bind, Except.bind]
  rw [identify_letter cmd]
  rfl

/-- What passes between a command and the file system. -/
inductive Traffic where
  | none
  | load (path : List Char) (answer : Except String Loaded)
  | read (path : List Char) (answer : Except String Bytes)
  | write (path : List Char) (bytes : Bytes) (append : Bool) (answer : Except String Nat)
  deriving DecidableEq

namespace Progress

def traffic (s : Storage σ) (disk : σ) : Progress → Traffic
  | .done _ => .none
  | .load path _ => .load path (s.load disk path)
  | .read path _ => .read path (s.read disk path)
  | .write path bytes append _ => .write path bytes append (s.write disk path bytes append).1

/-- Whatever the file system answers, the command comes to an end of which `P` is true. -/
def Brings (P : Traffic → Post Engine Report) : Progress → Engine → Prop
  | .done report, e => P .none (.ok report) e
  | .load path resume, e => ∀ answer, Leads (resume answer) e (P (.load path answer))
  | .read path resume, e => ∀ answer, Leads (resume answer) e (P (.read path answer))
  | .write path bytes append resume, e =>
    ∀ answer, Leads (resume answer) e (P (.write path bytes append answer))

end Progress

namespace Engine

/-- The request of a line. A line of a text being typed makes none, nor does one that cannot be
read. -/
def asks (e : Engine) (line : List Char) : Option Request :=
  if e.entry.isSome then none else (Request.read (EditM.withoutNewline line)).toOption

/-- The lines that a request is about. -/
def rangeOf (e : Engine) (q : Request) : Option LineRange :=
  match (e.view.locate false q.command q.range).run.run e.remembered with
  | .ok (.ok range, _) => some range
  | _ => none

/-- What passes between the command of a line and the file system. -/
def traffic (s : Storage σ) (line : List Char) (e : Engine) (disk : σ) : Traffic :=
  match e.run (EditM.dispatch line) with
  | .ok (.ok progress, _) => progress.traffic s disk
  | _ => .none

/-- The engine when a command is begun. Most commands withdraw a warning of unsaved edits. -/
def begun (e : Engine) (cmd : Option Command) : Engine :=
  if EditM.keepsWarning cmd then e else { e with quitArmed := false }

def Brings (P : Traffic → Post Engine Report) : Post Engine Progress
  | .ok progress, e => progress.Brings P e
  | .error err, e => P .none (.error err) e

section
variable {e : Engine}

theorem begun_eq (e : Engine) (cmd : Option Command) :
    e.begun cmd = { e with quitArmed := e.quitArmed && EditM.keepsWarning cmd } := by
  unfold begun
  by_cases hk : EditM.keepsWarning cmd = true
  · simp [hk]
  · simp [hk]

theorem begun_id (e : Engine) (cmd : Option Command) (r : Recall) :
    ((e.begun cmd).withRecall r).window.id = e.window.id := by
  rw [begun_eq]
  rfl

theorem asks_eq_some {line : List Char} {q : Request} : e.asks line = some q ↔
    e.entry = none ∧ Request.read (EditM.withoutNewline line) = .ok q := by
  unfold asks
  cases e.entry with
  | some t => simp
  | none => cases Request.read (EditM.withoutNewline line) <;> simp [Except.toOption]

/-- A line that was put together of a command and what belongs to it asks for that command. -/
theorem asks_letter (hn : e.entry = none) (cmd : Command) {tail : List Char}
    (hlast : (cmd.letter :: tail).getLast? ≠ some '\n') :
    e.asks (cmd.letter :: tail) = some ⟨some cmd, .default, tail⟩ := by
  refine asks_eq_some.mpr ⟨hn, ?_⟩
  rw [EditM.withoutNewline, if_neg hlast]
  exact Request.read_letter cmd tail

theorem asks_comma_letter (hn : e.entry = none) (cmd : Command) {tail : List Char}
    (hlast : (cmd.letter :: tail).getLast? ≠ some '\n') :
    e.asks (',' :: cmd.letter :: tail) = some ⟨some cmd, .whole, tail⟩ := by
  rw [← List.getLast?_cons_cons (a := ',')] at hlast
  refine asks_eq_some.mpr ⟨hn, ?_⟩
  rw [EditM.withoutNewline, if_neg hlast, Request.read, CommandLine.parse_comma_letter cmd tail]
  dsimp only [bind, Except.bind]
  rw [identify_letter cmd]
  rfl

theorem rangeOf_within (h : e.view.Readable) {q : Request} {range : LineRange}
    (hrange : e.rangeOf q = some range) : range.Within e.window.dol ∧
      (0 < range.start ∨ q.command.any Command.allowsZero) := by
  have hlocate := (View.locate_yields h false q.command q.range e.remembered).leads
  unfold rangeOf at hrange
  split at hrange
  · rename_i found r hrun
    cases hrange
    exact (hlocate _ _ hrun).2
  · cases hrange

theorem Brings.mono {P Q : Traffic → Post Engine Report} {answer : Except EditError Progress}
    (h : e.Brings P answer) (hpq : ∀ x answer e', P x answer e' → Q x answer e') :
    e.Brings Q answer := by
  cases answer with
  | error err => exact hpq _ _ _ h
  | ok progress =>
    cases progress with
    | done report => exact hpq _ _ _ h
    | load path resume => exact fun answer => (h answer).mono fun _ _ => hpq _ _ _
    | read path resume => exact fun answer => (h answer).mono fun _ _ => hpq _ _ _
    | write path bytes append resume => exact fun answer => (h answer).mono fun _ _ => hpq _ _ _

end

/-- A line comes to the end to which its command comes with the answer of the file system. -/
theorem dispatchOn_brings {e e' : Engine} {P : Traffic → Post Engine Report} {line : List Char}
    (h : Leads (EditM.dispatch line) e (Brings P)) {storage : Storage σ} {disk disk' : σ}
    {answer : Except EditError Report}
    (hrun : e.dispatchOn storage line disk = .ok (answer, e', disk')) :
    P (e.traffic storage line disk) answer e' := by
  unfold Engine.dispatchOn at hrun
  obtain ⟨⟨first, e₁⟩, hfirst, hsecond⟩ := bind_eq_ok.mp hrun
  have hbrings : Brings P first e₁ := h _ _ hfirst
  unfold traffic
  rw [hfirst]
  cases first with
  | error err =>
    cases hsecond
    exact hbrings
  | ok progress =>
    have hrest {x : EditM Report} {post : Post Engine Report} (hx : Leads x e₁ post) {disk : σ}
        (hlast : (e₁.run x >>= fun r => return (r.1, r.2, disk)) = .ok (answer, e', disk')) :
        post answer e' := by
      obtain ⟨⟨last, e₂⟩, hx', heq⟩ := bind_eq_ok.mp hlast
      cases heq
      exact hx _ _ hx'
    cases progress with
    | done report => exact hrest (leads_pure.mpr hbrings) hsecond
    | load path resume => exact hrest (hbrings _) hsecond
    | read path resume => exact hrest (hbrings _) hsecond
    | write path bytes append resume => exact hrest (hbrings _) hsecond

end Engine

namespace EditM

section
variable {e : Engine}

theorem leads_done {x : EditM Report} {P : Traffic → Post Engine Report} (h : Leads x e (P .none)) :
    Leads (.done <$> x) e (Engine.Brings P) := by
  rw [map_eq_pure_bind]
  exact h.then (fun _ _ hp => leads_pure.mpr hp) fun _ _ hp => hp

theorem leads_begin {cmd : Option Command} {rest : EditM α} {post : Post Engine α}
    (h : Leads rest (e.begun cmd) post) : Leads (do
      if !keepsWarning cmd then modify fun e => { e with quitArmed := false }
      rest) e post := by
  unfold Engine.begun at h
  by_cases hk : keepsWarning cmd = true
  · rw [hk, if_pos rfl] at h
    rw [hk, if_neg (by simp)]
    exact h
  · rw [if_neg hk] at h
    rw [Bool.not_eq_true] at hk
    rw [hk, if_pos (by simp), leads_modify_bind]
    exact h

theorem leads_request {q : Request} {post : Post Engine Progress}
    (hrefused : ∀ err r, e.Recalls r → post (.error err) ((e.begun q.command).withRecall r))
    (hrun : ∀ range, e.rangeOf q = some range → q.command.all e.window.mode.allows = true → ∀ r,
      e.Recalls r → Leads (runCommand q.command range q.tail) ((e.begun q.command).withRecall r) post) :
    Leads (do
      liftExcept (checkMode (← get).window.mode q.command)
      let range ← query fun v => v.locate false q.command q.range
      runCommand q.command range q.tail) (e.begun q.command) post := by
  have hview : (e.begun q.command).view = e.view ∧
      (e.begun q.command).remembered = e.remembered := by
    rw [Engine.begun_eq]
    exact ⟨rfl, rfl⟩
  have hmode : (e.begun q.command).window.mode = e.window.mode := by
    rw [Engine.begun_eq]
    rfl
  rw [leads_get_bind]
  refine leads_reads (checkMode_reads _ q.command) (fun _ hall => ?_) fun err => ?_
  · rw [leads_bind, leads_query, hview.1, hview.2]
    intro found r hlocate
    have hrecalls : e.Recalls r := e.view.locate_traces false q.command q.range _ _ _ hlocate
    cases found with
    | error err => exact hrefused err r hrecalls
    | ok range =>
      refine hrun range ?_ (hmode ▸ hall) r hrecalls
      unfold Engine.rangeOf
      rw [hlocate]
  · exact hrefused err (e.begun q.command).remembered (.inl (congrArg Recall.search hview.2))

/-- A line is not understood, or its request is refused, or its command is run on the lines found. -/
theorem execute_recalls {text : List Char} {post : Post Engine Progress}
    (hunread : ∀ err, Request.read text = .error err → post (.error err) e)
    (hrefused : ∀ q, Request.read text = .ok q → ∀ err r, e.Recalls r →
      post (.error err) ((e.begun q.command).withRecall r))
    (hrun : ∀ q, Request.read text = .ok q → ∀ range, e.rangeOf q = some range →
      q.command.all e.window.mode.allows = true → ∀ r, e.Recalls r →
      Leads (runCommand q.command range q.tail) ((e.begun q.command).withRecall r) post) :
    Leads (execute text) e post := by
  unfold execute
  rw [CommandLine.lift_read, leads_bind, leads_liftExcept]
  cases hparse : CommandLine.parse text with
  | error err =>
    refine hunread err ?_
    rw [Request.read, hparse]
    rfl
  | ok line =>
    have hread : Request.read text =
        (identify line.letter).map fun cmd => ⟨cmd, line.range, line.tail⟩ := by
      rw [Request.read, hparse]
      dsimp only [bind, Except.bind]
      cases identify line.letter with
      | ok cmd => rfl
      | error err => rfl
    rw [Post.after_ok, leads_bind, leads_liftExcept]
    cases hid : identify line.letter with
    | error err =>
      refine hunread err ?_
      rw [hread, hid]
      rfl
    | ok cmd =>
      rw [hid] at hread
      have hrequest := leads_request (hrefused _ hread) (hrun _ hread)
      exact leads_begin hrequest

/-- For what does not depend on the texts that are remembered. -/
theorem execute_leads {text : List Char} {post : Post Engine Progress}
    (hunread : ∀ err, Request.read text = .error err → post (.error err) e)
    (hrefused : ∀ q, Request.read text = .ok q → ∀ err r,
      post (.error err) ((e.begun q.command).withRecall r))
    (hrun : ∀ q, Request.read text = .ok q → ∀ range, e.rangeOf q = some range →
      q.command.all e.window.mode.allows = true → ∀ r,
      Leads (runCommand q.command range q.tail) ((e.begun q.command).withRecall r) post) :
    Leads (execute text) e post :=
  execute_recalls hunread (fun q hq err r _ => hrefused q hq err r)
    fun q hq range hrange hall r _ => hrun q hq range hrange hall r

/-- A request is refused, or its command is run on the lines found. -/
theorem dispatch_asked {line : List Char} {q : Request} (hq : e.asks line = some q)
    {post : Post Engine Progress}
    (hrefused : ∀ err r, post (.error err) ((e.begun q.command).withRecall r))
    (hrun : ∀ range, e.rangeOf q = some range → q.command.all e.window.mode.allows = true → ∀ r,
      Leads (runCommand q.command range q.tail) ((e.begun q.command).withRecall r) post) :
    Leads (dispatch line) e post := by
  obtain ⟨hn, hread⟩ := Engine.asks_eq_some.mp hq
  unfold dispatch
  rw [leads_get_bind, hn]
  refine execute_leads (fun err herr => ?_) (fun q' hq' => ?_) fun q' hq' => ?_
  · rw [hread] at herr
    cases herr
  · obtain rfl := Except.ok.inj (hread.symm.trans hq')
    exact hrefused
  · obtain rfl := Except.ok.inj (hread.symm.trans hq')
    exact hrun

end

end EditM

end LineEditor
