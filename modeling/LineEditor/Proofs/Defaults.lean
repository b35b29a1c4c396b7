import LineEditor.Proofs.CommandLines
import LineEditor.Proofs.Resolution

/-!
# Commands without a range

A command without a range works on lines of its own, which are found without any address being read.
They are the lines that a range for them would name, and where that range would be refused they are
refused in the same way; so a line of input is carried out as it would be with the range typed.
-/

namespace LineEditor

/-! ## Lines with the same outcome -/

namespace EditM

/-- How a line that has been read is carried out. -/
def executeLine (line : CommandLine) : EditM Progress := do
  let cmd ← liftExcept (identify line.letter)
  if !keepsWarning cmd then modify fun e => { e with quitArmed := false }
  liftExcept (checkMode (← get).window.mode cmd)
  let range ← query fun v => v.locate false cmd line.range
  runCommand cmd range line.tail

theorem execute_read (text : List Char) :
    execute text = liftExcept (CommandLine.parse text) >>= executeLine :=
  congrArg (· >>= executeLine) (CommandLine.lift_read text)

end EditM

/-- A range without the number of its addresses. -/
def LineRange.bare (r : LineRange) : LineRange := { r with given := 0 }

namespace EditM

/-- No command asks how many addresses were typed. -/
theorem runCommand_bare (cmd : Option Command) (range : LineRange) (tail : List Char) :
    runCommand cmd range.bare tail = runCommand cmd range tail := by
  cases cmd with
  | none => rfl
  | some cmd =>
    cases cmd with
    | line c => cases c <;> rfl
    | _ => rfl

section
variable {e : Engine}

/-- Where what follows asks only for a part of the answer, only that part matters. -/
theorem run_query_congr {q q' : View → Query α} {part : α → β} {f : β → EditM γ}
    (h : (part <$> q e.view).run.run e.remembered = (part <$> q' e.view).run.run e.remembered) :
    (query q >>= fun a => f (part a)).run.run e = (query q' >>= fun a => f (part a)).run.run e := by
  have hpart (q : View → Query α) : (query q >>= fun a => f (part a)).run.run e =
      ((part <$> q e.view).run.run e.remembered >>= fun r =>
        (ExceptT.bindCont f r.1).run (e.withRecall r.2)) := by
    rw [run_bind, run_query, run_map, bind_assoc, bind_assoc]
    refine congrArg _ (funext fun r => ?_)
    obtain ⟨answer, r⟩ := r
    cases answer <;> rfl
  rw [hpart q, hpart q', h]

/-- Two ranges that come to the same lines make the same line of input. -/
theorem run_executeLine_congr {letter : Option Char} {cmd : Option Command} {expr expr' : RangeExpr}
    (hcmd : identify letter = .ok cmd)
    (hsame : (LineRange.bare <$> e.view.locate false cmd expr).run.run e.remembered =
      (LineRange.bare <$> e.view.locate false cmd expr').run.run e.remembered) (tail : List Char) :
    (executeLine ⟨expr, letter, tail⟩).run.run e = (executeLine ⟨expr', letter, tail⟩).run.run e := by
  have hbare : (fun range => runCommand cmd range tail) =
      fun range : LineRange => runCommand cmd range.bare tail :=
    funext fun range => (runCommand_bare cmd range tail).symm
  -- the rest is the same whether a warning was withdrawn or not
  have hrest (e₁ : Engine) (hview : e₁.view = e.view) (hrec : e₁.remembered = e.remembered) :
      (do
        liftExcept (checkMode (← get).window.mode cmd)
        let range ← query fun v => v.locate false cmd expr
        runCommand cmd range tail : EditM Progress).run.run e₁ = (do
        liftExcept (checkMode (← get).window.mode cmd)
        let range ← query fun v => v.locate false cmd expr'
        runCommand cmd range tail : EditM Progress).run.run e₁ := by
    refine Leads.bind_congr ?_
    rintro _ _ ⟨⟩ _ ⟨⟩
    refine Leads.bind_congr (leads_liftExcept.mpr fun _ _ => ?_)
    rw [hbare]
    refine run_query_congr (f := fun range => runCommand cmd range tail) ?_
    rw [hview, hrec]
    exact hsame
  unfold executeLine
  refine Leads.bind_congr (leads_liftExcept.mpr ?_)
  rw [hcmd]
  rintro _ ⟨⟩
  dsimp only
  split
  · exact Leads.bind_congr (leads_modify.mpr fun _ _ => hrest _ rfl rfl)
  · exact hrest e rfl rfl

end

end EditM

/-! ## The lines of a command -/

namespace View

section
variable {v : View} {r : Recall} {cmd : Option Command}

/-- What is made of the lines of a range: for a range that was not typed, those of the command. -/
def settle (dot dol : Nat) (cmd : Option Command) (given : Except EditError (Option LineRange)) :
    Except EditError LineRange := do
  let range ← effectiveRange dot dol false cmd (← given)
  checkZero cmd range.start
  return range.bare

/-- Two lines as the ends of a range. -/
def between (start stop : Except EditError Nat) : Except EditError (Option LineRange) := do
  let start ← start
  let stop ← stop
  if stop < start then throw .badRange else return some ⟨start, stop, 2⟩

theorem run_locate {expr : RangeExpr} {given : Except EditError (Option LineRange)}
    (h : (v.range expr).run.run r = .ok (given, r)) :
    (LineRange.bare <$> v.locate false cmd expr).run.run r =
      .ok (settle v.window.dot v.window.dol cmd given, r) := by
  unfold locate settle
  rw [run_map, run_bind, h]
  cases given with
  | error err => rfl
  | ok given =>
    show (((liftExcept (effectiveRange v.window.dot v.window.dol false cmd given) >>= fun range =>
        liftExcept (checkZero cmd range.start) >>= fun _ => pure range : Query LineRange).run.run r) >>=
      fun r => pure (r.1.map LineRange.bare, r.2)) =
        .ok ((effectiveRange v.window.dot v.window.dol false cmd given >>= fun range =>
          checkZero cmd range.start >>= fun _ => pure range.bare), r)
    cases effectiveRange v.window.dot v.window.dol false cmd given with
    | error err => rfl
    | ok range =>
      show (((liftExcept (checkZero cmd range.start) >>= fun _ => pure range :
          Query LineRange).run.run r) >>= fun r => pure (r.1.map LineRange.bare, r.2)) =
        .ok ((checkZero cmd range.start >>= fun _ => pure range.bare), r)
      cases checkZero cmd range.start <;> rfl

theorem run_address {dot n : Nat} {a : Address} (h : v.Stands dot r a.base n r)
    (hsum : Number.InRange (↑(min n Number.maxOffset) + a.offset)) : (v.address dot a).run.run r =
      .ok (lineAt v.window.dol (↑(min n Number.maxOffset) + a.offset), r) := by
  obtain ⟨⟨_, _⟩, hrun, rfl, rfl⟩ := address_ends h hsum
  exact hrun

theorem run_one {a : Address} {line : Except EditError Nat}
    (h : (v.address v.window.dot a).run.run r = .ok (line, r)) :
    (v.range (.one a)).run.run r = .ok (line.map fun n => some ⟨n, n, 1⟩, r) := by
  unfold range
  rw [run_bind, h]
  cases line with
  | error err => rfl
  | ok n =>
    show (if n < n then _ else _ : Query _).run.run r = _
    rw [if_neg (Nat.lt_irrefl n)]
    rfl

theorem run_two {first second : Address} {start stop : Except EditError Nat}
    (hfirst : (v.address v.window.dot first).run.run r = .ok (start, r))
    (hsecond : ∀ n, start = .ok n → (v.address v.window.dot second).run.run r = .ok (stop, r)) :
    (v.range (.two first second false)).run.run r = .ok (between start stop, r) := by
  unfold range between
  rw [run_bind, hfirst]
  cases start with
  | error err => rfl
  | ok start =>
    show (v.address v.window.dot second >>= fun stop => ordered start stop 2).run.run r = _
    rw [run_bind, hsecond start rfl]
    cases stop with
    | error err => rfl
    | ok stop =>
      show (if stop < start then _ else _ : Query _).run.run r =
        .ok ((if stop < start then _ else _), r)
      split <;> rfl

end

section
variable {dot dol : Nat} {cmd : Option Command}

theorem lineAt_natCast (dol n : Nat) :
    lineAt dol n = if dol < n then .error (.lineOutOfRange n) else .ok n := by
  unfold lineAt
  rw [if_neg (by omega), Int.toNat_natCast]

theorem effectiveRange_none (dot dol : Nat) (cmd : Option Command) :
    effectiveRange dot dol false cmd none =
      if dol < (defaultRange dot dol false cmd).stop then
        .error (.lineOutOfRange (defaultRange dot dol false cmd).stop)
      else .ok (defaultRange dot dol false cmd) := by
  cases cmd with
  | none => rfl
  | some cmd =>
    cases cmd with
    | line c => cases c <;> rfl
    | _ => rfl

def isJoin : Option Command → Bool
  | some (.line (.join _)) => true
  | _ => false

theorem effectiveRange_some (hcmd : isJoin cmd = false) (range : LineRange) :
    effectiveRange dot dol false cmd (some range) = .ok range := by
  cases cmd with
  | none => rfl
  | some cmd =>
    cases cmd with
    | line c =>
      cases c with
      | join spaced => cases hcmd
      | _ => rfl
    | _ => rfl

/-- A command for one line, this one. -/
theorem settle_one {n : Nat} (hcmd : isJoin cmd = false)
    (hdefault : defaultRange dot dol false cmd = ⟨n, n, 0⟩) :
    settle dot dol cmd (.ok none) =
      settle dot dol cmd ((lineAt dol n).map fun n => some ⟨n, n, 1⟩) := by
  unfold settle
  rw [lineAt_natCast]
  show (effectiveRange dot dol false cmd none >>= _) = _
  rw [effectiveRange_none, hdefault]
  dsimp only
  split
  · rfl
  · show _ = (effectiveRange dot dol false cmd (some ⟨n, n, 1⟩) >>= _)
    rw [effectiveRange_some hcmd]
    rfl

theorem settle_whole (hcmd : isJoin cmd = false)
    (hdefault : defaultRange dot dol false cmd = ⟨min dol 1, dol, 0⟩) :
    settle dot dol cmd (.ok none) = settle dot dol cmd (.ok (some ⟨min dol 1, dol, 2⟩)) := by
  unfold settle
  show (effectiveRange dot dol false cmd none >>= _) =
    (effectiveRange dot dol false cmd (some ⟨min dol 1, dol, 2⟩) >>= _)
  rw [effectiveRange_none, hdefault, effectiveRange_some hcmd, if_neg (Nat.lt_irrefl dol)]
  rfl

theorem effectiveRange_join {n : Nat} (hn : 0 < n) (spaced : Bool) :
    effectiveRange dot dol false (some (.line (.join spaced))) (some ⟨n, n, 1⟩) =
      if dol < n + 1 then .error (.lineOutOfRange (n + 1)) else .ok ⟨n, n + 1, 1⟩ := by
  unfold effectiveRange
  dsimp only
  rw [if_pos (by simpa using hn)]
  rfl

/-- Joining one line is joining it with the next. -/
theorem settle_join {n : Nat} (hn : 0 < n) (spaced : Bool) :
    settle dot dol (some (.line (.join spaced))) ((lineAt dol n).map fun n => some ⟨n, n, 1⟩) =
      settle dot dol (some (.line (.join spaced))) (between (lineAt dol n) (lineAt dol ↑(n + 1))) := by
  rw [lineAt_natCast, lineAt_natCast]
  by_cases hdol : dol < n
  · rw [if_pos hdol]
    rfl
  · rw [if_neg hdol]
    show (effectiveRange dot dol false (some (.line (.join spaced))) (some ⟨n, n, 1⟩) >>= _) = _
    rw [effectiveRange_join hn]
    by_cases hnext : dol < n + 1
    · rw [if_pos hnext, if_pos hnext]
      rfl
    · have hbetween : between (.ok n) (.ok (n + 1)) = .ok (some ⟨n, n + 1, 2⟩) :=
        if_neg (Nat.not_lt.mpr (Nat.le_succ n))
      rw [if_neg hnext, if_neg hnext, hbetween]
      rfl

theorem settle_default_join (hdot : 0 < dot) (hle : dot ≤ dol) (spaced : Bool) :
    settle dot dol (some (.line (.join spaced))) (.ok none) =
      settle dot dol (some (.line (.join spaced)))
        ((lineAt dol dot).map fun n => some ⟨n, n, 1⟩) := by
  have hdefault : defaultRange dot dol false (some (.line (.join spaced))) = ⟨dot, dot + 1, 0⟩ :=
    if_pos hdot
  rw [lineAt_natCast, if_neg (Nat.not_lt.mpr hle)]
  show (effectiveRange dot dol false (some (.line (.join spaced))) none >>= _) =
    (effectiveRange dot dol false (some (.line (.join spaced))) (some ⟨dot, dot, 1⟩) >>= _)
  rw [effectiveRange_none, effectiveRange_join hdot, hdefault]
  dsimp only
  split <;> rfl

end

end View

/-! ## Lines of input without a range -/

namespace Command

/-- The range that a command has if none is typed. -/
def defaultExpr : Command → RangeExpr
  | line (.join _) => .two ⟨.dot, 0⟩ ⟨.dot, 1⟩ false
  | global _ | write => .whole
  | read | line .lineNumber => .one ⟨.dol, 0⟩
  | _ => .one ⟨.dot, 0⟩

/-- How the range is typed that a command has if none is. -/
def defaultText : Command → List Char
  | line (.join _) => ['.', ',', '.', '+', '1']
  | global _ | write => [',']
  | read | line .lineNumber => ['$']
  | _ => ['.']

theorem defaultText_eq (cmd : Command) : cmd.defaultText = cmd.defaultExpr.text := by
  have hall : ∀ cmd ∈ all, cmd.defaultText = cmd.defaultExpr.text := by decide
  exact hall cmd cmd.mem_all

theorem defaultExpr_proper (cmd : Command) : cmd.defaultExpr.Proper := by
  have hproper (base : Base) (h : base.Proper) :
      Address.Proper ⟨base, 0⟩ ∧ Address.Proper ⟨base, 1⟩ :=
    ⟨⟨h, (by decide : -(Number.maxOffset : Int) ≤ 0), (by decide : (0 : Int) ≤ Number.maxOffset)⟩,
      h, (by decide : -(Number.maxOffset : Int) ≤ 1), (by decide : (1 : Int) ≤ Number.maxOffset)⟩
  have hdot := hproper .dot trivial
  have hdol := hproper .dol trivial
  cases cmd with
  | line c =>
    cases c with
    | join spaced => exact hdot
    | lineNumber => exact hdol.1
    | _ => exact hdot.1
  | global inverted => trivial
  | write => trivial
  | read => exact hdol.1
  | _ => exact hdot.1

/-- Its letter does not go on with it. -/
theorem more_letter (cmd : Command) : cmd.defaultExpr.more cmd.letter = false := by
  have hall : ∀ cmd ∈ all, cmd.defaultExpr.more cmd.letter = false := by decide
  exact hall cmd cmd.mem_all

end Command

namespace View

section
variable {v : View} {r : Recall}

/-- A range that comes to the same lines for a command as another does. -/
def Alike (v : View) (r : Recall) (cmd : Option Command) (expr expr' : RangeExpr) : Prop :=
  (LineRange.bare <$> v.locate false cmd expr).run.run r =
    (LineRange.bare <$> v.locate false cmd expr').run.run r

theorem alike_of_settle {cmd : Option Command} {expr expr' : RangeExpr}
    {given given' : Except EditError (Option LineRange)}
    (h : (v.range expr).run.run r = .ok (given, r))
    (h' : (v.range expr').run.run r = .ok (given', r))
    (hsettle : settle v.window.dot v.window.dol cmd given =
      settle v.window.dot v.window.dol cmd given') : v.Alike r cmd expr expr' := by
  unfold Alike
  rw [run_locate h, run_locate h', hsettle]

theorem run_near {dot n k : Nat} {base : Base} (h : v.Stands dot r base n r)
    (hn : n + k ≤ Number.maxOffset) :
    (v.address dot ⟨base, k⟩).run.run r = .ok (lineAt v.window.dol ↑(n + k), r) := by
  obtain ⟨⟨_, _⟩, hrun, rfl, rfl⟩ := address_ends_near h hn
  exact hrun

theorem alike_default (hdot : 0 < v.window.dot) (hle : v.window.dot ≤ v.window.dol)
    (hsize : v.window.dol < Number.maxOffset) (cmd : Command) :
    v.Alike r (some cmd) .default cmd.defaultExpr := by
  have hone {cmd : Command} {base : Base} {n : Nat} (hbase : v.Stands v.window.dot r base n r)
      (hn : n ≤ Number.maxOffset) (hcmd : isJoin (some cmd) = false)
      (hdefault : defaultRange v.window.dot v.window.dol false (some cmd) = ⟨n, n, 0⟩) :
      v.Alike r (some cmd) .default (.one ⟨base, 0⟩) :=
    alike_of_settle rfl (run_one (run_near (k := 0) hbase hn)) (settle_one hcmd hdefault)
  have hwhole {cmd : Command} (hcmd : isJoin (some cmd) = false)
      (hdefault : defaultRange v.window.dot v.window.dol false (some cmd) =
        ⟨min v.window.dol 1, v.window.dol, 0⟩) : v.Alike r (some cmd) .default .whole := by
    have hordered : (ordered (min v.window.dol 1) v.window.dol 2).run.run r =
        .ok (.ok (some ⟨min v.window.dol 1, v.window.dol, 2⟩), r) := by
      unfold ordered
      rw [if_neg (Nat.not_lt.mpr (Nat.min_le_left _ _))]
      rfl
    exact alike_of_settle rfl hordered (settle_whole hcmd hdefault)
  have hlt := Nat.lt_of_le_of_lt hle hsize
  cases cmd with
  | line c =>
    cases c with
    | join spaced =>
      have hstands : v.Stands v.window.dot r .dot v.window.dot r := .dot
      have hfirst := run_near (k := 0) hstands hlt.le
      have hsecond := run_near (k := 1) hstands hlt
      exact alike_of_settle rfl (run_two hfirst fun _ _ => hsecond)
        ((settle_default_join hdot hle spaced).trans (settle_join hdot spaced))
    | lineNumber => exact hone .dol hsize.le rfl rfl
    | _ => exact hone .dot hlt.le rfl rfl
  | global inverted => exact hwhole rfl rfl
  | write => exact hwhole rfl rfl
  | read => exact hone .dol hsize.le rfl rfl
  | _ => exact hone .dot hlt.le rfl rfl

theorem alike_blank (hsize : v.window.dot < Number.maxOffset) :
    v.Alike r none .default (.one ⟨.dot, 1⟩) :=
  alike_of_settle rfl (run_one (run_near (k := 1) .dot hsize)) (settle_one rfl rfl)

theorem alike_join (hsize : v.window.dol < Number.maxOffset) {n : Nat} (hn : 0 < n) (spaced : Bool)
    {base : Base} (hbase : v.Stands v.window.dot r base n r) (next : Address)
    (hnext : n < Number.maxOffset → (v.address v.window.dot next).run.run r =
      .ok (lineAt v.window.dol ↑(n + 1), r)) :
    v.Alike r (some (.line (.join spaced))) (.one ⟨base, 0⟩) (.two ⟨base, 0⟩ next false) := by
  by_cases hmax : n < Number.maxOffset
  · have hfirst := run_near (k := 0) hbase (Nat.le_of_lt hmax)
    exact alike_of_settle (run_one hfirst) (run_two hfirst fun _ _ => hnext hmax) (settle_join hn spaced)
  · -- no line has such a number, and the second address is not looked at
    have hmin : (↑(min n Number.maxOffset) : Int) + (0 : Int) = ↑Number.maxOffset := by
      rw [Nat.min_eq_right (Nat.le_of_not_lt hmax), Int.add_zero]
    have hfirst := run_address (a := ⟨base, 0⟩) hbase (by
      rw [hmin]
      constructor <;> omega)
    rw [hmin, lineAt_natCast, if_pos hsize] at hfirst
    have hboth : (v.range (.two ⟨base, 0⟩ next false)).run.run r =
        .ok (between (.error (.lineOutOfRange Number.maxOffset)) (.error .badRange), r) :=
      run_two hfirst fun _ h => by cases h
    exact alike_of_settle (run_one hfirst) hboth rfl

end

end View

namespace Engine

section
variable {e : Engine} {line line' : List Char}

/-- What has been read of a line is all that matters of it. -/
theorem dispatchOn_congr (hn : e.entry = none)
    (h : (EditM.execute (EditM.withoutNewline line)).run.run e =
      (EditM.execute (EditM.withoutNewline line')).run.run e) (s : Storage σ) (disk : σ) :
    e.dispatchOn s line disk = e.dispatchOn s line' disk := by
  have hdispatch (line : List Char) : e.run (EditM.dispatch line) =
      (EditM.execute (EditM.withoutNewline line)).run.run e := by
    unfold EditM.dispatch run
    rw [run_get_bind, hn]
  unfold dispatchOn
  rw [hdispatch line, hdispatch line', h]

theorem dispatchOn_alike (hn : e.entry = none) {letter : Option Char} {cmd : Option Command}
    {expr expr' : RangeExpr} {tail : List Char}
    (hparse : CommandLine.parse (EditM.withoutNewline line) = .ok ⟨expr, letter, tail⟩)
    (hparse' : CommandLine.parse (EditM.withoutNewline line') = .ok ⟨expr', letter, tail⟩)
    (hcmd : identify letter = .ok cmd) (halike : e.view.Alike e.remembered cmd expr expr')
    (s : Storage σ) (disk : σ) : e.dispatchOn s line disk = e.dispatchOn s line' disk := by
  refine dispatchOn_congr hn ?_ s disk
  rw [EditM.execute_read, EditM.execute_read, hparse, hparse']
  exact EditM.run_executeLine_congr hcmd halike tail

end

theorem letter_ne_newline (cmd : Command) : cmd.letter ≠ '\n' := by
  rintro h
  have hspace := cmd.letter_begins_none.1
  rw [h] at hspace
  exact absurd hspace (by decide +kernel)

section
variable {e : Engine} (hn : e.entry = none) (hsize : e.window.dol < Number.maxOffset) (spaced : Bool)
  {digits : List Char} (hdigits : ∀ c ∈ digits, c.isDigit = true)
  (hpos : 1 ≤ Number.ofDigits digits) (tail : List Char)
include hn hsize hdigits hpos

/-- A line joined with the next, in whatever way that one is written. -/
theorem dispatchOn_join {cmd : Command} (hcmd : cmd = .line (.join spaced))
    (hle : Number.ofDigits digits ≤ Number.maxCount) {text : List Char} {base : Base}
    {offsets : List Offset} (hnext : Address.Sentence text base offsets (Address.goesOn true))
    (hnear : Number.ofDigits digits < Number.maxOffset →
      (e.view.address e.window.dot (.ofOffsets base offsets)).run.run e.remembered =
        .ok (View.lineAt e.window.dol ↑(Number.ofDigits digits + 1), e.remembered))
    (s : Storage σ) (disk : σ) : e.dispatchOn s (digits ++ cmd.letter :: tail) disk =
      e.dispatchOn s (digits ++ ',' :: text ++ cmd.letter :: tail) disk := by
  obtain ⟨-, hdigit, hsign, hother⟩ := cmd.letter_begins_none
  have hgoes : Address.goesOn true cmd.letter = false := by simp [Address.goesOn, hdigit, hsign]
  have hsep : RangeExpr.isSeparator cmd.letter = false := by
    simp only [List.mem_cons, not_or] at hother
    simp [RangeExpr.isSeparator, hother]
  have hfirst := Address.sentence_line hdigits hpos hle [] (by simp)
  rw [show digits ++ Offset.spell [] = digits from List.append_nil digits] at hfirst
  have hone := CommandLine.parse_range_letter (.one hfirst) cmd (by simp [hgoes, hsep])
    (EditM.withoutNewline tail)
  have hpair : RangeExpr.Sentence (digits ++ ',' :: text) _ _ := .two hfirst rfl (by decide) hnext
  have htwo := CommandLine.parse_range_letter hpair cmd hgoes (EditM.withoutNewline tail)
  rw [← EditM.withoutNewline_append _ (letter_ne_newline cmd)] at hone htwo
  subst hcmd
  exact dispatchOn_alike hn hone htwo (identify_letter _)
    (View.alike_join hsize hpos spaced (.line _) _ hnear) s disk

/-- How the next line may be written: by an offset, or by its number. -/
theorem dispatchOn_join_next {cmd : Command} (hcmd : cmd = .line (.join spaced)) (s : Storage σ)
    (disk : σ) : e.dispatchOn s (digits ++ cmd.letter :: tail) disk =
      e.dispatchOn s (digits ++ ',' :: (digits ++ ['+', '1']) ++ cmd.letter :: tail) disk := by
  by_cases hle : Number.ofDigits digits ≤ Number.maxCount
  · have hnext := Address.sentence_line hdigits hpos hle [⟨false, ['1']⟩]
      (by simpa using ⟨by simp, by decide⟩)
    exact dispatchOn_join hn hsize spaced hdigits hpos tail hcmd hle hnext
      (fun hlt => View.run_near (k := 1) (.line _) hlt) s disk
  · have hread (c : Char) (hdigit : c.isDigit = false) (hc : c ≠ '\n') (rest : List Char) :
        CommandLine.parse (EditM.withoutNewline (digits ++ c :: rest)) =
          .error (.lineOutOfRange Number.maxCount) := by
      rw [EditM.withoutNewline_append _ hc]
      exact CommandLine.parse_huge hdigits (stops_cons.mpr hdigit) (Nat.lt_of_not_le hle)
    refine dispatchOn_congr hn ?_ s disk
    rw [EditM.execute_read, EditM.execute_read, List.append_assoc,
      hread _ cmd.letter_begins_none.2.1 (letter_ne_newline cmd),
      show ',' :: (digits ++ ['+', '1']) ++ cmd.letter :: tail =
        ',' :: (digits ++ ['+', '1'] ++ cmd.letter :: tail) from rfl, hread ',' rfl (by decide)]

theorem dispatchOn_join_numeral {cmd : Command} (hcmd : cmd = .line (.join spaced))
    {next : List Char} (hnext : ∀ c ∈ next, c.isDigit = true)
    (hsucc : Number.ofDigits next = Number.ofDigits digits + 1)
    (hle : Number.ofDigits next ≤ Number.maxCount) (s : Storage σ) (disk : σ) :
    e.dispatchOn s (digits ++ cmd.letter :: tail) disk =
      e.dispatchOn s (digits ++ ',' :: next ++ cmd.letter :: tail) disk := by
  have hsentence := Address.sentence_line hnext (by omega) hle [] (by simp)
  rw [show next ++ Offset.spell [] = next from List.append_nil next] at hsentence
  refine dispatchOn_join hn hsize spaced hdigits hpos tail hcmd (by omega) hsentence ?_ s disk
  intro hlt
  have hnear : Number.ofDigits next ≤ Number.maxOffset := hsucc ▸ hlt
  rw [← hsucc]
  exact View.run_near (k := 0) (.line _) hnear

end

section
variable {e : Engine} (h : e.Reachable) (hn : e.entry = none)
  (hsize : e.window.dol < Number.maxOffset)
include h hn hsize

theorem dispatchOn_default (hlines : 0 < e.window.dol) (cmd : Command) (tail : List Char)
    (s : Storage σ) (disk : σ) :
    e.dispatchOn s (cmd.letter :: tail) disk =
      e.dispatchOn s (cmd.defaultText ++ cmd.letter :: tail) disk := by
  have hw := h.steady.consistent
  have hdot : 0 < e.window.dot :=
    Nat.pos_of_ne_zero fun hzero => hlines.ne' (hw.dot_eq_zero_iff.mp hzero)
  have hsentence := RangeExpr.sentence_text cmd.defaultExpr_proper
  rw [← cmd.defaultText_eq] at hsentence
  have hletter : CommandLine.parse (EditM.withoutNewline (cmd.letter :: tail)) =
      .ok ⟨.default, some cmd.letter, EditM.withoutNewline tail⟩ := by
    rw [← List.nil_append (cmd.letter :: tail),
      EditM.withoutNewline_append [] (letter_ne_newline cmd)]
    exact CommandLine.parse_letter cmd _
  have htyped := CommandLine.parse_range_letter hsentence cmd cmd.more_letter
    (EditM.withoutNewline tail)
  rw [← EditM.withoutNewline_append _ (letter_ne_newline cmd)] at htyped
  exact dispatchOn_alike hn hletter htyped (identify_letter cmd)
    (View.alike_default hdot hw.dot_le hsize cmd) s disk

theorem dispatchOn_blank {blank : List Char} (hblank : ∀ c ∈ blank, Unicode.isSpace c = true)
    (s : Storage σ) (disk : σ) :
    e.dispatchOn s blank disk = e.dispatchOn s ('+' :: '1' :: blank) disk := by
  have hw := h.steady.consistent
  have hone : EditM.withoutNewline ('+' :: '1' :: blank) = ['+', '1'] ++ EditM.withoutNewline blank :=
    EditM.withoutNewline_append ['+'] (by decide) blank
  have hrest : ∀ c ∈ EditM.withoutNewline blank, Unicode.isSpace c = true := by
    unfold EditM.withoutNewline
    split
    · exact fun c hc => hblank c (List.dropLast_subset _ hc)
    · exact hblank
  have hnone : CommandLine.parse (EditM.withoutNewline blank) = .ok ⟨.default, none, []⟩ :=
    CommandLine.parse_range_blank .default (RangeExpr.stops_blank (fun _ hc => hc) hrest) hrest
  have hproper : ∀ o ∈ [(⟨false, ['1']⟩ : Offset)], o.Proper := by
    simpa using ⟨by simp, by decide⟩
  have hoffset : Address.Sentence ['+', '1'] .dot [⟨false, ['1']⟩] (Address.goesOn true) :=
    .relative (List.cons_ne_nil _ _) hproper
  have hnext : CommandLine.parse (EditM.withoutNewline ('+' :: '1' :: blank)) =
      .ok ⟨.one ⟨.dot, 1⟩, none, []⟩ := by
    rw [hone]
    refine CommandLine.parse_range_blank (.one hoffset) (RangeExpr.stops_blank (fun c hc => ?_) hrest) hrest
    revert hc
    simp only [Address.goesOn, Address.starts, Address.startsBase, RangeExpr.isShort,
      Bool.true_and, Bool.or_eq_true]
    tauto
  exact dispatchOn_alike hn hnone hnext rfl
    (View.alike_blank (Nat.lt_of_le_of_lt hw.dot_le hsize)) s disk

end

/-- A command without a range does what it does with its own range typed, whatever follows it, and a
blank line does what the next line does; a join of one line does what it does with the next line typed
as well, by an offset or by its number. The answer, the state and the file system are the same, errors
included. No window holds as many lines as an offset can count. -/
theorem Reachable.default_as_typed {e : Engine} (h : e.Reachable) (hn : e.entry = none)
    (hlines : 0 < e.window.dol) (hsize : e.window.dol < Number.maxOffset) (s : Storage σ)
    (disk : σ) :
    (∀ (cmd : Command) (tail : List Char), e.dispatchOn s (cmd.letter :: tail) disk =
      e.dispatchOn s (cmd.defaultText ++ cmd.letter :: tail) disk) ∧
    (∀ blank : List Char, (∀ c ∈ blank, Unicode.isSpace c = true) →
      e.dispatchOn s blank disk = e.dispatchOn s ('+' :: '1' :: blank) disk) ∧
    ∀ (spaced : Bool) (digits tail : List Char), (∀ c ∈ digits, c.isDigit = true) →
      1 ≤ Number.ofDigits digits →
      e.dispatchOn s (digits ++ (Command.line (.join spaced)).letter :: tail) disk =
        e.dispatchOn s
          (digits ++ ',' :: (digits ++ ['+', '1']) ++ (Command.line (.join spaced)).letter :: tail)
          disk ∧
      ∀ next : List Char, (∀ c ∈ next, c.isDigit = true) →
        Number.ofDigits next = Number.ofDigits digits + 1 → Number.ofDigits next ≤ Number.maxCount →
        e.dispatchOn s (digits ++ (Command.line (.join spaced)).letter :: tail) disk =
          e.dispatchOn s (digits ++ ',' :: next ++ (Command.line (.join spaced)).letter :: tail)
            disk := by
  refine ⟨fun cmd tail => dispatchOn_default h hn hsize hlines cmd tail s disk,
    fun blank hblank => dispatchOn_blank h hn hsize hblank s disk,
    fun spaced digits tail hdigits hpos => ⟨?_, fun next hnext hsucc hle => ?_⟩⟩
  · exact dispatchOn_join_next hn hsize spaced hdigits hpos tail rfl s disk
  · exact dispatchOn_join_numeral hn hsize spaced hdigits hpos tail rfl hnext hsucc hle s disk

/-- On the last of two lines there is no next one, however it is typed. -/
theorem default_as_typed_last : ∃ e,
    (Engine.new .standard).perform (.insertBulk 0 [97, 10, 98]) = .ok e ∧
    e.entry = none ∧ e.window.dol = 2 ∧ e.window.dot = 2 ∧
    e.dispatchOn FileTree.storage ['j'] .empty =
      e.dispatchOn FileTree.storage ['.', ',', '.', '+', '1', 'j'] .empty ∧
    e.dispatchOn FileTree.storage [' '] .empty =
      e.dispatchOn FileTree.storage ['+', '1', ' '] .empty ∧
    e.dispatchOn FileTree.storage ['1', 'j'] .empty =
      e.dispatchOn FileTree.storage ['1', ',', '1', '+', '1', 'j'] .empty ∧
    e.dispatchOn FileTree.storage ['1', 'j'] .empty =
      e.dispatchOn FileTree.storage ['1', ',', '2', 'j'] .empty ∧
    (e.dispatchOn FileTree.storage ['j'] .empty).map (·.1) = .ok (.error (.lineOutOfRange 3)) ∧
    (e.dispatchOn FileTree.storage ['1', 'j'] .empty).map (·.2.1.window.dol) = .ok 1 := by
  obtain ⟨e, hstart, -⟩ := (steady_new .standard).perform (.insertBulk 0 [97, 10, 98])
  have hstate : ((Engine.new .standard).perform (.insertBulk 0 [97, 10, 98])).map (fun e =>
      (e.entry, e.window.dol, e.window.dot)) = .ok (none, 2, 2) := by decide +kernel
  have hresult : ((Engine.new .standard).perform (.insertBulk 0 [97, 10, 98]) >>= fun e =>
      (e.dispatchOn FileTree.storage ['j'] .empty).map (·.1)) = .ok (.error (.lineOutOfRange 3)) := by
    decide +kernel
  have hjoined : ((Engine.new .standard).perform (.insertBulk 0 [97, 10, 98]) >>= fun e =>
      (e.dispatchOn FileTree.storage ['1', 'j'] .empty).map (·.2.1.window.dol)) = .ok 1 := by
    decide +kernel
  rw [hstart] at hstate hresult hjoined
  obtain ⟨hentry, hplace⟩ := Prod.mk.inj (Except.ok.inj hstate)
  obtain ⟨hdol, hdot⟩ := Prod.mk.inj hplace
  obtain ⟨hletter, hblank, hjoin⟩ := (Reachable.call _ (.new _) hstart).default_as_typed hentry
    (by rw [hdol]; decide) (by rw [hdol]; decide) FileTree.storage .empty
  obtain ⟨hnext, hnumeral⟩ := hjoin false ['1'] [] (by simp) (by decide)
  exact ⟨e, hstart, hentry, hdol, hdot, hletter (.line (.join false)) [],
    hblank [' '] (List.forall_mem_singleton.mpr (by decide +kernel)), hnext,
    hnumeral ['2'] (by simp) (by decide) (by decide),
    hresult, hjoined⟩

end Engine

end LineEditor
