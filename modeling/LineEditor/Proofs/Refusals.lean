import LineEditor.Command.File
import LineEditor.Command.Global
import LineEditor.Proofs.Ends
import LineEditor.Proofs.Matches

/-!
# Refusals

Only a global command that has begun its visits stops half way, and only a request to stop makes a
command stop for no fault of its own. What reads the parts of a command refuses it with some other
error, or gives a value on which the command can rely.
-/

namespace LineEditor

/-- Whether the error is that of a global command that stopped half way. -/
def EditError.isPartial : EditError → Bool
  | partialGlobalFailure _ _ => true
  | _ => false

/-- Whether the error is the command's own fault: nobody asked it to stop, and it did not begin. -/
def EditError.isPlain : EditError → Bool
  | partialGlobalFailure _ _ | interrupted => false
  | _ => true

theorem EditError.isPartial_of_isPlain {err : EditError} (h : err.isPlain = true) :
    err.isPartial = false := by
  cases err with
  | partialGlobalFailure cause last => cases h
  | _ => rfl

/-- The value satisfies `P`; an error is a plain one. -/
def Reads (x : Except EditError α) (P : α → Prop) : Prop :=
  match x with
  | .ok a => P a
  | .error err => err.isPlain = true

namespace Reads

@[simp] theorem ok_iff {a : α} {P : α → Prop} : Reads (.ok a) P ↔ P a := Iff.rfl

@[simp] theorem pure_iff {a : α} {P : α → Prop} : Reads (pure a) P ↔ P a := Iff.rfl

@[simp] theorem throw_iff {err : EditError} {P : α → Prop} :
    Reads (throw err) P ↔ err.isPlain = true := Iff.rfl

@[simp] theorem bind_iff {x : Except EditError α} {f : α → Except EditError β} {P : β → Prop} :
    Reads (x >>= f) P ↔ Reads x fun a => Reads (f a) P := by
  cases x <;> rfl

@[simp] theorem map_iff {x : Except EditError α} {f : α → β} {P : β → Prop} :
    Reads (f <$> x) P ↔ Reads x fun a => P (f a) := by
  cases x <;> rfl

theorem mono {x : Except EditError α} {P Q : α → Prop} (h : Reads x P) (hpq : ∀ a, P a → Q a) :
    Reads x Q := by
  cases x with
  | ok a => exact hpq a h
  | error err => exact h

end Reads

theorem Reads.then {x : Except EditError α} {P : α → Prop} (h : Reads x P) {s : σ}
    {f : α → ExceptT EditError (StateT σ (Except Breach)) β} {post : Post σ β}
    (hok : ∀ a, P a → Ends (f a) s post)
    (herr : ∀ err, err.isPartial = false → post (.error err) s) :
    Ends (liftExcept x >>= f) s post := by
  rw [ends_bind, ends_liftExcept]
  cases x with
  | ok a => exact hok a h
  | error err => exact herr err (EditError.isPartial_of_isPlain h)

/-! ## Addresses and ranges -/

theorem Address.number_reads (top : Nat) (digits : List Char) :
    Reads (number top digits) fun _ => True := by
  unfold number
  split <;> simp [EditError.isPlain]

theorem Address.offsets_reads (total : Int) (s : List Char) :
    Reads (offsets total s) fun _ => True := by
  fun_induction offsets total s with
  | case1 => trivial
  | case2 total c rest hc digits jp hd ih => exact ih 1
  | case3 total c rest hc digits jp hd ih =>
    rw [Reads.bind_iff]
    exact (number_reads _ _).mono fun n _ => ih n
  | case4 => trivial

theorem Address.base?_reads (s : List Char) : Reads (base? s) fun _ => True := by
  unfold base?
  split
  · simp
  · split
    · simpa using number_reads _ _
    · repeat' split
      all_goals simp [EditError.isPlain]

theorem Address.parse_reads (s : List Char) : Reads (parse s) fun _ => True := by
  unfold parse
  simp only [Reads.bind_iff]
  refine (base?_reads s).mono fun b _ => (offsets_reads 0 b.2).mono fun o _ => ?_
  split <;> trivial

theorem RangeExpr.afterSeparator_reads (first : Address) (short : RangeExpr) (s : List Char) :
    Reads (afterSeparator first short s) fun _ => True := by
  unfold afterSeparator
  rw [Reads.bind_iff]
  refine (Address.parse_reads s).mono fun a _ => ?_
  split <;> trivial

theorem RangeExpr.parse_reads (s : List Char) : Reads (parse s) fun _ => True := by
  unfold parse
  split
  · trivial
  · exact afterSeparator_reads _ _ _
  · exact afterSeparator_reads _ _ _
  · rw [Reads.bind_iff]
    refine (Address.parse_reads _).mono fun a _ => ?_
    split
    · trivial
    · trivial
    · split
      · rw [Reads.bind_iff]
        refine (Address.parse_reads _).mono fun b _ => ?_
        split <;> trivial
      · trivial

theorem CommandLine.parse_reads (line : List Char) : Reads (parse line) fun _ => True := by
  unfold parse
  rw [Reads.bind_iff]
  refine (RangeExpr.parse_reads _).mono fun a _ => ?_
  obtain ⟨range, rest⟩ := a
  simp only
  cases Unicode.trimStart rest <;> trivial

/-! ## Checks -/

theorem noTail_reads (letter : Char) (tail : List Char) : Reads (noTail letter tail) fun _ => True := by
  unfold noTail
  split <;> simp [EditError.isPlain]

theorem printSuffix_reads (letter : Char) (tail : List Char) :
    Reads (printSuffix letter tail) fun _ => True := by
  unfold printSuffix
  split
  · trivial
  · split <;> simp [EditError.isPlain]
  · rfl

theorem identify_reads (letter : Option Char) : Reads (identify letter) fun _ => True := by
  unfold identify
  split
  · trivial
  · split <;> simp [EditError.isPlain]

theorem checkMode_reads (mode : Mode) (cmd : Option Command) :
    Reads (checkMode mode cmd) fun _ => cmd.all mode.allows = true := by
  unfold checkMode
  split
  · rfl
  · split
    · assumption
    · rfl

/-- A command that neither pages nor directories allow. -/
theorem Mode.eq_normal_of_allows {mode : Mode} {cmd : Command} (h : mode.allows cmd = true)
    (hbrowse : Mode.browse.allows cmd = false) (hdirectory : Mode.directory.allows cmd = false) :
    mode = .normal := by
  cases mode with
  | normal => rfl
  | browse =>
    rw [hbrowse] at h
    cases h
  | directory =>
    rw [hdirectory] at h
    cases h

theorem checkGlobal_reads (cmd : Option Command) :
    Reads (checkGlobal cmd) fun c => cmd = c.map .line := by
  unfold checkGlobal
  split <;> simp [EditError.isPlain]

theorem checkZero_reads (cmd : Option Command) (start : Nat) :
    Reads (checkZero cmd start) fun _ => 0 < start ∨ cmd.any Command.allowsZero := by
  unfold checkZero
  split
  · rename_i h
    simpa using h
  · rfl

/-- The lines of a range are lines of a text with `size` lines, or it starts before the first. -/
structure LineRange.Within (r : LineRange) (size : Nat) : Prop where
  le : r.start ≤ r.stop
  stop_le : r.stop ≤ size

theorem effectiveRange_reads {dot dol : Nat} (inGlobal : Bool) (cmd : Option Command)
    (given : Option LineRange) : Reads (effectiveRange dot dol inGlobal cmd given) fun r =>
      (∀ g, given = some g → g.Within dol) → r.Within dol := by
  have hin (r : LineRange) (hr : r.start ≤ r.stop) :
      Reads (if dol < r.stop then throw (.lineOutOfRange r.stop) else pure r :
        Except EditError LineRange) fun r => r.Within dol := by
    split
    · rfl
    · exact ⟨hr, by omega⟩
  unfold effectiveRange
  split
  · split
    · exact (hin _ (Nat.le_succ _)).mono fun _ hr _ => hr
    · exact fun hg => hg _ rfl
  · exact fun hg => hg _ rfl
  · refine (hin _ ?_).mono fun _ hr _ => hr
    unfold defaultRange
    repeat' split
    all_goals
      dsimp only
      omega

theorem View.checkCapacity_reads (v : View) (adding : Nat) :
    Reads (v.checkCapacity adding) fun _ => v.window.dol + adding ≤ v.limits.lines := by
  unfold checkCapacity
  split
  · rfl
  · exact Nat.le_of_not_lt ‹_›

theorem View.checkPlace_reads (v : View) (n : Nat) :
    Reads (v.checkPlace n) fun _ => n ≤ v.window.dol := by
  unfold checkPlace
  split
  · rfl
  · exact Nat.le_of_not_lt ‹_›

theorem View.checkLine_reads (v : View) (n : Nat) :
    Reads (v.checkLine n) fun _ => 1 ≤ n ∧ n ≤ v.window.dol := by
  unfold checkLine
  split
  · rfl
  · rename_i h
    simp only [Bool.or_eq_true, decide_eq_true_eq, not_or] at h
    exact ⟨by omega, by omega⟩

theorem View.checkRun_reads (v : View) (start stop : Nat) :
    Reads (v.checkRun start stop) fun _ => True := by
  unfold checkRun
  simp only
  repeat' split
  all_goals simp [EditError.isPlain]

theorem SessionTable.checkSlot_reads (t : SessionTable) (n : Nat) :
    Reads (t.checkSlot n) fun _ => 1 ≤ n ∧ n ≤ t.max := by
  unfold checkSlot
  split
  · rfl
  · rename_i h
    simp only [Bool.or_eq_true, decide_eq_true_eq, not_or] at h
    exact ⟨by omega, by omega⟩

theorem SessionTable.take_reads (t : SessionTable) (n : Nat) :
    Reads (t.take n) fun r => t.get? n = some r.1 ∧ r.2 = t.put n none := by
  unfold take
  rw [Reads.bind_iff]
  refine (t.checkSlot_reads n).mono fun _ _ => ?_
  split
  · exact ⟨‹_›, rfl⟩
  · rfl

/-! ## Patterns, replacements and names -/

theorem Delimited.first_reads (tail : List Char) : Reads (first tail) fun _ => True := by
  unfold first
  split
  · rfl
  · rw [Reads.bind_iff]
    unfold check
    split <;> simp [EditError.isPlain]

theorem resolveSearch_reads (remembered : Option (List Char)) (body : List Char) :
    Reads (resolveSearch remembered body) fun _ => True := by
  unfold resolveSearch
  repeat' split
  all_goals simp [EditError.isPlain]

theorem Window.compile_reads (w : Window) (source : List Char) (ignoreCase : Bool) :
    Reads (w.compile source ignoreCase) Matcher.Bounded := by
  unfold compile compilePattern
  cases hm : Matcher.compile source ignoreCase w.flags.binary with
  | ok m => exact Matcher.compile_bounded hm
  | error fault => rfl

theorem Bytes.splitOn_ne_nil (sep : UInt8) (s : Bytes) : splitOn sep s ≠ [] := by
  cases s with
  | nil => simp [splitOn]
  | cons b rest =>
    unfold splitOn
    split
    · simp
    · split <;> simp

namespace SubstituteRequest

theorem flags_reads (replacement : Delimited) : Reads (flags replacement) fun _ => True := by
  unfold flags
  simp only
  cases SubstituteFlags.parse? (if replacement.closed then replacement.rest else []) with
  | some flags => trivial
  | none => rfl

end SubstituteRequest

theorem EditM.sessionNumber_reads (digits : List Char) :
    Reads (sessionNumber digits) fun _ => True := by
  unfold sessionNumber
  split <;> simp [EditError.isPlain]

theorem EditM.slotArgument_reads (tail : List Char) : Reads (slotArgument tail) fun _ => True := by
  unfold slotArgument
  simp only
  split
  · trivial
  · split
    · simpa using sessionNumber_reads _
    · rfl

theorem ofStorage_reads (path : List Char) (answer : Except String α) :
    Reads (ofStorage path answer) fun _ => True := by
  unfold ofStorage
  split <;> simp [EditError.isPlain]

end LineEditor
