import LineEditor.Proofs.Decoding
import LineEditor.Proofs.Opening

/-!
# The dialogue

The lines of the input are dispatched in their order, refused or not, until one asks to quit or there
is none left, and what is printed is put together of what is printed for each. Only bytes that are not
text end the dialogue otherwise: a line is text, so it is not dispatched, and the editor stops with a
failure. No input and no configuration leads to a breach.
-/

namespace LineEditor

namespace EditM

section
variable {e : Engine}

/-! ## Opening is not quitting -/

/-- Where there is a report, it does not ask to quit. -/
def GoesOn : Post Engine Report
  | .ok report, _ => report.quit = false
  | .error _, _ => True

theorem editSession_goesOn (digits : List Char) : Leads (editSession digits) e GoesOn := by
  unfold editSession
  refine leads_after (fun _ _ => trivial) fun n e₁ => leads_after (fun _ _ => trivial) fun created e₂ => ?_
  rw [leads_modify_bind]
  cases created with
  | true => exact leads_pure.mpr rfl
  | false =>
    dsimp only
    rw [if_neg Bool.false_ne_true, leads_get_bind]
    split
    · exact leads_pure.mpr rfl
    · exact leads_pure.mpr rfl

theorem runEdit_goesOn (tail : List Char) :
    Leads (runEdit tail) e (Engine.Brings fun _ => GoesOn) := by
  refine runEdit_leads (fun _ _ => trivial) rfl (editSession_goesOn _) fun _ _ onTop loaded e₁ => ?_
  exact showLoaded_leads (fun _ _ => trivial) (fun _ _ _ => rfl) onTop

end

end EditM

namespace Engine

/-- The newline that may stand last is not the letter in front. -/
theorem asks_openingLine {e : Engine} (hn : e.entry = none) (path : String) :
    ∃ tail, e.asks (CommandLoop.openingLine path) = some ⟨some .edit, .default, tail⟩ := by
  have hletter : ∃ tail, EditM.withoutNewline (CommandLoop.openingLine path) =
      Command.letter .edit :: tail := by
    unfold EditM.withoutNewline
    split
    · exact ⟨(' ' :: path.toList).dropLast, rfl⟩
    · exact ⟨' ' :: path.toList, rfl⟩
  obtain ⟨tail, htail⟩ := hletter
  refine ⟨tail, asks_eq_some.mpr ⟨hn, ?_⟩⟩
  rw [htail]
  exact Request.read_letter .edit tail

theorem dispatchOn_opening_goesOn {e e' : Engine} (hn : e.entry = none) {storage : Storage σ}
    {path : String} {disk disk' : σ} {answer : Except EditError Report}
    (hrun : e.dispatchOn storage (CommandLoop.openingLine path) disk = .ok (answer, e', disk')) :
    EditM.GoesOn answer e' := by
  obtain ⟨tail, hasks⟩ := asks_openingLine hn path
  have hbrings : Leads (EditM.dispatch (CommandLoop.openingLine path)) e
      (Brings fun _ => EditM.GoesOn) :=
    EditM.dispatch_asked hasks (fun _ _ => trivial) fun range _ _ r => EditM.runEdit_goesOn tail
  exact dispatchOn_brings hbrings hrun

end Engine

namespace CommandLoop

/-! ## Lines of the input -/

/-- Each line with the newline that ends it; the last one may lack it. -/
def lines : Bytes → List Bytes
  | [] => []
  | b :: rest =>
    if b = Bytes.newline then [b] :: lines rest
    else
      match lines rest with
      | [] => [[b]]
      | line :: more => (b :: line) :: more

theorem flatten_lines (input : Bytes) : (lines input).flatten = input := by
  induction input with
  | nil => rfl
  | cons b rest ih =>
    unfold lines
    split
    · rw [List.flatten_cons, ih]
      rfl
    · cases h : lines rest with
      | nil =>
        rw [h] at ih
        rw [← ih]
        rfl
      | cons line more =>
        rw [h] at ih
        rw [← ih]
        rfl

/-- Taking the next line takes the first of the lines. -/
theorem lines_nextLine {input : Bytes} (h : input ≠ []) :
    lines input = (nextLine input).1 :: lines (nextLine input).2 := by
  induction input with
  | nil => exact absurd rfl h
  | cons b rest ih =>
    by_cases hb : b = Bytes.newline
    · have hnext : nextLine (b :: rest) = ([b], rest) := by simp [nextLine, hb]
      rw [hnext, lines, if_pos hb]
    · have hnext : nextLine (b :: rest) = (b :: (nextLine rest).1, (nextLine rest).2) := by
        simp [nextLine, hb]
      rw [hnext, lines, if_neg hb]
      cases rest with
      | nil => rfl
      | cons c more => rw [ih (List.cons_ne_nil c more)]

theorem length_nextLine_lt {input : Bytes} (h : input ≠ []) :
    (nextLine input).2.length < input.length := by
  have hpos := List.length_pos_of_ne_nil h
  simp only [nextLine, List.length_drop]
  omega

/-! ## What is printed -/

/-- What is printed for an answer, line by line. -/
def told : Except EditError Report → List String
  | .ok report => report.output
  | .error err => ["? " ++ err.message]

def toldText (answer : Except EditError Report) : String :=
  String.join ((told answer).map (· ++ "\n"))

def asksToQuit : Except EditError Report → Bool
  | .ok report => report.quit
  | .error _ => false

/-- The configured prompt invites a command, and nothing invites a line of text. -/
def invitation (settings : Settings) (e : Engine) : String :=
  if e.entry = none then String.ofList settings.prompt else ""

theorem printed_eq (answer : Except EditError Report) :
    printed answer = (toldText answer, asksToQuit answer) := by
  cases answer with
  | ok report => rfl
  | error err => simp [printed, toldText, told, asksToQuit]

theorem prompt_eq (settings : Settings) (e : Engine) : prompt settings e = invitation settings e := by
  unfold prompt invitation
  cases e.entry <;> simp

/-! ## The dialogue -/

/-- A line that was dispatched, the engine that it met and what came of it. -/
structure Exchange where
  engine : Engine
  line : List Char
  answer : Except EditError Report

namespace Exchange

def asksToQuit (x : Exchange) : Bool := CommandLoop.asksToQuit x.answer

def text (settings : Settings) (x : Exchange) : String :=
  invitation settings x.engine ++ toldText x.answer

end Exchange

/-- The lines are dispatched one after the other, each where the one before it led to. -/
inductive Dialogue (storage : Storage σ) : Engine → σ → List Exchange → Engine → σ → Prop
  | nil {e : Engine} {disk : σ} : Dialogue storage e disk [] e disk
  | cons {e e₁ e₂ : Engine} {disk disk₁ disk₂ : σ} {line : List Char}
      {answer : Except EditError Report} {xs : List Exchange}
      (hline : e.dispatchOn storage line disk = .ok (answer, e₁, disk₁))
      (hrest : Dialogue storage e₁ disk₁ xs e₂ disk₂) :
      Dialogue storage e disk (⟨e, line, answer⟩ :: xs) e₂ disk₂

/-- How a dialogue ends that left the engine `e` behind: the lines that were not dispatched, what is
printed last, and the status. -/
inductive Ending (settings : Settings) (e : Engine) : List Exchange → List Bytes → String → Nat → Prop
  | quit (xs : List Exchange) {x : Exchange} {unread : List Bytes}
      (hgone : ∀ y ∈ xs, y.asksToQuit = false) (hquit : x.asksToQuit = true) :
      Ending settings e (xs ++ [x]) unread "" 0
  | noMore {xs : List Exchange} (hgone : ∀ y ∈ xs, y.asksToQuit = false) :
      Ending settings e xs [] (invitation settings e) 0
  | notText {xs : List Exchange} {line : Bytes} {more : List Bytes}
      (hgone : ∀ y ∈ xs, y.asksToQuit = false) (hline : ∀ text, line ≠ Utf8.ofString text) :
      Ending settings e xs (line :: more) (invitation settings e) 1

section
variable {storage : Storage σ} {settings : Settings}

theorem Ending.cons {e : Engine} {xs : List Exchange} {x : Exchange} {unread : List Bytes}
    {pending : String} {status : Nat} (hx : x.asksToQuit = false)
    (h : Ending settings e xs unread pending status) :
    Ending settings e (x :: xs) unread pending status := by
  have hall {ys : List Exchange} (hgone : ∀ y ∈ ys, y.asksToQuit = false) :
      ∀ y ∈ x :: ys, y.asksToQuit = false := List.forall_mem_cons.mpr ⟨hx, hgone⟩
  cases h with
  | quit xs hgone hquit => exact .quit (x :: xs) (hall hgone) hquit
  | noMore hgone => exact .noMore (hall hgone)
  | notText hgone hline => exact .notText (hall hgone) hline

/-- A dialogue over the lines of an input, from an engine on: what is printed, the status and the files
that it leaves. -/
def Course (storage : Storage σ) (settings : Settings) (e : Engine) (disk : σ) (input : Bytes)
    (text : String) (status : Nat) (disk' : σ) : Prop :=
  ∃ xs e' unread pending,
    Dialogue storage e disk xs e' disk' ∧
    lines input = xs.map (fun x => Utf8.ofChars x.line) ++ unread ∧
    Ending settings e' xs unread pending status ∧
    text = String.join (xs.map (Exchange.text settings)) ++ pending

theorem Course.none (e : Engine) (disk : σ) :
    Course storage settings e disk [] (invitation settings e) 0 disk :=
  ⟨[], e, [], _, .nil, rfl, .noMore (List.forall_mem_nil _), rfl⟩

theorem Course.notText (e : Engine) (disk : σ) {input : Bytes} (hne : input ≠ [])
    (h : ∀ text, (nextLine input).1 ≠ Utf8.ofString text) :
    Course storage settings e disk input (invitation settings e) 1 disk :=
  ⟨[], e, _, _, .nil, lines_nextLine hne, .notText (List.forall_mem_nil _) h, rfl⟩

section
variable {e e₁ : Engine} {disk disk₁ disk' : σ} {input : Bytes} {line : String}
  {answer : Except EditError Report}

theorem Course.quit (hne : input ≠ []) (hline : (nextLine input).1 = Utf8.ofString line)
    (hrun : e.dispatchOn storage line.toList disk = .ok (answer, e₁, disk₁))
    (hquit : asksToQuit answer = true) :
    Course storage settings e disk input (invitation settings e ++ toldText answer) 0 disk₁ := by
  refine ⟨[⟨e, line.toList, answer⟩], e₁, lines (nextLine input).2, "", .cons hrun .nil, ?_,
    .quit [] (List.forall_mem_nil _) hquit, ?_⟩
  · rw [lines_nextLine hne, hline]
    rfl
  · simp [Exchange.text, String.join_cons]

theorem Course.cons (hne : input ≠ []) (hline : (nextLine input).1 = Utf8.ofString line)
    (hrun : e.dispatchOn storage line.toList disk = .ok (answer, e₁, disk₁))
    (hquit : asksToQuit answer = false) {text : String} {status : Nat}
    (h : Course storage settings e₁ disk₁ (nextLine input).2 text status disk') :
    Course storage settings e disk input (invitation settings e ++ toldText answer ++ text) status
      disk' := by
  obtain ⟨xs, e₂, unread, pending, hxs, hlines, hending, rfl⟩ := h
  refine ⟨⟨e, line.toList, answer⟩ :: xs, e₂, unread, pending, .cons hrun hxs, ?_,
    hending.cons hquit, ?_⟩
  · rw [lines_nextLine hne, hline, hlines]
    rfl
  · simp [Exchange.text, String.join_cons, String.append_assoc]

end

theorem take_of_dispatchOn {e e' : Engine} {line : List Char} {disk disk' : σ} {output : List String}
    {answer : Except EditError Report}
    (hrun : e.dispatchOn storage line disk = .ok (answer, e', disk')) :
    State.take storage line ⟨e, disk, output⟩ =
      .ok (⟨e', disk', toldText answer :: output⟩, asksToQuit answer) := by
  unfold State.take
  rw [hrun]
  show Except.ok (State.print ⟨e', disk', output⟩ (printed answer).1, (printed answer).2) = _
  rw [printed_eq]
  rfl

theorem join_reverse_cons (text : String) (output : List String) :
    String.join (text :: output).reverse = String.join output.reverse ++ text := by
  simp [String.join_append, String.join_cons]

/-! ## Steps of the loop -/

section
variable {e e₁ : Engine} {disk disk₁ : σ} {output : List String} {fuel : Nat} {input : Bytes}

theorem loop_nil : loop storage settings (fuel + 1) [] ⟨e, disk, output⟩ =
    .ok ⟨String.join output.reverse ++ invitation settings e, 0, disk⟩ := by
  rw [← join_reverse_cons, ← prompt_eq]
  rfl

theorem loop_notText (hne : input ≠ []) (h : Utf8.toString? (nextLine input).1 = none) :
    loop storage settings (fuel + 1) input ⟨e, disk, output⟩ =
      .ok ⟨String.join output.reverse ++ invitation settings e, 1, disk⟩ := by
  have hempty : input.isEmpty = false := by simp [hne]
  rw [loop, hempty, if_neg Bool.false_ne_true]
  dsimp only
  rw [h, ← join_reverse_cons, ← prompt_eq]
  rfl

theorem loop_line (hne : input ≠ []) {line : String}
    (h : Utf8.toString? (nextLine input).1 = some line) {answer : Except EditError Report}
    (hrun : e.dispatchOn storage line.toList disk = .ok (answer, e₁, disk₁)) :
    loop storage settings (fuel + 1) input ⟨e, disk, output⟩ =
      if asksToQuit answer then
        .ok ⟨String.join output.reverse ++ invitation settings e ++ toldText answer, 0, disk₁⟩
      else loop storage settings fuel (nextLine input).2
        ⟨e₁, disk₁, toldText answer :: invitation settings e :: output⟩ := by
  have hempty : input.isEmpty = false := by simp [hne]
  rw [loop, hempty, if_neg Bool.false_ne_true]
  dsimp only
  rw [h, prompt_eq]
  dsimp only
  rw [State.print, take_of_dispatchOn hrun, ← join_reverse_cons, ← join_reverse_cons]
  rfl

end

end

/-- The induction is on the fuel, of which there is more than input. The engine has the invariant in
every state of the loop, so a line that is dispatched has an answer. -/
theorem loop_course (storage : Storage σ) (settings : Settings) {e : Engine} (h : e.Steady)
    (disk : σ) (output : List String) {fuel : Nat} {input : Bytes} (hfuel : input.length < fuel) :
    ∃ text status disk',
      loop storage settings fuel input ⟨e, disk, output⟩ =
        .ok ⟨String.join output.reverse ++ text, status, disk'⟩ ∧
      Course storage settings e disk input text status disk' := by
  induction fuel generalizing e disk output input with
  | zero => exact absurd hfuel (Nat.not_lt_zero _)
  | succ fuel ih =>
    by_cases hne : input = []
    · rw [hne]
      exact ⟨_, _, _, loop_nil, .none e disk⟩
    · cases hline : Utf8.toString? (nextLine input).1 with
      | none =>
        refine ⟨_, _, _, loop_notText hne hline, .notText e disk hne fun text htext => ?_⟩
        rw [Utf8.toString?_eq_some.mpr htext] at hline
        cases hline
      | some line =>
        obtain ⟨⟨answer, e₁, disk₁⟩, hrun, hsettles⟩ :=
          Engine.dispatchOn_settles h storage line.toList disk
        have htext := Utf8.toString?_eq_some.mp hline
        rw [loop_line hne hline hrun]
        cases hquit : asksToQuit answer with
        | true =>
          rw [if_pos rfl, String.append_assoc]
          exact ⟨_, _, _, rfl, .quit hne htext hrun hquit⟩
        | false =>
          have hless := length_nextLine_lt hne
          obtain ⟨text, status, disk', hloop, hcourse⟩ := ih hsettles.steady disk₁
            (toldText answer :: invitation settings e :: output)
            (Nat.lt_of_lt_of_le hless (Nat.le_of_lt_succ hfuel))
          rw [if_neg Bool.false_ne_true, hloop, join_reverse_cons, join_reverse_cons]
          refine ⟨_, _, _, ?_, .cons hne htext hrun hquit hcourse⟩
          simp only [String.append_assoc]

/-- What is there before the input is read: a new log and a new engine, to which the path of the
command line is given as a command if there is one. -/
inductive Started (storage : Storage σ) (settings : Settings) (disk : σ) :
    Option String → String → Engine → σ → Prop
  | alone : Started storage settings disk none "" (.new settings.limits) (storage.beginLog disk)
  | named {path : String} {answer : Except EditError Report} {e : Engine} {disk' : σ}
      (hrun : (Engine.new settings.limits).dispatchOn storage ('e' :: ' ' :: path.toList)
        (storage.beginLog disk) = .ok (answer, e, disk')) :
      Started storage settings disk (some path) (toldText answer) e disk'

/-- Whatever the input, the configuration and the path, the editor comes to an end: each line is
dispatched and answered in its turn until one asks to quit, none is left or the next one is not text.
Only in the last case the status says that something went wrong. -/
theorem run_course (storage : Storage σ) (config : Config) (path : Option String) (input : Bytes)
    (disk : σ) : ∃ report e disk₁ text status disk₂,
      Started storage config.settings disk path report e disk₁ ∧
      Course storage config.settings e disk₁ input text status disk₂ ∧
      run storage config path input disk = .ok ⟨report ++ text, status, disk₂⟩ := by
  have hnew := Engine.steady_new config.settings.limits
  cases path with
  | none =>
    obtain ⟨text, status, disk₂, hloop, hcourse⟩ :=
      loop_course storage config.settings hnew (storage.beginLog disk) []
        (Nat.lt_succ_self input.length)
    exact ⟨"", _, _, text, status, disk₂, .alone, hcourse, hloop⟩
  | some path =>
    obtain ⟨⟨answer, e, disk₁⟩, hrun, hsettles⟩ :=
      Engine.dispatchOn_settles hnew storage (openingLine path) (storage.beginLog disk)
    have hquit : asksToQuit answer = false := by
      have hgoesOn := Engine.dispatchOn_opening_goesOn rfl hrun
      cases answer with
      | ok report => exact hgoesOn
      | error err => rfl
    obtain ⟨text, status, disk₂, hloop, hcourse⟩ :=
      loop_course storage config.settings hsettles.steady disk₁ [toldText answer]
        (Nat.lt_succ_self input.length)
    refine ⟨toldText answer, e, disk₁, text, status, disk₂, .named hrun, hcourse, ?_⟩
    rw [run_opening, opening, take_of_dispatchOn hrun, hquit]
    exact hloop

/-- A byte that is not text ends the editor before the text that is being typed has ended. -/
theorem run_stops_at_byte :
    let input : Bytes := [97, 10, 255, 10, 46, 10]
    (run FileTree.storage .standard none input .empty).map (fun o => (o.output, o.status)) =
      .ok ("", 1) ∧
    ¬∃ o, run FileTree.storage .standard none input .empty = .ok o ∧ o.status = 0 := by
  intro input
  have hrun : (run FileTree.storage .standard none input .empty).map
      (fun o => (o.output, o.status)) = .ok ("", 1) := by decide +kernel
  refine ⟨hrun, fun ⟨o, ho, hstatus⟩ => ?_⟩
  rw [ho] at hrun
  have hone : o.status = 1 := congrArg Prod.snd (Except.ok.inj hrun)
  rw [hstatus] at hone
  cases hone

end CommandLoop

end LineEditor
