import LineEditor.CommandLoop
import LineEditor.Proofs.Neighbours

/-!
# The path of the command line

A path on the command line is put behind the letter of the command that edits files, and read as if
it had been typed. So a path of digits is the number of a session, and blanks at the ends of a path
are not seen. The log is begun anew before that, which may alter the file that is asked for. The main
statement is that the file at a path is opened in exactly the other cases.
-/

namespace LineEditor

namespace Engine

/-- There is one session, and its window has no file. -/
structure Nameless (e : Engine) : Prop where
  fileName_eq : e.window.fileName = none
  alone : e.others.sessions = []

/-- If the command was not refused and the current window has a file now, it is the one that the
tail names. -/
def NamesTail (tail : List Char) : Post Engine Report
  | .ok _, e => e.window.fileName = none ∨
      (Unicode.trim tail ≠ [] ∧ (Unicode.trim tail).all Char.isDigit = false ∧
        e.window.fileName = some (Unicode.trim tail))
  | .error _, _ => True

/-- The current window has the name of what it shows, and the answer tells the size of a file. -/
def Presents (path : List Char) (loaded : Loaded) : Post Engine Report
  | .ok report, e => e.window.fileName = some path ∧
      ∀ bytes, loaded = .file bytes → report = .ofSwitch [toString bytes.length]
  | .error _, _ => True

section
variable {e : Engine}

theorem nameless_new (limits : Limits) : (Engine.new limits).Nameless := ⟨rfl, others_new limits⟩

theorem Nameless.begun (h : e.Nameless) (cmd : Option Command) (r : Recall) :
    ((e.begun cmd).withRecall r).Nameless := by
  rw [begun_eq]
  exact ⟨h.fileName_eq, h.alone⟩

theorem Nameless.of_get? (h : e.Nameless) {n : Nat} {s : Session} (hs : e.table.get? n = some s) :
    s.current.fileName = none := by
  rcases SessionTable.get?_put_some hs with ⟨-, rfl⟩ | ⟨-, hother⟩
  · exact h.fileName_eq
  · have hmem : s ∈ e.others.sessions := SessionTable.mem_sessions.mpr ⟨n, hother⟩
    rw [h.alone] at hmem
    cases hmem

end

end Engine

namespace EditM

section
variable {e : Engine}

/-! ## Names of files -/

/-- However the window is filled, the name comes last, and then the size is told. -/
theorem showLoaded_leads {path : List Char} {loaded : Loaded} {post : Post Engine Report}
    (herr : ∀ err e', post (.error err) e')
    (hnamed : ∀ (size : Nat) (e₁ : Engine), (∀ bytes, loaded = .file bytes → bytes.length = size) →
      post (.ok (.ofSwitch [toString size])) (e₁.setWindow { e₁.window with fileName := some path }))
    (onTop : Bool) : Leads (showLoaded path onTop loaded) e post := by
  have hfill {α : Type} {fill : EditM α} {size : α → Nat}
      (hsize : ∀ a bytes, loaded = .file bytes → bytes.length = size a) (open? : EditM Nat) :
      Leads (do
        let _ ← open?
        let a ← fill
        modifyWindow fun w => { w with fileName := some path }
        return Report.ofSwitch [toString (size a)]) e post := by
    refine leads_after herr fun _ _ => leads_after herr fun a e₁ => ?_
    rw [leads_modifyWindow_bind]
    exact leads_pure.mpr (hnamed (size a) e₁ (hsize a))
  unfold showLoaded
  rw [leads_get_bind]
  cases loaded with
  | file bytes =>
    have hsize : ∀ (_ : Nat) bytes', Loaded.file bytes = .file bytes' → bytes'.length = bytes.length :=
      fun _ _ hbytes => by rw [Loaded.file.inj hbytes]
    dsimp only
    split
    · exact leads_throw.mpr (herr _ _)
    · split
      · exact hfill hsize _
      · exact hfill hsize _
  | directory entries =>
    have hsize : ∀ (n : Nat) bytes, Loaded.directory entries = .file bytes → bytes.length = n :=
      fun _ _ hbytes => by cases hbytes
    dsimp only
    split
    · exact leads_throw.mpr (herr _ _)
    · split
      · exact hfill hsize _
      · exact hfill hsize _

theorem showLoaded_presents (path : List Char) (onTop : Bool) (loaded : Loaded) :
    Leads (showLoaded path onTop loaded) e (Engine.Presents path loaded) := by
  refine showLoaded_leads (fun _ _ => trivial) (fun size e₁ hsize => ⟨rfl, fun bytes hbytes => ?_⟩) onTop
  rw [hsize bytes hbytes]

theorem insertDirectory_directory (place : Nat) (entries : List (Bytes × Option Suffix)) :
    Leads (insertDirectory place entries) e fun answer e' =>
      ∀ n, answer = .ok n → e'.window.flags.directory = true := by
  unfold insertDirectory
  rw [leads_get_bind]
  refine leads_reads (e.view.checkPlace_reads place) (fun _ _ => ?_) fun _ => nofun
  refine leads_reads (e.view.checkCapacity_reads _) (fun _ _ => ?_) fun _ => nofun
  rw [leads_modifyWindow_bind, leads_onWindow_bind]
  intro w p hrun
  exact leads_pure.mpr fun _ _ =>
    congrArg WindowFlags.directory (Window.insertEntries_spliced hrun).flags_eq

/-- What is shown is a directory, or a file that is not too long. -/
theorem showLoaded_shows (path : List Char) (onTop : Bool) (loaded : Loaded) :
    Leads (showLoaded path onTop loaded) e fun answer e' => ∀ report, answer = .ok report →
      match loaded with
      | .file bytes => Blob.countLines bytes ≤ e.limits.lines
      | .directory _ => e'.window.flags.directory = true := by
  unfold showLoaded
  rw [leads_get_bind]
  cases loaded with
  | file bytes =>
    by_cases hsize : e.limits.lines < Blob.countLines bytes
    · dsimp only
      rw [if_pos hsize]
      exact leads_throw.mpr nofun
    · exact (leads_self _ e).mono fun _ _ _ _ _ => Nat.le_of_not_lt hsize
  | directory entries =>
    have hlist (open? : EditM Nat) : Leads (do
        let _ ← open?
        let a ← insertDirectory 0 entries
        modifyWindow fun w => { w with fileName := some path }
        return Report.ofSwitch [toString a]) e fun answer e' =>
          ∀ report, answer = .ok report → e'.window.flags.directory = true := by
      refine leads_after (fun _ _ => nofun) fun _ e₁ => ?_
      refine (insertDirectory_directory 0 entries).then (fun a e₂ hdirectory => ?_) fun _ _ _ => nofun
      rw [leads_modifyWindow_bind]
      exact leads_pure.mpr fun _ _ => hdirectory a rfl
    dsimp only
    split
    · exact leads_throw.mpr nofun
    · split
      · exact hlist _
      · exact hlist _

/-- Without a tail only the session is told; a number goes to a session, and a path is loaded. -/
theorem runEdit_leads {tail : List Char} {post : Post Engine Report}
    (herr : ∀ err e', post (.error err) e') (htold : post (.ok (.ofOutput [toString e.slot])) e)
    (hsession : Leads (editSession (Unicode.trim tail)) e post)
    (hload : Unicode.trim tail ≠ [] → (Unicode.trim tail).all Char.isDigit = false →
      ∀ onTop loaded e₁, Leads (showLoaded (Unicode.trim tail) onTop loaded) e₁ post) :
    Leads (runEdit tail) e (Engine.Brings fun _ => post) := by
  unfold runEdit
  dsimp only
  split
  · rw [leads_get_bind]
    exact leads_pure.mpr htold
  · rename_i hsome
    split
    · exact leads_done hsession
    · rename_i hpath
      have hrest (onTop : Bool) (e₁ : Engine) : Leads (pure (Progress.load (Unicode.trim tail)
          fun answer => do
            showLoaded (Unicode.trim tail) onTop
              (← liftExcept (ofStorage (Unicode.trim tail) answer)))) e₁
          (Engine.Brings fun _ => post) :=
        leads_pure.mpr fun answer => leads_after herr fun loaded e₂ =>
          hload (by simpa using hsome) (by simpa using hpath) onTop loaded e₂
      rw [leads_get_bind]
      split
      · exact leads_after (fun err e₁ => herr err e₁) fun _ e₁ => hrest _ e₁
      · exact hrest _ e

/-- A session that is gone to or begun has no file. -/
theorem editSession_names (h : e.Nameless) (digits tail : List Char) :
    Leads (editSession digits) e (Engine.NamesTail tail) := by
  unfold editSession
  refine leads_reads (sessionNumber_reads digits) (fun n _ => ?_) fun _ => trivial
  refine (switchSession_outcome e n).then (fun created e₁ hswitched => ?_) fun _ _ _ => trivial
  have hnone : e₁.window.fileName = none := by
    rcases hswitched with ⟨s, hs, rfl⟩ | ⟨-, -, -, rfl⟩
    · exact h.of_get? hs
    · rfl
  rw [leads_modify_bind]
  cases created with
  | true => exact leads_pure.mpr (.inl hnone)
  | false =>
    dsimp only
    rw [if_neg (by simp), leads_get_bind]
    split
    · exact leads_pure.mpr (.inl hnone)
    · exact leads_pure.mpr (.inl hnone)

theorem runEdit_names (h : e.Nameless) (tail : List Char) :
    Leads (runEdit tail) e (Engine.Brings fun _ => Engine.NamesTail tail) := by
  refine runEdit_leads (fun _ _ => trivial) (.inl h.fileName_eq) (editSession_names h _ tail) ?_
  intro hne hnumber onTop loaded e₁
  exact showLoaded_leads (fun _ _ => trivial) (fun _ _ _ => .inr ⟨hne, hnumber, rfl⟩) onTop

end

end EditM

namespace Engine

section
variable {e e' : Engine} {path : List Char} {report : Report} {storage : Storage σ} {disk disk' : σ}

/-- A path that can be typed is loaded into the current session. -/
theorem dispatchOn_edit_presents (h : e.Idle) (hpath : IsPath path)
    (hsaved : e.window.flags.changed = false)
    (hrun : e.dispatchOn storage ('e' :: ' ' :: path) disk = .ok (.ok report, e', disk')) :
    ∃ loaded, storage.load disk path = .ok loaded ∧ e'.slot = e.slot ∧
      Presents path loaded (.ok report) e' ∧
      match loaded with
      | .file bytes => Blob.countLines bytes ≤ e.limits.lines
      | .directory _ => e'.window.flags.directory = true := by
  have hidle := (e.unaltered_armed (e.window.flags.browsing && e.quitArmed)).idle h
  rw [dispatchOn_of_dispatch (EditM.dispatch_edit h hpath hsaved)] at hrun
  simp only [Progress.complete] at hrun
  obtain ⟨⟨last, e₂⟩, hshow, heq⟩ := bind_eq_ok.mp hrun
  cases heq
  cases hload : storage.load disk path with
  | error text =>
    rw [hload] at hshow
    cases hshow
  | ok loaded =>
    rw [hload] at hshow
    have hpresents := EditM.showLoaded_presents (e := { e with
      quitArmed := e.window.flags.browsing && e.quitArmed }) path e.window.flags.browsing loaded
    have hshows := EditM.showLoaded_shows (e := { e with
      quitArmed := e.window.flags.browsing && e.quitArmed }) path e.window.flags.browsing loaded
    have hopens := EditM.showLoaded_opens hidle.toHeld path e.window.flags.browsing loaded
    refine ⟨loaded, rfl, ?_, hpresents _ _ hshow, hshows _ _ hshow report rfl⟩
    have hopened := hopens _ _ hshow report rfl
    unfold EditM.Opens at hopened
    split at hopened
    · exact hopened.slot_eq
    · obtain ⟨undo, p, -, hconfined⟩ := hopened
      exact hconfined.slot_eq

/-- A line that was put together of a letter and a path makes a request with that path. -/
theorem asks_edit (hn : e.entry = none) (hnl : '\n' ∉ path) :
    e.asks ('e' :: ' ' :: path) = some ⟨some .edit, .default, ' ' :: path⟩ := by
  refine asks_letter hn .edit fun hlast => ?_
  have hmem := List.mem_of_getLast? hlast
  simp [hnl, show Command.letter .edit = 'e' from rfl] at hmem

theorem dispatchOn_edit_names (h : e.Nameless) (hn : e.entry = none) (hnl : '\n' ∉ path)
    {answer : Except EditError Report}
    (hrun : e.dispatchOn storage ('e' :: ' ' :: path) disk = .ok (answer, e', disk')) :
    NamesTail path answer e' := by
  have hbrings : Leads (EditM.dispatch ('e' :: ' ' :: path)) e
      (Brings fun _ => NamesTail (' ' :: path)) := by
    refine EditM.dispatch_asked (asks_edit hn hnl) (fun _ _ => trivial) fun range _ _ r => ?_
    exact EditM.runEdit_names (h.begun _ r) _
  have hnames := dispatchOn_brings hbrings hrun
  unfold NamesTail at hnames ⊢
  rw [Unicode.trim_space_cons] at hnames
  exact hnames

end

end Engine

/-! ## The editor when it is started -/

namespace CommandLoop

section
variable {storage : Storage σ} {config : Config} {path : String} {disk : σ} {bytes : Bytes}

/-- The editor before it reads its input, and whether it has stopped already. -/
def opening (storage : Storage σ) (config : Config) (path : String) (disk : σ) :
    Except Breach (State σ × Bool) :=
  State.take storage (openingLine path) ⟨.new config.settings.limits, storage.beginLog disk, []⟩

theorem run_opening (storage : Storage σ) (config : Config) (path : String) (input : Bytes)
    (disk : σ) : run storage config (some path) input disk =
      (opening storage config path disk >>= fun r =>
        if r.2 then return r.1.finish 0
        else loop storage config.settings (input.length + 1) input r.1) := rfl

/-- Session 1 is current and shows the file at the path, by its name, and nothing was printed but its
size; on the disk there is only a new log. -/
structure Opened (storage : Storage σ) (path : String) (bytes : Bytes) (disk : σ)
    (r : State σ × Bool) : Prop where
  goes_on : r.2 = false
  disk_eq : r.1.disk = storage.beginLog disk
  slot_eq : r.1.engine.slot = 1
  texts_eq : r.1.engine.window.texts r.1.engine.pool 1 r.1.engine.window.dol =
    .ok (Blob.split bytes).lines
  mode_eq : r.1.engine.window.mode = .normal
  fileName_eq : r.1.engine.window.fileName = some path.toList
  output_eq : r.1.output = [toString bytes.length ++ "\n"]

/-- A refusal is not a number. -/
theorem printed_error_ne (err : EditError) (n : Nat) :
    (printed (.error err)).1 ≠ toString n ++ "\n" := by
  intro heq
  have hmark : '?' ∈ (toString n ++ "\n").toList := by
    rw [← heq]
    simp [printed]
  rw [String.toList_append, Nat.toString_eq_repr, Nat.toList_repr] at hmark
  rcases List.mem_append.mp hmark with hdigit | hend
  · have hfalse := Nat.isDigit_of_mem_toDigits (by decide) (by decide) hdigit
    exact absurd hfalse (by decide)
  · exact absurd hend (by decide)

theorem printed_size (n : Nat) :
    printed (.ok (.ofSwitch [toString n])) = (toString n ++ "\n", false) := by
  simp [printed, Report.ofSwitch, Report.clean, String.join]

theorem opening_of_dispatchOn {answer : Except EditError Report} {e' : Engine} {disk' : σ}
    (h : (Engine.new config.settings.limits).dispatchOn storage ('e' :: ' ' :: path.toList)
      (storage.beginLog disk) = .ok (answer, e', disk')) : opening storage config path disk =
        .ok (State.print ⟨e', disk', []⟩ (printed answer).1, (printed answer).2) := by
  rw [opening, State.take, openingLine, h]
  rfl

theorem opening_typed (hpath : IsPath path.toList)
    (hload : storage.load (storage.beginLog disk) path.toList = .ok (.file bytes))
    (hsize : Blob.countLines bytes ≤ config.settings.limits.lines) :
    Succeeds (opening storage config path disk) (Opened storage path bytes disk) := by
  have hidle : (Engine.new config.settings.limits).Idle := ⟨Engine.steady_new _, rfl⟩
  obtain ⟨report, e', hrun, hd⟩ := Engine.dispatchOn_edit hidle hpath rfl hload hsize
  obtain ⟨loaded, hload', hslot, ⟨hname, hreport⟩, -⟩ :=
    Engine.dispatchOn_edit_presents hidle hpath rfl hrun
  obtain rfl : Loaded.file bytes = loaded := Except.ok.inj (hload.symm.trans hload')
  obtain rfl := hreport bytes rfl
  have hopening := opening_of_dispatchOn hrun
  rw [printed_size] at hopening
  refine ⟨_, hopening, rfl, rfl, hslot, ?_, ?_, hname, rfl⟩
  · show e'.window.texts e'.pool 1 e'.window.dol = _
    rw [hd.toHeld.texts_eq, hd.texts_eq]
  · show e'.window.mode = .normal
    unfold Window.mode
    rw [hd.flags_eq]
    rfl

/-- What was printed is the size of something that was loaded. -/
theorem dispatchOn_of_opened {r : State σ × Bool} (hrun : opening storage config path disk = .ok r)
    (h : Opened storage path bytes disk r) : ∃ report,
      (Engine.new config.settings.limits).dispatchOn storage ('e' :: ' ' :: path.toList)
          (storage.beginLog disk) = .ok (.ok report, r.1.engine, r.1.disk) ∧
        (printed (.ok report)).1 = toString bytes.length ++ "\n" := by
  obtain ⟨⟨answer, e', disk'⟩, hdispatch, heq⟩ := bind_eq_ok.mp hrun
  cases heq
  have hprinted := (List.cons.inj h.output_eq).1
  cases answer with
  | error err => exact absurd hprinted (printed_error_ne err bytes.length)
  | ok report => exact ⟨report, hdispatch, hprinted⟩

/-- Where the promise is kept, the name of the file is the path as it was typed. -/
theorem isPath_of_opened (hnl : '\n' ∉ path.toList) {r : State σ × Bool}
    (hrun : opening storage config path disk = .ok r) (h : Opened storage path bytes disk r) :
    IsPath path.toList := by
  obtain ⟨report, hdispatch, -⟩ := dispatchOn_of_opened hrun h
  have hnames := Engine.dispatchOn_edit_names (Engine.nameless_new _) rfl hnl hdispatch
  have hname := h.fileName_eq
  rcases hnames with hnone | ⟨hne, hnumber, hsome⟩
  · rw [hname] at hnone
    cases hnone
  · have htrim : Unicode.trim path.toList = path.toList :=
      (Option.some.inj (hname.symm.trans hsome)).symm
    rw [htrim] at hne hnumber
    exact ⟨hne, htrim, hnumber⟩

/-- Where the promise is kept, the new log did not alter the file: its lines and its size are those of
what was loaded. -/
theorem load_of_opened (hpath : IsPath path.toList) {r : State σ × Bool}
    (hrun : opening storage config path disk = .ok r) (h : Opened storage path bytes disk r) :
    storage.load (storage.beginLog disk) path.toList = .ok (.file bytes) := by
  have hidle : (Engine.new config.settings.limits).Idle := ⟨Engine.steady_new _, rfl⟩
  obtain ⟨report, hdispatch, hprinted⟩ := dispatchOn_of_opened hrun h
  obtain ⟨loaded, hload, -, ⟨-, hreport⟩, hshown⟩ :=
    Engine.dispatchOn_edit_presents hidle hpath rfl hdispatch
  cases loaded with
  | directory entries =>
    have hmode := h.mode_eq
    unfold Window.mode at hmode
    rw [if_pos hshown] at hmode
    cases hmode
  | file bytes' =>
    obtain ⟨report', e', hrun', hd⟩ := Engine.dispatchOn_edit hidle hpath rfl hload hshown
    rw [hdispatch] at hrun'
    obtain rfl := (Prod.mk.inj (Prod.mk.inj (Except.ok.inj hrun')).2).1
    have hlines : (Blob.split bytes').lines = (Blob.split bytes).lines := by
      have htexts := h.texts_eq
      rw [hd.toHeld.texts_eq, hd.texts_eq] at htexts
      exact Except.ok.inj htexts
    have hlength : bytes'.length = bytes.length := by
      rw [hreport bytes' rfl, printed_size] at hprinted
      have hdigits := congrArg String.toList ((String.append_left_inj _).mp hprinted)
      rw [Nat.toString_eq_repr, Nat.toString_eq_repr, Nat.toList_repr, Nat.toList_repr] at hdigits
      have hnumber := congrArg (Nat.ofDigitChars 10 · 0) hdigits
      rwa [Nat.ofDigitChars_ten_toDigits, Nat.ofDigitChars_ten_toDigits] at hnumber
    rw [hload, Blob.eq_of_split hlines hlength]

/-- Started with the path of a file that is not too long, the editor shows that file by its name
before it reads any input, unless the path is a number or has blanks at its ends, or the new log took
the place of the file. -/
theorem opens_iff_isPath (hnl : '\n' ∉ path.toList)
    (hload : storage.load disk path.toList = .ok (.file bytes))
    (hsize : Blob.countLines bytes ≤ config.settings.limits.lines) :
    Succeeds (opening storage config path disk) fun r =>
      (∀ input, run storage config (some path) input disk =
        if r.2 then .ok (r.1.finish 0)
        else loop storage config.settings (input.length + 1) input r.1) ∧
      (Opened storage path bytes disk r ↔ IsPath path.toList ∧
        storage.load (storage.beginLog disk) path.toList = storage.load disk path.toList) := by
  have hsettles := Engine.dispatchOn_settles (Engine.steady_new config.settings.limits) storage
    (openingLine path) (storage.beginLog disk)
  obtain ⟨⟨answer, e', disk'⟩, hdispatch, -⟩ := hsettles
  have hrun := opening_of_dispatchOn hdispatch
  rw [hload]
  refine ⟨_, hrun, fun input => ?_, fun hopened => ?_, fun ⟨hpath, hkept⟩ => ?_⟩
  · rw [run_opening, hrun]
    rfl
  · have hpath := isPath_of_opened hnl hrun hopened
    exact ⟨hpath, load_of_opened hpath hrun hopened⟩
  · exact (opening_typed hpath hkept hsize).of_eq hrun

/-- A file is opened by its name. -/
theorem opens_iff_isPath_file :
    let storage := FileTree.storage
    let disk : FileTree := ⟨[([Utf8.ofString "a b"], .file [120, 10])]⟩
    '\n' ∉ "a b".toList ∧ storage.load disk "a b".toList = .ok (.file [120, 10]) ∧
      Succeeds (opening storage .standard "a b" disk) (Opened storage "a b" [120, 10] disk) := by
  intro storage disk
  have hload : storage.load disk "a b".toList = .ok (.file [120, 10]) := by decide +kernel
  have hsize : Blob.countLines [120, 10] ≤ Config.standard.settings.limits.lines := by decide
  refine ⟨by decide, hload, (opens_iff_isPath (by decide) hload hsize).mono fun r hr => ?_⟩
  exact hr.2.mpr ⟨⟨by decide, by decide +kernel, by decide⟩, by decide +kernel⟩

/-- The file that becomes the log is shown without its text. -/
example :
    let disk : FileTree := ⟨[([FileTree.logPath], .file [97, 10])]⟩
    (opening FileTree.storage .standard FileTree.logName disk).map
      (fun r => (r.1.engine.window.dol, r.1.output)) = .ok (0, ["0\n"]) := by decide +kernel

/-- The file named `12` is there, but session 12 is begun instead, and its window is empty. -/
theorem opens_session_for_number :
    let disk : FileTree := ⟨[([Utf8.ofString "12"], .file [97, 10])]⟩
    FileTree.storage.load disk "12".toList = .ok (.file [97, 10]) ∧
      Blob.countLines [97, 10] ≤ Config.standard.settings.limits.lines ∧
      Succeeds (opening FileTree.storage .standard "12" disk) fun r =>
        r.1.engine.slot = 12 ∧ r.1.engine.window.dol = 0 ∧ r.1.engine.window.fileName = none ∧
          r.1.output = ["new session\n"] ∧ ¬Opened FileTree.storage "12" [97, 10] disk r := by
  intro disk
  have hall : (opening FileTree.storage .standard "12" disk >>= fun r =>
      return (r.1.engine.slot, r.1.engine.window.dol, r.1.engine.window.fileName, r.1.output)) =
      .ok (12, 0, none, ["new session\n"]) := by decide +kernel
  obtain ⟨r, hr, heq⟩ := bind_eq_ok.mp hall
  have hvalues := Except.ok.inj heq
  simp only [Prod.mk.injEq] at hvalues
  obtain ⟨hslot, hdol, hname, houtput⟩ := hvalues
  refine ⟨by decide +kernel, by decide, r, hr, hslot, hdol, hname, houtput, fun hopened => ?_⟩
  rw [hopened.slot_eq] at hslot
  cases hslot

end

end CommandLoop

end LineEditor
