import LineEditor.Proofs.BinaryWindows
import LineEditor.Proofs.Deeds

/-!
# Remembered searches

A search text is remembered when it has been compiled for its window, and is compiled again when it
is used. In between the window may have become binary, or case may have been ignored the first time.
Short of that, a remembered text compiles whenever it is asked for.
-/

namespace LineEditor

/-- The text compiles, with case ignored or not, where lines are matched byte by byte or not. -/
def Compiles (source : List Char) (binary : Bool) : Prop :=
  ∃ ignoreCase m, compilePattern source ignoreCase binary = .ok m

namespace Engine

/-- Before, no window with the number `n` was binary; afterwards one is, and it remembers the text. -/
structure BlursTo (e e' : Engine) (n : Nat) (source : List Char) : Prop where
  before : ∀ w ∈ e.windows, w.id = n → w.flags.binary = false
  after : ∃ w ∈ e'.windows, w.id = n ∧ w.flags.binary = true ∧ w.lastSearch = some source

/-- On the way along the calls, the window with the number `n` becomes binary when it remembers the
text. -/
inductive Blurs (n : Nat) (source : List Char) : Engine → List Call → Prop
  | now {e e' c calls} : e.perform c = .ok e' → e.BlursTo e' n source → Blurs n source e (c :: calls)
  | later {e e' c calls} : e.perform c = .ok e' → Blurs n source e' calls →
      Blurs n source e (c :: calls)

end Engine

/-! ## What edits keep -/

namespace Window

/-- By which number a window goes, how it matches its lines, and what it searched for last. -/
def traits (w : Window) : Nat × Bool × Option (List Char) := (w.id, w.flags.binary, w.lastSearch)

section
variable {w w' : Window} {p p' : Pool}

theorem insertEntries_traits {after : Nat} {entries : List (Bytes × Option Suffix)}
    (h : w.insertEntries p after entries = .ok (w', p')) : w'.traits = w.traits := by
  obtain ⟨new, -, -, dot, rfl⟩ := insertEntries_eq_ok h
  rfl

theorem deleteLines_traits {start stop : Nat} (h : w.deleteLines p start stop = .ok (w', p')) :
    w'.traits = w.traits := by
  obtain ⟨-, rfl⟩ := deleteLines_eq_ok h
  rfl

theorem replaceLines_traits {start stop : Nat} {lines : List Bytes}
    (h : w.replaceLines p start stop lines = .ok (w', p')) : w'.traits = w.traits := by
  by_cases hne : lines = []
  · subst hne
    exact deleteLines_traits h
  · obtain ⟨new, -, -, -, rfl⟩ := replaceLines_eq_ok hne h
    rfl

theorem reviseLine_traits {n : Nat} {lines : List Bytes}
    (h : w.reviseLine p n lines = .ok (w', p')) : w'.traits = w.traits := by
  unfold reviseLine at h
  obtain ⟨⟨w₁, p₁⟩, hreplace, heq⟩ := bind_eq_ok.mp h
  have hsame := replaceLines_traits hreplace
  cases heq
  split
  · exact hsame
  · exact hsame

theorem reviseLines_traits {shift : Nat} {changes : List (Nat × List Bytes)}
    (h : w.reviseLines p shift changes = .ok (w', p')) : w'.traits = w.traits := by
  -- on the changes, each one made to what the ones above it left
  induction changes generalizing w p shift with
  | nil =>
    cases h
    rfl
  | cons c rest ih =>
    obtain ⟨w₁, p₁, hrevise, h⟩ := reviseLines_cons h
    exact (ih h).trans (show w₁.traits = w.traits from reviseLine_traits hrevise)

end

end Window

theorem Edit.perform_traits {change : Edit} {w w' : Window} {p p' : Pool}
    (h : change.perform w p = .ok (w', p')) : w'.traits = w.traits := by
  cases change with
  | insert after lines => exact Window.insertEntries_traits h
  | delete start stop => exact Window.deleteLines_traits h
  | replace start stop lines => exact Window.replaceLines_traits h
  | copy start stop after =>
    obtain ⟨-, -, rfl⟩ := Window.copyLines_eq_ok h
    rfl
  | revise changes => exact Window.reviseLines_traits h
  | move start stop after =>
    obtain ⟨w₁, hmove, heq⟩ := bind_eq_ok.mp h
    cases heq
    rw [Window.moveLines_eq_ok hmove]
    rfl

theorem Window.noteEdit_traits (w : Window) : w.noteEdit.traits = w.traits := by
  rw [noteEdit_eq]
  rfl

namespace EditM

section
variable {e : Engine}

theorem insertBulk_search (place : Nat) (blob : Bytes) :
    Leads (insertBulk place blob) e fun _ e' => e'.window.lastSearch = e.window.lastSearch := by
  have hput (b : Bool) : Leads (do
      onWindow fun w p => w.insertLines p place (Blob.split blob).lines
      if place = e.view.window.dol && !(Blob.split blob).lines.isEmpty &&
          !(Blob.split blob).finalNewline then
        modifyWindow fun w => { w with flags.noFinalNewline := true }
      return (Blob.split blob).lines.length)
      (e.setWindow { e.window with flags := { e.window.flags with binary := b } })
      fun _ e' => e'.window.lastSearch = e.window.lastSearch := by
    rw [leads_onWindow_bind]
    intro w p hrun
    obtain ⟨new, -, -, dot, rfl⟩ := Window.insertEntries_eq_ok hrun
    split
    · rw [leads_modifyWindow_bind]
      exact leads_pure.mpr rfl
    · exact leads_pure.mpr rfl
  unfold insertBulk
  simp only [Blob.read_bind]
  rw [leads_get_bind]
  refine leads_reads (e.view.checkPlace_reads place) (fun _ _ => ?_) fun _ => rfl
  refine leads_reads (e.view.checkCapacity_reads _) (fun _ _ => ?_) fun _ => rfl
  split
  · rw [leads_modifyWindow_bind]
    exact hput true
  · exact hput e.window.flags.binary

theorem insertDirectory_search (place : Nat) (entries : List (Bytes × Option Suffix)) :
    Leads (insertDirectory place entries) e fun _ e' => e'.window.lastSearch = e.window.lastSearch := by
  unfold insertDirectory
  rw [leads_get_bind]
  refine leads_reads (e.view.checkPlace_reads place) (fun _ _ => ?_) fun _ => rfl
  refine leads_reads (e.view.checkCapacity_reads _) (fun _ _ => ?_) fun _ => rfl
  rw [leads_modifyWindow_bind, leads_onWindow_bind]
  intro w p hrun
  obtain ⟨new, -, -, dot, rfl⟩ := Window.insertEntries_eq_ok hrun
  exact leads_pure.mpr rfl

end

end EditM

namespace Engine

/-! ## Window by window -/

/-- The traits of every window are as `Q` says, and no window that comes next has a number below
`first`. -/
structure Bears (Q : Nat × Bool × Option (List Char) → Prop) (first : Nat) (e : Engine) : Prop
    extends e.Shelved (fun _ => none) where
  traits : ∀ w ∈ e.windows, Q w.traits
  next_le : first ≤ e.nextWindow

section
variable {Q : Nat × Bool × Option (List Char) → Prop} {first : Nat} {e e' : Engine}

theorem Bears.window (h : e.Bears Q first) : Q e.window.traits :=
  h.traits e.window (h.toHeld.mem_windows_session e.window_mem_session)

theorem Bears.subset (h : e.Bears Q first) (h' : e'.Shelved fun _ => none)
    (hwindows : ∀ w ∈ e'.windows, w ∈ e.windows) (hnext : e.nextWindow ≤ e'.nextWindow) :
    e'.Bears Q first :=
  ⟨h', fun w hw => h.traits w (hwindows w hw), Nat.le_trans h.next_le hnext⟩

theorem Bears.of_table (h : e.Bears Q first) (h' : e'.Shelved fun _ => none)
    (htable : e'.table = e.table) (hnext : e.nextWindow ≤ e'.nextWindow) : e'.Bears Q first := by
  refine h.subset h' (fun w hw => ?_) hnext
  unfold windows at hw ⊢
  rwa [htable] at hw

/-- Only the current window is another. -/
theorem Bears.current (h : e.Bears Q first) (h' : e'.Shelved fun _ => none)
    (hothers : e'.others = e.others) (hbelow : e'.session.below = e.session.below)
    (hnext : e'.nextWindow = e.nextWindow) (hq : Q e'.window.traits) : e'.Bears Q first where
  toShelved := h'
  traits w hw := by
    rw [h'.toHeld.mem_windows_others, mem_session_windows, hothers, hbelow] at hw
    rcases hw with (hw | rfl) | hw
    · exact h.traits w (h.toHeld.mem_windows_session (below_mem_session hw))
    · exact hq
    · exact h.traits w (h.toHeld.mem_windows_others.mpr (.inr hw))
  next_le := by
    rw [hnext]
    exact h.next_le

/-- A window is new. -/
theorem Bears.creates (h : e.Bears Q first) (h' : e'.Shelved fun _ => none) {flags : WindowFlags}
    (hc : e.Creates e' flags) (hnext : e.nextWindow ≤ e'.nextWindow)
    (hq : Q (e.nextWindow, flags.binary, none)) : e'.Bears Q first where
  toShelved := h'
  traits w hw := by
    rcases hc.windows w hw with rfl | hw
    · exact hq
    · exact h.traits w hw
  next_le := Nat.le_trans h.next_le hnext

theorem windows_popped {undo : UndoSlot} {p : Pool} {w : Window} {rest : List Window} (h : e.Held)
    (h' : (e.popped undo p w rest).Held) (hb : e.session.below = w :: rest) :
    ∀ v ∈ (e.popped undo p w rest).windows, v ∈ e.windows := by
  intro v hv
  rw [h'.mem_windows_others, popped_windows hb, List.mem_reverse] at hv
  rcases hv with hv | hv
  · exact h.mem_windows_session (below_mem_session hv)
  · exact h.mem_windows_others.mpr (.inr hv)

theorem Bears.receive (hbinary : ∀ {n s}, Q (n, false, s) → Q (n, true, s)) (h : e.Bears Q first)
    {place : Nat} {new : List Row} {nul : Bool} (hr : e.Received e' place new)
    (hsearch : e'.window.lastSearch = e.window.lastSearch)
    (hflag : e'.window.flags.binary = (e.window.flags.binary || nul)) : e'.Bears Q first := by
  have hc := hr.confined h.toHeld
  refine h.current (h.toShelved.receive rfl hr) hc.others_eq hc.below_eq hc.next_eq ?_
  have hq : Q (e.window.id, e.window.flags.binary, e.window.lastSearch) := h.window
  show Q (e'.window.id, e'.window.flags.binary, e'.window.lastSearch)
  rw [hc.id_eq, hsearch, hflag]
  cases hb : e.window.flags.binary with
  | true =>
    rw [hb] at hq
    exact hq
  | false =>
    rw [hb] at hq
    cases nul with
    | false => exact hq
    | true => exact hbinary hq

variable (hrecall : ∀ {n b s}, Q (n, b, s) → ∀ {source ignoreCase m}, source ≠ [] →
    compilePattern source ignoreCase b = .ok m → Q (n, b, some source))
  (hbinary : ∀ {n s}, Q (n, false, s) → Q (n, true, s))
  (hnew : ∀ {n} b, first ≤ n → Q (n, b, none))
include hrecall hbinary hnew

/-- A property of traits survives everything, if it survives that a text is remembered which compiles,
that a window becomes binary, and that windows are opened. -/
theorem kept_bears : Kept (Bears Q first) freeTerms where
  held h := h.toHeld
  remember h r hr := by
    refine h.current (h.toShelved.recall r) rfl rfl rfl ?_
    have hq := h.window
    rcases hr with hsame | ⟨source, ignoreCase, m, hsource, hne, hm⟩
    · show Q (_, _, r.search)
      rw [hsame]
      exact hq
    · show Q (_, _, r.search)
      rw [hsource]
      exact hrecall hq hne hm
  begin h hb _ _ := h.of_table ((kept_shelved _).begin h.toShelved hb _ _) rfl (Nat.le_refl _)
  untype h := h.of_table ((kept_shelved _).untype h.toShelved) rfl (Nat.le_refl _)
  note h w hw := by
    refine h.current ((kept_shelved _).note h.toShelved hw) rfl rfl rfl ?_
    show Q (w.id, w.flags.binary, w.lastSearch)
    rw [hw.id_eq, hw.flags_eq, hw.lastSearch_eq]
    exact h.window
  mark h _ hl := h.current (h.toShelved.mark hl) rfl rfl rfl h.window
  record h _ _ hr := h.current (h.toShelved.record hr) rfl rfl rfl h.window
  arm h armed := h.of_table ((kept_shelved _).arm h.toShelved armed) rfl (Nat.le_refl _)
  interrupt h := h.of_table ((kept_shelved _).interrupt h.toShelved) rfl (Nat.le_refl _)
  save h := h.current ((kept_shelved _).save h.toShelved) rfl rfl rfl h.window
  undo h _ hr hid := h.current (h.toShelved.undone hr hid) rfl rfl rfl h.window
  switch h _ _ hs := h.of_table (h.toShelved.switch hs) (table_switched hs) (Nat.le_refl _)
  start h _ h₁ hn hs := h.creates (h.toShelved.switch_new h₁ hn hs .none)
    (creates_started h.toHeld h₁ hn hs) (Nat.le_succ _) (hnew _ h.next_le)
  move h _ h₁ hn hs := h.current (h.toShelved.move h₁ hn hs) rfl rfl rfl h.window
  close h n s p hs ha hk := by
    refine h.subset (h.toShelved.close hs ha hk) (fun w hw => ?_) (Nat.le_refl _)
    unfold windows at hw
    rw [table_closed p hs] at hw
    exact h.toHeld.mem_windows_others.mpr (.inr hw)
  plain := trivial
  push h flags _ := h.creates (h.toShelved.push flags) (creates_pushed h.toHeld flags)
    (Nat.le_succ _) (hnew _ h.next_le)
  replace h _ _ hd flags _ := h.creates (h.toShelved.replace hd flags)
    (creates_replaced h.toHeld hd flags) (Nat.le_succ _) (hnew _ h.next_le)
  pop h _ _ hd _ _ hb := by
    have h' := h.toShelved.pop hd hb
    exact h.subset h' (windows_popped h.toHeld h'.toHeld hb) (Nat.le_refl _)
  plan h _ _ hr hz hall tail := (sustained_inPlace _).plan (.refl h.toHeld) hr hz hall tail
  edit h _ hfit _ w _ hrun := by
    refine h.current ((kept_shelved fun _ => none).edit h.toShelved hfit ?_ hrun) rfl rfl rfl ?_
    · exact fun tokens ht => by cases ht
    · show Q w.noteEdit.traits
      rw [w.noteEdit_traits, Edit.perform_traits hrun]
      exact h.window
  type h _ hentry _ _ :=
    h.of_table ((kept_shelved _).type h.toShelved hentry trivial) rfl (Nat.le_refl _)
  commit _ _ _ _ _ _ _ _ := trivial
  read h _ _ _ _ _ hrun hr hflags := by
    have h₁ := h.receive hbinary hr (EditM.insertBulk_search _ _ _ _ hrun) (congrArg _ hflags)
    refine h₁.current h₁.toShelved.noteEdit rfl rfl rfl ?_
    show Q (Window.traits (Window.noteEdit _))
    rw [Window.noteEdit_traits]
    exact h₁.window
  receptive _ _ := trivial
  bulk h _ _ _ _ _ hrun hr hflags :=
    h.receive hbinary hr (EditM.insertBulk_search _ _ _ _ hrun) (congrArg _ hflags)
  listing h _ _ _ _ _ _ hrun hr hflags :=
    h.receive hbinary hr (EditM.insertDirectory_search _ _ _ _ hrun)
      ((congrArg WindowFlags.binary hflags).trans (Bool.or_false _).symm)
  update _ _ _ _ _ _ _ := trivial

end

/-! ## Calls and runs -/

section
variable {e e' : Engine}

/-- A text that is remembered is not empty and compiles for the window, or it did when the window was
not binary. -/
def Sensible : Nat × Bool × Option (List Char) → Prop
  | (_, binary, search) => ∀ source, search = some source →
      source ≠ [] ∧ (Compiles source binary ∨ (binary = true ∧ Compiles source false))

theorem Reachable.sensible (h : e.Reachable) {w : Window} (hw : w ∈ e.windows) : Sensible w.traits := by
  have hkept : Kept (Bears Sensible 0) freeTerms := by
    refine kept_bears ?_ ?_ ?_
    · rintro n b s - source ignoreCase m hne hm _ ⟨⟩
      exact ⟨hne, .inl ⟨ignoreCase, m, hm⟩⟩
    · intro n s hs source hsource
      obtain ⟨hne, hcompiles | ⟨hbinary, -⟩⟩ := hs source hsource
      · exact ⟨hne, .inr ⟨rfl, hcompiles⟩⟩
      · cases hbinary
    · rintro n b - _ ⟨⟩
  have hnew (limits : Limits) : (Engine.new limits).Bears Sensible 0 := by
    refine ⟨(Reachable.new limits).shelved, fun v hv => ?_, Nat.zero_le _⟩
    rw [windows_new] at hv
    rw [List.mem_singleton.mp hv]
    rintro _ ⟨⟩
  have hbears := hkept.reachable (fun _ => trivial) (fun _ => trivial) (fun _ => trivial)
    (fun _ _ => trivial) hnew h
  exact hbears.traits w hw

/-- Seen from `e`, a window is binary for good, and a text that is remembered compiles, or the window
of that number remembers it in `e` and is matched the same way, or it was not binary there and is so
now. -/
def Stems (e : Engine) : Nat × Bool × Option (List Char) → Prop
  | (n, binary, search) =>
    (∀ w ∈ e.windows, w.id = n → w.flags.binary = true → binary = true) ∧
    ∀ source, search = some source → Compiles source binary ∨
      (∃ w ∈ e.windows, w.traits = (n, binary, search)) ∨
      (binary = true ∧ ∀ w ∈ e.windows, w.id = n → w.flags.binary = false)

theorem kept_stems (h : e.Shelved fun _ => none) : Kept (Bears e.Stems e.nextWindow) freeTerms := by
  refine kept_bears ?_ ?_ ?_
  · rintro n b s ⟨hbefore, -⟩ source ignoreCase m - hm
    refine ⟨hbefore, ?_⟩
    rintro _ ⟨⟩
    exact .inl ⟨ignoreCase, m, hm⟩
  · rintro n s ⟨hbefore, -⟩
    refine ⟨fun _ _ _ _ => rfl, fun source _ => .inr (.inr ⟨rfl, fun w hw hid => ?_⟩)⟩
    cases hb : w.flags.binary with
    | false => rfl
    | true => exact absurd (hbefore w hw hid hb) Bool.false_ne_true
  · intro n b hn
    refine ⟨fun w hw hid => ?_, fun _ hs => by cases hs⟩
    exact absurd (h.id_lt hw) (by omega)

theorem bears_stems (h : e.Shelved fun _ => none) : e.Bears e.Stems e.nextWindow := by
  refine ⟨h, fun w hw => ⟨fun v hv hid hb => ?_, fun _ _ => .inr (.inl ⟨w, hw, rfl⟩)⟩, Nat.le_refl _⟩
  rw [h.eq_of_id_eq hw hv hid] at hb
  exact hb

theorem perform_stems (h : e.Reachable) (c : Call) (hrun : e.perform c = .ok e') {w : Window}
    (hw : w ∈ e'.windows) : e.Stems w.traits := by
  have hbears := (kept_stems h.shelved).perform h.steady (bears_stems h.shelved)
    (c.supplies_any (fun _ => trivial) fun _ => trivial) (c.opens_any fun _ => trivial)
    (fun _ => trivial) hrun
  exact hbears.traits w hw

/-- Wherever the calls lead, a text that a window remembers compiles for it, or the window remembered
it from the start, or it became binary on the way. -/
theorem performAll_traits (h : e.Reachable) {calls : List Call} (hrun : e.performAll calls = .ok e')
    {w' : Window} (hw' : w' ∈ e'.windows) {source : List Char} (hsource : w'.lastSearch = some source) :
    Compiles source w'.flags.binary ∨ (∃ w ∈ e.windows, w.traits = w'.traits) ∨
      (w'.flags.binary = true ∧ Compiles source false ∧ Blurs w'.id source e calls) := by
  -- on the calls; what the later ones left as they found it is looked up after the first one
  induction calls generalizing e with
  | nil =>
    cases hrun
    exact .inr (.inl ⟨w', hw', rfl⟩)
  | cons c calls ih =>
    obtain ⟨e₁, hfirst, hrest⟩ := bind_eq_ok.mp hrun
    rcases ih (.call c h hfirst) hrest with hcompiles | ⟨w₁, hw₁, htraits⟩ | ⟨hbinary, htext, hblurs⟩
    · exact .inl hcompiles
    · obtain ⟨hid, hflag, hsearch⟩ : w₁.id = w'.id ∧ w₁.flags.binary = w'.flags.binary ∧
          w₁.lastSearch = w'.lastSearch := by
        simpa only [Window.traits, Prod.mk.injEq] using htraits
      have hsource₁ := hsearch.trans hsource
      obtain ⟨-, hcompiles | ⟨-, htext⟩⟩ := (h.call c hfirst).sensible hw₁ source hsource₁
      · rw [hflag] at hcompiles
        exact .inl hcompiles
      · rcases (perform_stems h c hfirst hw₁).2 source hsource₁ with hcompiles | ⟨w, hw, heq⟩ | ⟨hb, hbefore⟩
        · rw [hflag] at hcompiles
          exact .inl hcompiles
        · exact .inr (.inl ⟨w, hw, heq.trans htraits⟩)
        · refine .inr (.inr ⟨hflag.symm.trans hb, htext, .now hfirst ?_⟩)
          rw [← hid]
          exact ⟨hbefore, w₁, hw₁, rfl, hb, hsource₁⟩
    · exact .inr (.inr ⟨hbinary, htext, .later hfirst hblurs⟩)

end

end Engine

end LineEditor
