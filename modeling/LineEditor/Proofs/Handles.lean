import LineEditor.Proofs.Bulk

/-!
# Handles under edits

Where the lines of a window come from. Whatever is done to them, each entry that the window has
afterwards names a line that it named before, with the same text, or a new line, which no one else
names and which is one of the texts that were stored for it.
-/

namespace LineEditor

theorem LineMap.handles_of_content {k l : LineMap}
    (h : k.map Entry.content = l.map Entry.content) : k.handles = l.handles := by
  have hread (m : LineMap) : m.handles = (m.map Entry.content).map Prod.fst := by
    rw [List.map_map]
    rfl
  rw [hread, hread, h]

/-- The entries of `l'` name lines that `l` named, with the same texts, or new lines: those have a
text in `texts`, and none of `m` names them. The pool accounts for all of them. -/
structure LineMap.Draws (l : LineMap) (p : Pool) (m : Multiset (Handle × Option Suffix))
    (texts : List Bytes) (l' : LineMap) (p' : Pool) : Prop where
  accounts : p'.Accounts (l'.contents + m)
  source : ∀ h ∈ l'.handles, (h ∈ l.handles ∧ p'.text? h = p.text? h) ∨
    (h ∉ m.map Prod.fst ∧ ∃ text ∈ texts, p'.text? h = some text)

namespace LineMap.Draws

section
variable {l l' l'' : LineMap} {p p' p'' : Pool} {m : Multiset (Handle × Option Suffix)}
  {texts texts' : List Bytes}

theorem mono (h : l.Draws p m texts l' p') (hsub : texts ⊆ texts') : l.Draws p m texts' l' p' :=
  ⟨h.accounts, fun x hx => (h.source x hx).imp_right fun ⟨hout, text, ht, htext⟩ =>
    ⟨hout, text, hsub ht, htext⟩⟩

theorem refl (ha : p.Accounts (l.contents + m)) (texts : List Bytes) : l.Draws p m texts l p :=
  ⟨ha, fun _ hx => .inl ⟨hx, rfl⟩⟩

theorem trans (h : l.Draws p m texts l' p') (h' : l'.Draws p' m texts l'' p'') :
    l.Draws p m texts l'' p'' where
  accounts := h'.accounts
  source x hx := by
    rcases h'.source x hx with ⟨hx, hsame⟩ | hnew
    · rw [hsame]
      exact h.source x hx
    · exact .inr hnew

end

end LineMap.Draws

namespace Window

section
variable {w w' : Window} {p p' : Pool} {m : Multiset (Handle × Option Suffix)}

/-- What goes in is of the window itself or new to it. -/
theorem exchange_draws {q : Pool} {start remove count : Nat} {new : List Entry} {texts : List Bytes}
    (ha : q.Accounts (LineMap.contents new + (w.lines.contents + m)))
    (hkeeps : ∀ h ∈ w.lines.handles, q.text? h = p.text? h)
    (hnew : ∀ h ∈ LineMap.handles new, (h ∈ w.lines.handles ∧ q.text? h = p.text? h) ∨
      (h ∉ m.map Prod.fst ∧ ∃ text ∈ texts, q.text? h = some text))
    (h : w.exchange q start remove new = .ok (w', p', count)) :
    w.lines.Draws p m texts w'.lines p' := by
  obtain ⟨rfl, hfit⟩ := exchange_eq_ok h
  obtain ⟨-, hacc, hkept⟩ := (exchange_accounts ha hfit).of_eq h
  refine ⟨hacc, fun x hx => ?_⟩
  have hsame : p'.text? x = q.text? x := by
    refine hkept x ?_
    rw [Multiset.map_add, LineMap.map_fst_contents]
    exact Multiset.mem_add.mpr (.inl hx)
  obtain ⟨y, hy, rfl⟩ := List.mem_map.mp hx
  rw [hsame]
  rcases Sequence.mem_splice hy with hy | hy
  · have hmem := List.mem_map_of_mem (f := Entry.handle) hy
    exact .inl ⟨hmem, hkeeps _ hmem⟩
  · exact hnew _ (List.mem_map_of_mem hy)

theorem enter_draws (ha : p.Accounts (w.lines.contents + m)) {start remove count : Nat}
    {texts : List Bytes} {new : List Entry} (hnew : LineMap.handles new = (p.append texts).1)
    (h : w.exchange (p.append texts).2 start remove new = .ok (w', p', count)) :
    w.lines.Draws p m texts w'.lines p' := by
  obtain ⟨hacc, hkeeps⟩ := ha.enter texts hnew
  have hstored := ha.balanced.append_texts texts
  have hfresh := (ha.balanced.append texts).2.2.1
  refine exchange_draws hacc (fun x hx => hkeeps.left x ?_) (fun x hx => .inr ⟨?_, ?_⟩) h
  · rw [LineMap.map_fst_contents]
    exact hx
  · rw [hnew] at hx
    exact fun hm => hfresh x hx (Multiset.mem_of_le (Multiset.map_le_map (Multiset.le_add_left _ _)) hm)
  · rw [hnew] at hx
    have htext := List.mem_map_of_mem (f := (p.append texts).2.text?) hx
    rw [hstored] at htext
    obtain ⟨text, ht, heq⟩ := List.mem_map.mp htext
    exact ⟨text, ht, heq.symm⟩

theorem insertEntries_draws (ha : p.Accounts (w.lines.contents + m)) {after : Nat}
    {entries : List (Bytes × Option Suffix)} (h : w.insertEntries p after entries = .ok (w', p')) :
    w.lines.Draws p m (entries.map Prod.fst) w'.lines p' := by
  unfold insertEntries at h
  obtain ⟨⟨w₁, p₁, count⟩, hex, heq⟩ := bind_eq_ok.mp h
  have hhandles : LineMap.handles (((p.append (entries.map Prod.fst)).1.zip entries).map
      fun x => { Entry.plain x.1 with suffix := x.2.2 }) = (p.append (entries.map Prod.fst)).1 := by
    have hlen : (p.append (entries.map Prod.fst)).1.length = entries.length := by
      rw [Pool.length_append, List.length_map]
    rw [LineMap.handles, List.map_map]
    exact List.map_fst_zip (Nat.le_of_eq hlen)
  have hd := enter_draws ha hhandles hex
  cases heq
  split
  · exact hd
  · exact hd

theorem insertLines_draws (ha : p.Accounts (w.lines.contents + m)) {after : Nat} {lines : List Bytes}
    (h : w.insertLines p after lines = .ok (w', p')) : w.lines.Draws p m lines w'.lines p' := by
  have htexts : (lines.map fun line => (line, (none : Option Suffix))).map Prod.fst = lines := by
    rw [List.map_map]
    exact List.map_id lines
  have hd := insertEntries_draws ha h
  rwa [htexts] at hd

theorem deleteLines_draws (ha : p.Accounts (w.lines.contents + m)) {start stop : Nat}
    (texts : List Bytes) (h : w.deleteLines p start stop = .ok (w', p')) :
    w.lines.Draws p m texts w'.lines p' := by
  have hnone : p.Accounts (LineMap.contents [] + (w.lines.contents + m)) := by simpa using ha
  unfold deleteLines at h
  obtain ⟨-, h⟩ := guarded_eq_ok h
  obtain ⟨⟨w₁, p₁, count⟩, hex, heq⟩ := bind_eq_ok.mp h
  have hd : w.lines.Draws p m texts w₁.lines p₁ :=
    exchange_draws hnone (fun _ _ => rfl) (fun x hx => by cases hx) hex
  cases heq
  exact hd

theorem replaceLines_draws (ha : p.Accounts (w.lines.contents + m)) {start stop : Nat}
    {lines : List Bytes} (h : w.replaceLines p start stop lines = .ok (w', p')) :
    w.lines.Draws p m lines w'.lines p' := by
  cases lines with
  | nil => exact deleteLines_draws ha [] h
  | cons line rest =>
    unfold replaceLines at h
    obtain ⟨-, h⟩ := guarded_eq_ok h
    obtain ⟨⟨w₁, p₁, count⟩, hex, heq⟩ := bind_eq_ok.mp h
    have hhandles : LineMap.handles (LineMap.ofHandles (p.append (line :: rest)).1) =
        (p.append (line :: rest)).1 := by
      simp [LineMap.handles, LineMap.ofHandles, Entry.plain, Function.comp_def]
    have hd := enter_draws ha hhandles hex
    cases heq
    exact hd

theorem reviseLine_draws (ha : p.Accounts (w.lines.contents + m)) {n : Nat} {lines : List Bytes}
    (h : w.reviseLine p n lines = .ok (w', p')) : w.lines.Draws p m lines w'.lines p' := by
  unfold reviseLine at h
  obtain ⟨⟨w₁, p₁⟩, hrep, heq⟩ := bind_eq_ok.mp h
  have hd := replaceLines_draws ha hrep
  cases heq
  split
  · exact hd
  · exact hd

/-- What one change stored, a later one may take out again. -/
theorem reviseLines_draws (changes : List (Nat × List Bytes)) {shift : Nat}
    (ha : p.Accounts (w.lines.contents + m)) (h : w.reviseLines p shift changes = .ok (w', p')) :
    w.lines.Draws p m (changes.flatMap Prod.snd) w'.lines p' := by
  induction changes generalizing w p shift with
  | nil =>
    cases h
    exact .refl ha _
  | cons c rest ih =>
    obtain ⟨n, lines⟩ := c
    unfold reviseLines at h
    obtain ⟨⟨w₁, p₁⟩, hrev, h⟩ := bind_eq_ok.mp h
    obtain ⟨more, -, h⟩ := bind_eq_ok.mp h
    obtain ⟨last, -, h⟩ := bind_eq_ok.mp h
    obtain ⟨w₂, hgoto, h⟩ := bind_eq_ok.mp h
    unfold goto at hgoto
    obtain ⟨-, hgoto⟩ := guarded_eq_ok hgoto
    cases hgoto
    rw [List.flatMap_cons]
    have hd := reviseLine_draws ha hrev
    refine (hd.mono (List.subset_append_left _ _)).trans ?_
    exact (ih (w := w₁.setDot last) hd.accounts h).mono (List.subset_append_right _ _)

theorem copyLines_draws (ha : p.Accounts (w.lines.contents + m)) {start stop after : Nat}
    (texts : List Bytes) (h : w.copyLines p start stop after = .ok (w', p')) :
    w.lines.Draws p m texts w'.lines p' := by
  unfold copyLines at h
  obtain ⟨-, h⟩ := guarded_eq_ok h
  obtain ⟨q, hretain, h⟩ := bind_eq_ok.mp h
  obtain ⟨⟨w₁, p₁, count⟩, hex, heq⟩ := bind_eq_ok.mp h
  have hin {x : Entry} (hx : x ∈ (w.lines.removed (start - 1) (stop - start + 1)).map Entry.unmark) :
      ∃ y ∈ w.lines, y.content = x.content := by
    obtain ⟨y, hy, rfl⟩ := List.mem_map.mp hx
    exact ⟨y, w.lines.removed_subset _ _ hy, rfl⟩
  have hsub : LineMap.contents ((w.lines.removed (start - 1) (stop - start + 1)).map Entry.unmark) ⊆
      w.lines.contents + m := by
    intro c hc
    obtain ⟨x, hx, rfl⟩ := LineMap.mem_contents.mp hc
    exact Multiset.mem_add.mpr (.inl (LineMap.mem_contents.mpr (hin hx)))
  obtain ⟨hacc, htext⟩ := (ha.share hsub).of_eq hretain
  have hd : w.lines.Draws p m texts w₁.lines p₁ := by
    refine exchange_draws hacc (fun x _ => htext x) (fun x hx => .inl ⟨?_, htext x⟩) hex
    obtain ⟨y, hy, rfl⟩ := List.mem_map.mp hx
    obtain ⟨z, hz, heq⟩ := hin hy
    exact List.mem_map.mpr ⟨z, hz, congrArg Prod.fst heq⟩
  cases heq
  exact hd

theorem moveLines_draws (ha : p.Accounts (w.lines.contents + m)) {start stop after : Nat}
    (texts : List Bytes) (h : w.moveLines start stop after = .ok w') :
    w.lines.Draws p m texts w'.lines p := by
  rw [moveLines_eq] at h
  obtain ⟨hout, h⟩ := guarded_eq_ok h
  obtain ⟨-, h⟩ := guarded_eq_ok h
  obtain ⟨hin, h⟩ := guarded_eq_ok h
  cases h
  simp only [Bool.or_eq_true, decide_eq_true_eq, Bool.and_eq_true] at hout hin
  have hperm : (w.move start stop after).lines.Perm w.lines := w.lines.relocate_perm (by omega)
  refine ⟨(LineMap.contents_perm hperm).symm ▸ ha, fun x hx => .inl ⟨?_, rfl⟩⟩
  exact (hperm.map Entry.handle).subset hx

end

end Window

/-- The lines that an edit stores. -/
def Edit.stored : Edit → List Bytes
  | .insert _ lines | .replace _ _ lines => lines
  | .revise changes => changes.flatMap Prod.snd
  | .delete _ _ | .copy _ _ _ | .move _ _ _ => []

/-- An edit brings no other lines into a window than those it stores. -/
theorem Edit.perform_draws {w w' : Window} {p p' : Pool} {m : Multiset (Handle × Option Suffix)}
    (ha : p.Accounts (w.lines.contents + m)) {change : Edit}
    (h : change.perform w p = .ok (w', p')) : w.lines.Draws p m change.stored w'.lines p' := by
  cases change with
  | insert after lines => exact Window.insertLines_draws ha h
  | delete start stop => exact Window.deleteLines_draws ha [] h
  | replace start stop lines => exact Window.replaceLines_draws ha h
  | copy start stop after => exact Window.copyLines_draws ha [] h
  | move start stop after =>
    obtain ⟨w₁, hmove, heq⟩ := bind_eq_ok.mp h
    cases heq
    exact Window.moveLines_draws ha [] hmove
  | revise changes => exact Window.reviseLines_draws changes ha h

namespace EditM

section
variable {e : Engine}

theorem insertBulk_draws (h : e.Held) (place : Nat) (blob : Bytes) :
    Leads (insertBulk place blob) e (orStays e fun _ e' =>
      e.window.lines.Draws e.pool e.beside (Blob.split blob).lines e'.window.lines e'.pool) := by
  have hput {w : Window} (hl : w.lines = e.window.lines) : Leads (do
      onWindow fun w p => w.insertLines p place (Blob.split blob).lines
      if place = e.view.window.dol && !(Blob.split blob).lines.isEmpty &&
          !(Blob.split blob).finalNewline then
        modifyWindow fun w => { w with flags.noFinalNewline := true }
      return (Blob.split blob).lines.length) (e.setWindow w) (orStays e fun _ e' =>
        e.window.lines.Draws e.pool e.beside (Blob.split blob).lines e'.window.lines e'.pool) := by
    have ha : e.pool.Accounts (w.lines.contents + e.beside) := by
      rw [hl]
      exact h.accounts
    rw [leads_onWindow_bind]
    intro w' p' hrun
    have hd := Window.insertLines_draws ha hrun
    rw [hl] at hd
    split
    · rw [leads_modifyWindow_bind]
      exact leads_pure.mpr hd
    · exact leads_pure.mpr hd
  unfold insertBulk
  simp only [Blob.read_bind]
  rw [leads_get_bind]
  refine leads_reads (e.view.checkPlace_reads place) (fun _ _ => ?_) fun _ => rfl
  refine leads_reads (e.view.checkCapacity_reads _) (fun _ _ => ?_) fun _ => rfl
  split
  · rw [leads_modifyWindow_bind]
    exact hput rfl
  · exact hput (w := e.window) rfl

theorem insertDirectory_draws (h : e.Held) (place : Nat) (entries : List (Bytes × Option Suffix)) :
    Leads (insertDirectory place entries) e (orStays e fun _ e' =>
      e.window.lines.Draws e.pool e.beside (entries.map Prod.fst) e'.window.lines e'.pool) := by
  unfold insertDirectory
  rw [leads_get_bind]
  refine leads_reads (e.view.checkPlace_reads place) (fun _ _ => ?_) fun _ => rfl
  refine leads_reads (e.view.checkCapacity_reads _) (fun _ _ => ?_) fun _ => rfl
  rw [leads_modifyWindow_bind, leads_onWindow_bind]
  intro w' p' hrun
  have ha : e.pool.Accounts (e.window.lines.contents + e.beside) := h.accounts
  exact leads_pure.mpr (Window.insertEntries_draws
    (w := { e.window with flags.directory := true }) ha hrun)

end

end EditM

end LineEditor
