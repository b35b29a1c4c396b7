import LineEditor.Proofs.Lookalikes
import LineEditor.Proofs.ProperRuns

/-!
# Stored lines

A file on disk and the window that shows it count the same lines only if no stored line has a newline
in it. All that is cut into lines is cut at newlines, and what a command makes of such lines has none
either. The names in a directory are not cut: that one of them has a newline must be ruled out.
-/

namespace LineEditor

theorem Utf8.newline_mem_ofChars {s : List Char} : Bytes.newline ∈ ofChars s ↔ '\n' ∈ s := by
  have hencode (c : Char) : Bytes.newline ∈ String.utf8EncodeChar c ↔ c = '\n' := by
    constructor
    · intro h
      by_cases hc : c.toNat < 128
      · rw [encode_ascii hc, List.mem_singleton] at h
        have hnat : c.toNat % 256 = 10 := by
          have hn := congrArg UInt8.toNat h
          rw [UInt8.toNat_ofNat'] at hn
          exact hn.symm
        refine Char.toNat_inj.mp ?_
        show c.toNat = 10
        omega
      · exact absurd (le_of_mem_encode (Nat.le_of_not_lt hc) h) (by decide)
    · rintro rfl
      decide
  unfold ofChars
  rw [List.mem_flatMap]
  simp only [hencode, exists_eq_right]

/-- The last line has a newline as far as a blob of the lines can tell. -/
theorem ProperText.split_join {limits : Limits} {texts : List Bytes} {unended : Bool}
    (h : ProperText (fun line => Bytes.newline ∉ line) limits texts unended) :
    (Blob.split (Blob.join texts !unended)).lines = texts ∧
      (Blob.split (Blob.join texts !unended)).finalNewline = !(unended && !texts.isEmpty) := by
  by_cases hnil : texts = []
  · have hjoin : Blob.join texts (!unended) = [] := (Blob.join_eq_nil_iff _).mpr (.inl hnil)
    rw [hjoin, hnil]
    exact ⟨rfl, by rw [List.isEmpty_nil, Bool.not_true, Bool.and_false]; rfl⟩
  · have hsome : texts.isEmpty = false := by simpa using hnil
    rw [hsome, Bool.not_false, Bool.and_true]
    refine Blob.split_join h.lines fun hfinal => ?_
    have hlast := List.getLast?_eq_some_getLast hnil
    exact ⟨_, hlast, h.last_ne_nil (by simpa using hfinal) _ hlast⟩

theorem ProperText.countLines_join {limits : Limits} {texts : List Bytes} {unended : Bool}
    (h : ProperText (fun line => Bytes.newline ∉ line) limits texts unended) :
    Blob.countLines (Blob.join texts !unended) = texts.length := by
  rw [Blob.countLines_eq, h.split_join.1]

/-- What is typed in the call has no newline but at its end, and nothing with a newline in its name is
listed. -/
def Call.Unbroken : Call → Prop :=
  Call.Supplies (fun text => '\n' ∉ text) (Loaded.Named fun name => Bytes.newline ∉ name)

theorem Call.Unbroken.supplies {c : Call} (h : c.Unbroken) :
    c.Supplies (fun text => Bytes.newline ∉ Utf8.ofChars text)
      (Loaded.Named fun name => Bytes.newline ∉ name) := by
  cases c with
  | line storage disk text => exact ⟨mt Utf8.newline_mem_ofChars.mp h.1, h.2⟩
  | _ => exact h

namespace Engine

section
variable {e : Engine}

/-- What is read of lines that the engine holds is one of their texts. -/
theorem Held.get_text (h : e.Held) {m : LineMap} (hm : m.contents ⊆ e.contents) {x : Entry}
    (hx : x ∈ m) : ∃ text ∈ e.pool.texts m, e.pool.get x.handle = .ok text := by
  obtain ⟨text, hget, htext⟩ := h.accounts.get (hm (LineMap.mem_contents.mpr ⟨x, hx, rfl⟩))
  refine ⟨text, List.mem_map.mpr ⟨e.pool.row x, List.mem_map_of_mem hx, ?_⟩, hget⟩
  unfold Pool.row
  rw [htext]
  rfl

/-- In every run whose calls bring no newline in what is not cut, no line of a window or record has
one, and each window gives a blob with as many lines as it has. -/
theorem stored_lines_unbroken {limits : Limits} {calls : List Call}
    (hcalls : ∀ c ∈ calls, c.Unbroken) (hrun : (Engine.new limits).performAll calls = .ok e) :
    ∀ s ∈ e.table.sessions,
      (∀ w ∈ s.windows,
        (∀ x ∈ w.lines, ∃ text, e.pool.get x.handle = .ok text ∧ Bytes.newline ∉ text) ∧
        ∃ blob, (e.setWindow w).run (EditM.extractRange 1 w.dol) = .ok (.ok blob, e.setWindow w) ∧
          Blob.countLines blob = w.dol) ∧
      ∀ r, s.undo.record = some r →
        ∀ x ∈ r.lines, ∃ text, e.pool.get x.handle = .ok text ∧ Bytes.newline ∉ text := by
  have hproper := (kept_proper lineKind_newline).performAll (steady_new limits) (proper_new _ limits)
    (fun c hc => (hcalls c hc).supplies) (fun c _ => c.opens_any fun _ => trivial) (fun _ _ _ _ _ => trivial) hrun
  intro s hs
  have hholds := hproper.table s hs
  have hsub : s.contents ⊆ e.contents := by
    rw [← hproper.toHeld.table_contents]
    exact SessionTable.contents_subset hs
  refine ⟨fun w hw => ?_, fun r hr x hx => ?_⟩
  · have htext := hholds.windows w hw
    have hlines := Multiset.Subset.trans (Session.window_contents_subset hw) hsub
    refine ⟨fun x hx => ?_, _, EditM.extractRange_whole (fun x hx => ?_) (Nat.le_refl 1) fun _ => rfl, ?_⟩
    · obtain ⟨text, hmem, hget⟩ := hproper.toHeld.get_text hlines hx
      exact ⟨text, hget, htext.lines text hmem⟩
    · obtain ⟨text, -, hget⟩ := hproper.toHeld.get_text hlines hx
      exact ⟨text, hget, trivial⟩
    · exact htext.countLines_join.trans (Pool.length_texts _ _)
  · have hlines := Multiset.Subset.trans (Session.record_contents_subset hr) hsub
    obtain ⟨text, hmem, hget⟩ := hproper.toHeld.get_text hlines hx
    exact ⟨text, hget, (hholds.record r hr).lines text hmem⟩

/-- A listing of one name, and a blob without a newline behind it. -/
theorem stored_lines_unbroken_listing : ∃ e,
    (Engine.new ⟨1, 10, 100⟩).performAll [.insertDirectory 0 [([97], none)], .insertBulk 1 [98]] =
      .ok e ∧
      (∀ x ∈ e.window.lines, ∃ text, e.pool.get x.handle = .ok text ∧ Bytes.newline ∉ text) ∧
      ∃ blob, e.run (EditM.extractRange 1 2) = .ok (.ok blob, e) ∧ Blob.countLines blob = 2 := by
  have hcalls : ∀ c ∈ [Call.insertDirectory 0 [([97], none)], .insertBulk 1 [98]], c.Unbroken := by
    intro c hc
    simp only [List.mem_cons, List.not_mem_nil, or_false] at hc
    rcases hc with rfl | rfl
    · intro x hx
      rw [List.mem_singleton.mp hx]
      decide
    · exact trivial
  obtain ⟨e, hrun, hs⟩ := (steady_new ⟨1, 10, 100⟩).performAll
    [.insertDirectory 0 [([97], none)], .insertBulk 1 [98]]
  have hdol : e.window.dol = 2 := by
    cases hrun
    rfl
  have hsession : e.session ∈ e.table.sessions := hs.toHeld.table_perm.mem_iff.mpr List.mem_cons_self
  have hwindow : e.window ∈ e.session.windows := List.mem_append_right _ (List.mem_singleton_self _)
  have h := (stored_lines_unbroken hcalls hrun _ hsession).1 _ hwindow
  rw [hdol] at h
  exact ⟨e, hrun, h⟩

/-- The names in a directory are not cut, so one with a newline in it becomes a line with a newline. -/
theorem listed_name_breaks_line : ∃ e,
    (Engine.new ⟨1, 10, 100⟩).performAll [.line FileTree.storage
      ⟨[([[100]], .directory), ([[100], [97, 10, 98]], .file [])]⟩ ['e', ' ', 'd']] = .ok e ∧
      e.pool.texts e.window.lines = [[97, 10, 98]] ∧
      ∃ blob, e.run (EditM.extractRange 1 e.window.dol) = .ok (.ok blob, e) ∧
        Blob.countLines blob ≠ e.window.dol := by
  obtain ⟨e, hrun, hs⟩ := (steady_new ⟨1, 10, 100⟩).performAll [.line FileTree.storage
    ⟨[([[100]], .directory), ([[100], [97, 10, 98]], .file [])]⟩ ['e', ' ', 'd']]
  have hread : ((Engine.new ⟨1, 10, 100⟩).performAll [.line FileTree.storage
      ⟨[([[100]], .directory), ([[100], [97, 10, 98]], .file [])]⟩ ['e', ' ', 'd']]).map
        (fun e => (e.pool.texts e.window.lines, e.window.dol, e.window.flags.noFinalNewline)) =
      .ok ([[97, 10, 98]], 1, false) := by decide +kernel
  rw [hrun] at hread
  have hvalues := Except.ok.inj hread
  simp only [Prod.mk.injEq] at hvalues
  obtain ⟨htexts, hdol, hfinal⟩ := hvalues
  have hextract := EditM.extractRange_whole hs.toHeld.readable (Nat.le_refl 1) fun _ => rfl
  rw [htexts, hfinal] at hextract
  refine ⟨e, hrun, htexts, _, hextract, ?_⟩
  rw [hdol]
  decide

end

end Engine

end LineEditor
