import LineEditor.Proofs.Leads
import LineEditor.Proofs.Markup
import LineEditor.Proofs.Sessions

/-!
# Pages

A page is a window for browsing. `Engine.Shelved` follows pages by their numbers: each window that
has the number of a page shows its tokens, and so does each record of such a window. Numbers are
given out once, to one window of one session, and a record is always of a window that its session
has; so nothing that is done elsewhere comes near a page.
-/

namespace LineEditor

/-! ## Tokens of lines -/

/-- The tokens of rows, in order. -/
def Row.tokens (rows : List Row) : List Bytes := rows.flatMap fun row => Markup.tokenTexts row.text

/-- The tokens of the lines of a map, in order. -/
def Pool.tokens (p : Pool) (m : LineMap) : List Bytes := Row.tokens (p.rows m)

/-- The tokens that a window shows. -/
def Window.tokens (w : Window) (p : Pool) : Except Breach (List Bytes) := do
  return (← w.texts p 1 w.dol).flatMap Markup.tokenTexts

theorem Pool.tokens_keeps {p q : Pool} {m : LineMap} {n : Multiset (Handle × Option Suffix)}
    (h : p.Keeps q (n.map Prod.fst)) (hm : m.contents ⊆ n) : q.tokens m = p.tokens m := by
  unfold tokens
  rw [rows_keeps h hm]

/-- Marks and suffixes are no matter. -/
theorem Pool.tokens_of_content {k l : LineMap} (p : Pool)
    (h : k.map Entry.content = l.map Entry.content) : p.tokens k = p.tokens l := by
  have hread (m : LineMap) : p.tokens m =
      (m.map Entry.content).flatMap fun c => Markup.tokenTexts ((p.text? c.1).getD []) := by
    unfold tokens Row.tokens rows
    rw [List.flatMap_map, List.flatMap_map]
    rfl
  rw [hread, hread, h]

theorem Window.tokens_eq {w : Window} {p : Pool} {m : Multiset (Handle × Option Suffix)}
    (ha : p.Accounts m) (hm : w.lines.contents ⊆ m) : w.tokens p = .ok (p.tokens w.lines) := by
  have hread : w.texts p 1 w.dol = .ok (w.lines.map fun x => (p.row x).text) := by
    have hall : w.lines.removed (1 - 1) (w.dol + 1 - 1) = w.lines := by
      simp [LineMap.removed, dol]
    unfold texts
    rw [hall]
    refine mapM_ok fun x hx => ?_
    obtain ⟨text, hget, htext⟩ := ha.get (hm (LineMap.mem_contents.mpr ⟨x, hx, rfl⟩))
    rw [hget, Pool.row, htext]
    rfl
  unfold tokens Pool.tokens Row.tokens Pool.rows
  rw [hread, List.flatMap_map, ← List.flatMap_map]
  rfl

/-- A row may become several that carry its tokens. -/
theorem Row.tokens_splice {rows : List Row} {n : Nat} {row : Row} (hrow : rows[n]? = some row)
    {pieces : List Bytes} (h : Rewrites row.text pieces) :
    tokens (Sequence.splice rows n 1 (pieces.map Row.plain)) = tokens rows := by
  obtain ⟨hn, hget⟩ := List.getElem?_eq_some_iff.mp hrow
  have hrows : rows = rows.take n ++ row :: rows.drop (n + 1) := by
    rw [← hget, List.getElem_cons_drop hn, List.take_append_drop]
  have hpieces : tokens (pieces.map Row.plain) = Markup.tokenTexts row.text := by
    rw [← h.tokens_eq, tokens, List.flatMap_map]
    rfl
  conv_rhs => rw [hrows]
  unfold Sequence.splice tokens at *
  rw [List.flatMap_append, List.flatMap_append, hpieces, List.flatMap_append, List.flatMap_cons,
    List.append_assoc]

/-- By induction on the lines that change, of which each stands below those before it. -/
theorem Window.reviseRows_tokens (changes : List (Nat × List Bytes)) {rows : List Row} {shift : Nat}
    (hup : (changes.map Prod.fst).Pairwise (· < ·))
    (h : ∀ c ∈ changes, 1 ≤ c.1 ∧ ∃ row, rows[c.1 + shift - 1]? = some row ∧ Rewrites row.text c.2) :
    Row.tokens (reviseRows rows shift changes) = Row.tokens rows := by
  induction changes generalizing rows shift with
  | nil => rfl
  | cons c rest ih =>
    obtain ⟨n, pieces⟩ := c
    obtain ⟨⟨h₁, row, hrow, hrew⟩, hrest⟩ := List.forall_mem_cons.mp h
    rw [List.map_cons, List.pairwise_cons] at hup
    obtain ⟨hn, -⟩ := List.getElem?_eq_some_iff.mp hrow
    have hpos : 1 ≤ pieces.length := List.length_pos_iff.mpr hrew.ne_nil
    unfold reviseRows
    rw [ih hup.2 fun c hc => ?_, Row.tokens_splice hrow hrew]
    obtain ⟨hc₁, row', hrow', hrew'⟩ := hrest c hc
    refine ⟨hc₁, row', ?_, hrew'⟩
    have hbelow : n < c.1 := hup.1 c.1 (List.mem_map_of_mem hc)
    have hbehind := Sequence.getElem?_splice_behind rows (pieces.map Row.plain)
      (show n + shift - 1 + 1 ≤ rows.length from hn) (c.1 - n - 1)
    rw [List.length_map] at hbehind
    have hnew : n + shift - 1 + pieces.length + (c.1 - n - 1) =
        c.1 + (shift + (pieces.length - 1)) - 1 := by
      dsimp only at h₁
      omega
    have hold : n + shift - 1 + 1 + (c.1 - n - 1) = c.1 + shift - 1 := by
      dsimp only at h₁
      omega
    rw [← hnew, hbehind, hold, hrow']

theorem Edit.Spares.tokens_eq {change : Edit} {rows : List Row} {size : Nat}
    (h : change.Spares rows) (hfit : change.Fits size) :
    Row.tokens (change.rows rows) = Row.tokens rows := by
  cases change with
  | revise changes => exact Window.reviseRows_tokens changes h.1 fun c hc => ⟨(hfit c hc).1, h.2 c hc⟩
  | _ => exact h.elim

/-! ## Numbers of windows -/

/-- The tokens of pages, by number. -/
abbrev Pages := Nat → Option (List Bytes)

/-- A session with these windows and this record: the numbers of its windows are given out, its
record is of one of them, and its pages show their tokens. -/
structure Listed (pages : Pages) (p : Pool) (next : Nat) (ws : List Window)
    (record : Option UndoRecord) : Prop where
  numbers_lt : ∀ w ∈ ws, w.id < next
  numbers_nodup : (ws.map Window.id).Nodup
  record_mem : ∀ r, record = some r → r.window ∈ ws.map Window.id
  page : ∀ w ∈ ws, ∀ tokens, pages w.id = some tokens →
    w.flags.browsing = true ∧ p.tokens w.lines = tokens
  recorded : ∀ r, record = some r → ∀ tokens, pages r.window = some tokens →
    p.tokens r.lines = tokens

namespace Listed

section
variable {pages : Pages} {p q : Pool} {next : Nat} {ws : List Window} {w w' : Window}
  {record record' : Option UndoRecord}

theorem keeps (h : Listed pages p next ws record) {m : Multiset (Handle × Option Suffix)}
    (hk : p.Keeps q (m.map Prod.fst)) (hws : ∀ w ∈ ws, w.lines.contents ⊆ m)
    (hr : ∀ r, record = some r → r.lines.contents ⊆ m) {next' : Nat} (hn : next ≤ next') :
    Listed pages q next' ws record where
  numbers_lt w hw := Nat.lt_of_lt_of_le (h.numbers_lt w hw) hn
  numbers_nodup := h.numbers_nodup
  record_mem := h.record_mem
  page w hw tokens ht := by
    rw [Pool.tokens_keeps hk (hws w hw)]
    exact h.page w hw tokens ht
  recorded r hrec tokens ht := by
    rw [Pool.tokens_keeps hk (hr r hrec)]
    exact h.recorded r hrec tokens ht

/-- The last window goes, and its record with it. -/
theorem dropLast (h : Listed pages p next (ws ++ [w]) record)
    (hr : ∀ r, record' = some r → record = some r ∧ r.window ≠ w.id) :
    Listed pages p next ws record' where
  numbers_lt v hv := h.numbers_lt v (List.mem_append_left _ hv)
  numbers_nodup := by
    have hnodup := h.numbers_nodup
    rw [List.map_append] at hnodup
    exact hnodup.of_append_left
  record_mem r hrec := by
    obtain ⟨hold, hne⟩ := hr r hrec
    have hmem := h.record_mem r hold
    rw [List.map_append] at hmem
    exact (List.mem_append.mp hmem).resolve_right fun hlast => hne (List.mem_singleton.mp hlast)
  page v hv := h.page v (List.mem_append_left _ hv)
  recorded r hrec := h.recorded r (hr r hrec).1

/-- A window with the next number is no page. -/
theorem snoc (h : Listed pages p next ws record) (hid : w.id = next) (hnew : pages next = none) :
    Listed pages p (next + 1) (ws ++ [w]) record where
  numbers_lt v hv := by
    rcases List.mem_append.mp hv with hv | hv
    · exact Nat.lt_succ_of_lt (h.numbers_lt v hv)
    · rw [List.mem_singleton.mp hv, hid]
      exact Nat.lt_succ_self next
  numbers_nodup := by
    rw [List.map_append, List.nodup_append]
    refine ⟨h.numbers_nodup, List.nodup_singleton _, fun n hn k hk hnk => ?_⟩
    obtain ⟨v, hv, rfl⟩ := List.mem_map.mp hn
    have hlast : k = w.id := List.mem_singleton.mp hk
    have hlt := h.numbers_lt v hv
    omega
  record_mem r hr := by
    rw [List.map_append]
    exact List.mem_append_left _ (h.record_mem r hr)
  page v hv tokens ht := by
    rcases List.mem_append.mp hv with hv | hv
    · exact h.page v hv tokens ht
    · rw [List.mem_singleton.mp hv, hid, hnew] at ht
      cases ht
  recorded := h.recorded

/-- The last window changes, and perhaps the record. -/
theorem setLast (h : Listed pages p next (ws ++ [w]) record) (hid : w'.id = w.id)
    (hb : w'.flags.browsing = w.flags.browsing) {m : Multiset (Handle × Option Suffix)}
    (hk : p.Keeps q (m.map Prod.fst)) (hws : ∀ w ∈ ws, w.lines.contents ⊆ m)
    (hw' : ∀ tokens, pages w.id = some tokens → q.tokens w'.lines = tokens)
    (hr : ∀ r, record' = some r → r.window ∈ (ws ++ [w]).map Window.id ∧
      ∀ tokens, pages r.window = some tokens → q.tokens r.lines = tokens) :
    Listed pages q next (ws ++ [w']) record' := by
  have hnum : (ws ++ [w']).map Window.id = (ws ++ [w]).map Window.id := by simp [hid]
  have hlast : w ∈ ws ++ [w] := List.mem_append_right _ (List.mem_singleton_self w)
  refine ⟨fun v hv => ?_, hnum ▸ h.numbers_nodup, fun r hrec => hnum ▸ (hr r hrec).1,
    fun v hv tokens ht => ?_, fun r hrec => (hr r hrec).2⟩
  · rcases List.mem_append.mp hv with hv | hv
    · exact h.numbers_lt v (List.mem_append_left _ hv)
    · rw [List.mem_singleton.mp hv, hid]
      exact h.numbers_lt w hlast
  · rcases List.mem_append.mp hv with hv | hv
    · rw [Pool.tokens_keeps hk (hws v hv)]
      exact h.page v (List.mem_append_left _ hv) tokens ht
    · rw [List.mem_singleton.mp hv] at ht ⊢
      rw [hid] at ht
      rw [hb]
      exact ⟨(h.page w hlast tokens ht).1, hw' tokens ht⟩

end

end Listed

/-- The numbers of the windows of a session. -/
def Session.numbers (s : Session) : List Nat := s.windows.map Window.id

/-- The sessions are listed, and no two have a window with the same number. -/
structure Shelf (pages : Pages) (p : Pool) (next : Nat) (ss : List Session) : Prop where
  listed : ∀ s ∈ ss, Listed pages p next s.windows s.undo.record
  apart : ss.Pairwise fun s s' => s.numbers.Disjoint s'.numbers

namespace Shelf

section
variable {pages : Pages} {p q : Pool} {next next' : Nat} {s s' : Session} {ss ss' : List Session}

theorem perm (h : Shelf pages p next ss) (hp : ss.Perm ss') : Shelf pages p next ss' where
  listed s hs := h.listed s (hp.mem_iff.mpr hs)
  apart := (hp.pairwise_iff fun hd => hd.symm).mp h.apart

theorem tail (h : Shelf pages p next (s :: ss)) : Shelf pages p next ss where
  listed s' hs' := h.listed s' (List.mem_cons_of_mem s hs')
  apart := (List.pairwise_cons.mp h.apart).2

theorem keeps (h : Shelf pages p next ss)
    (hk : p.Keeps q ((ss.map Session.contents).sum.map Prod.fst)) (hn : next ≤ next') :
    Shelf pages q next' ss where
  listed s hs := by
    have hsub := Session.subset_sum (f := Session.contents) hs
    exact (h.listed s hs).keeps hk (fun w hw c hc => hsub (Session.window_contents_subset hw hc))
      (fun r hr c hc => hsub (Session.record_contents_subset hr hc)) hn
  apart := h.apart

/-- A session with none of the numbers given out comes first. -/
theorem cons_new (h : Shelf pages p next ss) (hs : Listed pages p next' s.windows s.undo.record)
    (hnum : ∀ n ∈ s.numbers, n = next) (hn : next ≤ next') : Shelf pages p next' (s :: ss) where
  listed := List.forall_mem_cons.mpr ⟨hs, (h.keeps (.refl _ _) hn).listed⟩
  apart := by
    refine List.pairwise_cons.mpr ⟨fun t ht n hnew hmem => ?_, h.apart⟩
    obtain ⟨w, hw, rfl⟩ := List.mem_map.mp hmem
    have hlt := (h.listed t ht).numbers_lt w hw
    have heq := hnum _ hnew
    omega

/-- A session in place of the first has some of its numbers, and perhaps the next one. -/
theorem head (h : Shelf pages p next (s :: ss)) (hs' : Listed pages q next' s'.windows s'.undo.record)
    (hnum : ∀ n ∈ s'.numbers, n ∈ s.numbers ∨ n = next) (hn : next ≤ next')
    (hk : p.Keeps q ((ss.map Session.contents).sum.map Prod.fst)) :
    Shelf pages q next' (s' :: ss) where
  listed := List.forall_mem_cons.mpr ⟨hs', (h.tail.keeps hk hn).listed⟩
  apart := by
    obtain ⟨hfirst, hrest⟩ := List.pairwise_cons.mp h.apart
    refine List.pairwise_cons.mpr ⟨fun t ht n hmem hmem' => ?_, hrest⟩
    rcases hnum n hmem with hold | rfl
    · exact hfirst t ht hold hmem'
    · obtain ⟨w, hw, heq⟩ := List.mem_map.mp hmem'
      have hlt := (h.tail.listed t ht).numbers_lt w hw
      omega

end

end Shelf

/-- What is known of pages while the engine runs. No text is typed for a page. -/
structure Engine.Shelved (pages : Pages) (e : Engine) : Prop extends e.Held where
  shelf : Shelf pages e.pool e.nextWindow (e.session :: e.others.sessions)
  known : ∀ n tokens, pages n = some tokens → n < e.nextWindow
  entry : ∀ t, e.entry = some t → t.window = e.window.id → e.window.flags.browsing = false

end LineEditor
