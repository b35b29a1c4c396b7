import LineEditor.Proofs.Blobs
import LineEditor.Proofs.Endings
import LineEditor.Proofs.Runs

/-!
# Blobs in and out of the window

What an insertion of bytes makes of the current window, line by line and flag by flag, and what is
read back of it. A blob comes out as it went in, but for the newline that every line has that
is not the last one.
-/

namespace LineEditor

namespace Sequence

section
variable {α : Type} {l : List α} {start : Nat} (h : start ≤ l.length) (insert : List α)
include h

theorem inserted_splice (remove : Nat) :
    ((splice l start remove insert).drop start).take insert.length = insert := by
  have hlen : (l.take start).length = start := List.length_take_of_le h
  unfold splice
  rw [List.append_assoc, List.drop_left' hlen, List.take_left]

theorem around_splice : (splice l start 0 insert).take start ++
    (splice l start 0 insert).drop (start + insert.length) = l := by
  have hlen : (l.take start).length = start := List.length_take_of_le h
  have hlen' : (l.take start ++ insert).length = start + insert.length := by
    rw [List.length_append, hlen]
  unfold splice
  rw [List.drop_left' hlen', List.append_assoc, List.take_left' hlen, Nat.add_zero,
    List.take_append_drop]

end

end Sequence

namespace Pool

def texts (p : Pool) (m : LineMap) : List Bytes := (p.rows m).map Row.text

@[simp] theorem length_texts (p : Pool) (m : LineMap) : (p.texts m).length = m.length := by
  rw [texts, List.length_map, length_rows]

/-- The text of a window as a file holds it. -/
def blob (p : Pool) (w : Window) : Bytes := Blob.join (p.texts w.lines) !w.flags.noFinalNewline

theorem texts_removed (p : Pool) (m : LineMap) (start count : Nat) :
    p.texts (m.removed start count) = ((p.texts m).drop start).take count := by
  simp only [texts, rows, LineMap.removed, List.map_take, List.map_drop]

end Pool

theorem Row.map_text_plain (lines : List Bytes) : (lines.map Row.plain).map Row.text = lines := by
  rw [List.map_map]
  exact List.map_id lines

namespace Window

theorem insertEntries_dot {w w' : Window} {p p' : Pool} {after : Nat}
    {entries : List (Bytes × Option Suffix)} (h : w.insertEntries p after entries = .ok (w', p'))
    (hne : entries ≠ []) : w'.dot = after + entries.length := by
  have hempty : entries.isEmpty = false := by simpa using hne
  unfold insertEntries at h
  obtain ⟨⟨w₁, p₁, count⟩, -, heq⟩ := bind_eq_ok.mp h
  cases heq
  rw [hempty]
  rfl

end Window

/-- Lines came into the current window behind line `place`; nothing beside the window changed. -/
structure Engine.Received (e e' : Engine) (place : Nat) (new : List Row) : Prop where
  place_le : place ≤ e.window.dol
  size_le : e.window.dol + new.length ≤ e.limits.lines
  eq : e' = { e.setWindow e'.window with pool := e'.pool }
  shows : Shows e.window e.pool e.beside
    (Sequence.splice (e.pool.rows e.window.lines) place 0 new) e'.window e'.pool
  dot_eq : new ≠ [] → e'.window.dot = place + new.length

section
variable {e e' : Engine} {place : Nat} {new : List Row}

theorem Engine.Received.held (h : e.Received e' place new) (he : e.Held) : e'.Held := by
  have heq := h.eq
  refine ⟨?_, ?_⟩
  · rw [heq]
    exact he.vacant
  · have hbeside : e'.beside = e.beside := by
      rw [heq]
      rfl
    unfold Engine.contents
    rw [hbeside]
    exact h.shows.accounts

theorem Engine.Received.texts_eq (h : e.Received e' place new) : e'.pool.texts e'.window.lines =
    Sequence.splice (e.pool.texts e.window.lines) place 0 (new.map Row.text) := by
  unfold Pool.texts
  rw [h.shows.rows_eq, Sequence.map_splice]

theorem Engine.Received.dol_eq (h : e.Received e' place new) :
    e'.window.dol = e.window.dol + new.length := by
  rw [h.shows.dol_eq, Sequence.length_splice _ _ ?_, Pool.length_rows]
  · rfl
  · rw [Pool.length_rows]
    exact h.place_le

end

namespace EditM

section
variable {e : Engine}

/-- Lines that go into a window of which only flags were changed before. -/
theorem received_of_insert (h : e.Held) (flags final : WindowFlags) {place : Nat}
    {entries : List (Bytes × Option Suffix)} {w' : Window} {p' : Pool}
    (hplace : place ≤ e.window.dol) (hsize : e.window.dol + entries.length ≤ e.limits.lines)
    (hb : flags.browsing = e.window.flags.browsing)
    (hrun : { e.window with flags := flags }.insertEntries e.pool place entries = .ok (w', p'))
    (hf : final.browsing = w'.flags.browsing) :
    e.Received { e.setWindow { w' with flags := final } with pool := p' } place
      (entries.map Row.ofEntry) where
  place_le := hplace
  size_le := by rwa [List.length_map]
  eq := rfl
  shows := by
    have ha : e.pool.Accounts
        (({ e.window with flags := flags } : Window).lines.contents + e.beside) := h.accounts
    have hs := (Window.insertEntries_shows ha hplace entries).of_eq hrun
    exact ⟨hs.id_eq, hf.trans (hs.browsing_eq.trans hb), hs.accounts, hs.keeps, hs.rows_eq⟩
  dot_eq hne := by
    rw [List.length_map]
    have hsome : entries ≠ [] := fun hnil => hne (by rw [hnil]; rfl)
    exact show w'.dot = place + entries.length from Window.insertEntries_dot hrun hsome

/-- The flags of a window that took in a blob behind line `place`. Only the end of the last line is
told of the last line. -/
def bulkFlags (w : Window) (place : Nat) (blob : Bytes) : WindowFlags :=
  { w.flags with
    binary := w.flags.binary || (Blob.split blob).hasNul
    noFinalNewline :=
      if place = w.dol && !(Blob.split blob).lines.isEmpty then !(Blob.split blob).finalNewline
      else w.flags.noFinalNewline }

/-- The flags of a window that took in a listing behind line `place`. A listing says nothing of the
end of the last line. -/
def listingFlags (w : Window) (place : Nat) (entries : List (Bytes × Option Suffix)) : WindowFlags :=
  { w.flags with
    directory := true
    noFinalNewline := w.flags.noFinalNewline &&
      !((0 < 0 || 0 < entries.length) && w.dol ≤ place + 0) }

/-- The note is set after lines came in, which had taken it back if they stand last. -/
theorem bulk_note {place dol : Nat} (hplace : place ≤ dol) (lines : List Bytes) (final old : Bool) :
    (if place = dol && !lines.isEmpty && !final then true
      else old && !((0 < 0 || 0 < lines.length) && dol ≤ place + 0)) =
    if place = dol && !lines.isEmpty then !final else old := by
  cases lines with
  | nil => simp
  | cons line rest =>
    by_cases hp : place = dol
    · subst hp
      cases final <;> simp
    · have hlt : ¬dol ≤ place := by omega
      simp [hp, hlt]

theorem insertBulk_receives (h : e.Held) (place : Nat) (blob : Bytes) :
    Leads (insertBulk place blob) e (orStays e fun n e' =>
      n = (Blob.split blob).lines.length ∧
        e.Received e' place ((Blob.split blob).lines.map Row.plain) ∧
        e'.window.flags = bulkFlags e.window place blob) := by
  generalize hlines : (Blob.split blob).lines = lines
  -- zero bytes are noted before the lines come in, the end of the last line afterwards
  have hput {b : Bool} (hb : b = (e.window.flags.binary || (Blob.split blob).hasNul))
      (hplace : place ≤ e.window.dol) (hsize : e.window.dol + lines.length ≤ e.limits.lines) :
      Leads (do
        onWindow fun w p => w.insertLines p place lines
        if place = e.view.window.dol && !lines.isEmpty && !(Blob.split blob).finalNewline then
          modifyWindow fun w => { w with flags.noFinalNewline := true }
        return lines.length)
        (e.setWindow { e.window with flags := { e.window.flags with binary := b } })
        (orStays e fun n e' => n = lines.length ∧ e.Received e' place (lines.map Row.plain) ∧
          e'.window.flags = bulkFlags e.window place blob) := by
    rw [leads_onWindow_bind]
    intro w' p' hrun
    have hflags : w'.flags = { e.window.flags with
        binary := b
        noFinalNewline := e.window.flags.noFinalNewline &&
          !((0 < 0 || 0 < lines.length) && e.window.dol ≤ place + 0) } := by
      have hsp := (Window.insertEntries_spliced hrun).flags_eq
      rw [List.length_map] at hsp
      exact hsp
    have hrec (final : WindowFlags) (hf : final.browsing = w'.flags.browsing) :
        e.Received { e.setWindow { w' with flags := final } with pool := p' } place
          (lines.map Row.plain) := by
      have hrec := received_of_insert h { e.window.flags with binary := b } final hplace
        (by rwa [List.length_map]) rfl hrun hf
      rwa [List.map_map] at hrec
    have hnote := bulk_note hplace lines (Blob.split blob).finalNewline
      e.window.flags.noFinalNewline
    dsimp only
    split
    · rename_i hset
      change (decide (place = e.window.dol) && _ && _) = true at hset
      rw [if_pos hset] at hnote
      rw [leads_modifyWindow_bind]
      refine leads_pure.mpr ⟨rfl, hrec _ rfl, ?_⟩
      show { w'.flags with noFinalNewline := true } = bulkFlags e.window place blob
      rw [hflags, bulkFlags, hlines, hb, ← hnote]
    · rename_i hset
      change ¬(decide (place = e.window.dol) && _ && _) = true at hset
      rw [if_neg hset] at hnote
      refine leads_pure.mpr ⟨rfl, hrec _ rfl, ?_⟩
      show w'.flags = bulkFlags e.window place blob
      rw [hflags, bulkFlags, hlines, hb, ← hnote]
  unfold insertBulk
  simp only [Blob.read_bind]
  rw [leads_get_bind]
  refine leads_reads (e.view.checkPlace_reads place) (fun _ hplace => ?_) fun _ => rfl
  refine leads_reads (e.view.checkCapacity_reads _) (fun _ hsize => ?_) fun _ => rfl
  rw [hlines] at hsize ⊢
  split
  · rename_i hnul
    rw [leads_modifyWindow_bind]
    exact hput (by simp [hnul]) hplace hsize
  · rename_i hnul
    have hsame : e.setWindow { e.window with flags := { e.window.flags with
        binary := e.window.flags.binary } } = e := rfl
    exact hsame ▸ hput (by simp [hnul]) hplace hsize

theorem insertDirectory_receives (h : e.Held) (place : Nat)
    (entries : List (Bytes × Option Suffix)) :
    Leads (insertDirectory place entries) e (orStays e fun n e' =>
      n = entries.length ∧ e.Received e' place (entries.map Row.ofEntry) ∧
        e'.window.flags = listingFlags e.window place entries) := by
  unfold insertDirectory
  rw [leads_get_bind]
  refine leads_reads (e.view.checkPlace_reads place) (fun _ hplace => ?_) fun _ => rfl
  refine leads_reads (e.view.checkCapacity_reads _) (fun _ hsize => ?_) fun _ => rfl
  rw [leads_modifyWindow_bind, leads_onWindow_bind]
  intro w' p' hrun
  refine leads_pure.mpr ⟨rfl, ?_, (Window.insertEntries_spliced hrun).flags_eq⟩
  exact received_of_insert h { e.window.flags with directory := true } w'.flags hplace hsize rfl hrun rfl

/-! ## Reading lines back -/

theorem readable_blob (h : e.view.Readable) {start stop : Nat} (h₁ : 1 ≤ start) (hs : start ≤ stop)
    (hstop : stop ≤ e.window.dol) : e.view.blob start stop =
      .ok (Blob.join (((e.pool.texts e.window.lines).drop (start - 1)).take (stop + 1 - start))
        !(stop == e.window.dol && e.window.flags.noFinalNewline)) := by
  have hdol : e.view.window.dol ≠ 0 := show e.window.dol ≠ 0 by omega
  unfold View.blob
  dsimp only
  rw [if_neg hdol, h.texts start stop]
  have htexts := Pool.texts_removed e.pool e.window.lines (start - 1) (stop + 1 - start)
  rw [← htexts]
  rfl

theorem run_extractRange {start stop : Nat} {bytes : Bytes}
    (hcheck : e.view.checkRun start stop = .ok ()) (hblob : e.view.blob start stop = .ok bytes) :
    e.run (extractRange start stop) = .ok (.ok bytes, e) := by
  have hrun : e.run (extractRange start stop) =
      (liftExcept (e.view.checkRun start stop) >>= fun _ =>
        (liftM (e.view.blob start stop) : EditM Bytes)).run.run e := rfl
  rw [hrun, hcheck, hblob]
  rfl

theorem extractRange_eq (h : e.view.Readable) {start stop : Nat} (h₁ : 1 ≤ start)
    (hs : start ≤ stop) (hstop : stop ≤ e.window.dol) : e.run (extractRange start stop) =
      .ok (.ok (Blob.join
        (((e.pool.texts e.window.lines).drop (start - 1)).take (stop + 1 - start))
        !(stop == e.window.dol && e.window.flags.noFinalNewline)), e) := by
  refine run_extractRange ?_ (readable_blob h h₁ hs hstop)
  have hdol : e.view.window.dol = e.window.dol := rfl
  unfold View.checkRun
  dsimp only
  rw [hdol, if_neg (by omega), if_neg (by omega), if_neg (by omega), if_neg (by omega)]
  rfl

/-- The whole window as a blob. An empty one has the run of no lines, which starts at 0 or 1. -/
theorem extractRange_whole (h : e.view.Readable) {start : Nat} (hs : start ≤ 1)
    (h₁ : e.window.dol ≠ 0 → start = 1) : e.run (extractRange start e.window.dol) =
      .ok (.ok (Blob.join (e.pool.texts e.window.lines) !e.window.flags.noFinalNewline), e) := by
  by_cases hdol : e.window.dol = 0
  · have hdol' : e.view.window.dol = 0 := hdol
    have hnil : e.pool.texts e.window.lines = [] := by
      rw [← List.length_eq_zero_iff, Pool.length_texts]
      exact hdol
    rw [hdol, hnil, (Blob.join_eq_nil_iff _).mpr (.inl rfl)]
    refine run_extractRange ?_ ?_
    · unfold View.checkRun
      dsimp only
      rw [if_pos hdol', if_pos (by simpa using hs)]
      rfl
    · unfold View.blob
      dsimp only
      rw [if_pos hdol']
      rfl
  · have hall : ((e.pool.texts e.window.lines).drop (1 - 1)).take (e.window.dol + 1 - 1) =
        e.pool.texts e.window.lines :=
      List.take_of_length_le (Nat.le_of_eq (Pool.length_texts _ _))
    rw [h₁ hdol, extractRange_eq h (Nat.le_refl 1) (by omega) (Nat.le_refl _), hall,
      beq_self_eq_true, Bool.true_and]

end

end EditM

namespace Engine

section
variable {e : Engine}

theorem Held.texts_eq (h : e.Held) :
    e.window.texts e.pool 1 e.window.dol = .ok (e.pool.texts e.window.lines) := by
  have hall : e.window.lines.removed (1 - 1) (e.window.dol + 1 - 1) = e.window.lines :=
    List.take_length
  have htexts := h.readable.texts 1 e.window.dol
  rw [show e.view.window = e.window from rfl, show e.view.pool = e.pool from rfl, hall] at htexts
  exact htexts

/-- What was put in comes out again, and two runs of lines read one after the other are the run of
both. Other lines keep their text and their order. -/
theorem Reachable.bulk_extracts (h : e.Reachable) :
    (∀ place blob n e', blob ≠ [] → e.run (EditM.insertBulk place blob) = .ok (.ok n, e') →
      n = Blob.countLines blob ∧ 1 ≤ n ∧
        e'.run (EditM.extractRange (place + 1) (place + n)) =
          .ok (.ok (if Blob.endsLine blob = true ∨ place = e.window.dol then blob
            else blob ++ [Bytes.newline]), e') ∧
        ∃ before after, e.window.texts e.pool 1 e.window.dol = .ok before ∧
          e'.window.texts e'.pool 1 e'.window.dol = .ok after ∧
          after.length = before.length + n ∧
          after.take place ++ after.drop (place + n) = before) ∧
    ∀ start mid stop, 1 ≤ start → start ≤ mid → mid < stop → stop ≤ e.window.dol →
      ∃ first second, e.run (EditM.extractRange start mid) = .ok (.ok first, e) ∧
        e.run (EditM.extractRange (mid + 1) stop) = .ok (.ok second, e) ∧
        e.run (EditM.extractRange start stop) = .ok (.ok (first ++ second), e) := by
  have hheld := h.steady.toHeld
  constructor
  · intro place blob n e' hne hrun
    obtain ⟨hn, hrec, hflags⟩ := EditM.insertBulk_receives hheld place blob _ _ hrun
    have hheld' := hrec.held hheld
    have hpos : 1 ≤ n := hn ▸ List.length_pos_iff.mpr (Blob.split_lines_ne_nil hne)
    have htexts := hrec.texts_eq
    rw [Row.map_text_plain] at htexts
    have hplace : place ≤ (e.pool.texts e.window.lines).length := by
      rw [Pool.length_texts]
      exact hrec.place_le
    have hdol : e'.window.dol = e.window.dol + n := by rw [hrec.dol_eq, List.length_map, hn]
    have hin := hrec.place_le
    refine ⟨by rw [hn, Blob.countLines_eq], hpos, ?_, _, _, hheld.texts_eq, hheld'.texts_eq, ?_, ?_⟩
    · have hcount : place + n + 1 - (place + 1) = (Blob.split blob).lines.length := by omega
      rw [EditM.extractRange_eq hheld'.readable (by omega) (by omega) (by omega), htexts, hcount,
        Nat.add_sub_cancel, Sequence.inserted_splice hplace, hflags]
      -- only at the end of the window can the blob lack its last newline
      by_cases hlast : place = e.window.dol
      · have hbeq : (place + n == e'.window.dol) = true := beq_iff_eq.mpr (by omega)
        have hsome : (Blob.split blob).lines.isEmpty = false := by
          simpa using Blob.split_lines_ne_nil hne
        have hjoin := Blob.join_split blob
        simp [EditM.bulkFlags, hlast, hsome, hjoin, hdol]
      · have hbeq : (place + n == e'.window.dol) = false := beq_eq_false_iff_ne.mpr (by omega)
        rw [hbeq, Bool.false_and, Bool.not_false, Blob.join_split_true hne]
        simp [hlast]
    · rw [Pool.length_texts, Pool.length_texts]
      exact hdol
    · rw [htexts, hn]
      exact Sequence.around_splice hplace _
  · intro start mid stop h₁ hmid hstop hdol
    have hlen : (e.pool.texts e.window.lines).length = e.window.dol := Pool.length_texts _ _
    refine ⟨_, _, EditM.extractRange_eq hheld.readable h₁ hmid (by omega),
      EditM.extractRange_eq hheld.readable (by omega) (by omega) hdol, ?_⟩
    -- the first run does not reach the last line, so it ends in a newline
    have hmiddle : (mid == e.window.dol) = false := beq_eq_false_iff_ne.mpr (by omega)
    have hsplit : ((e.pool.texts e.window.lines).drop (start - 1)).take (stop + 1 - start) =
        ((e.pool.texts e.window.lines).drop (start - 1)).take (mid + 1 - start) ++
          ((e.pool.texts e.window.lines).drop (mid + 1 - 1)).take (stop + 1 - (mid + 1)) := by
      rw [show stop + 1 - start = mid + 1 - start + (stop + 1 - (mid + 1)) by omega, List.take_add,
        List.drop_drop, show start - 1 + (mid + 1 - start) = mid + 1 - 1 by omega]
    have hsome {n k : Nat} (hn : n < e.window.dol) (hk : 0 < k) :
        ((e.pool.texts e.window.lines).drop n).take k ≠ [] := by
      rw [← List.length_pos_iff, List.length_take, List.length_drop, hlen]
      omega
    rw [EditM.extractRange_eq hheld.readable h₁ (by omega) hdol, hmiddle, Bool.false_and,
      Bool.not_false, ← Blob.join_append (hsome (by omega) (by omega)) (hsome (by omega) (by omega)),
      hsplit]

/-- A line without a newline goes in between two others and gets one. -/
theorem bulk_extracts_between : ∃ e e',
    (Engine.new ⟨1, 10, 100⟩).perform (.insertBulk 0 [97, 10, 98, 10]) = .ok e ∧
      e.run (EditM.insertBulk 1 [0, 99]) = .ok (.ok 1, e') ∧
      e'.run (EditM.extractRange 2 2) = .ok (.ok [0, 99, 10], e') ∧
      ∃ first second, e.run (EditM.extractRange 1 1) = .ok (.ok first, e) ∧
        e.run (EditM.extractRange 2 2) = .ok (.ok second, e) ∧
        e.run (EditM.extractRange 1 2) = .ok (.ok (first ++ second), e) := by
  refine ⟨_, _, rfl, rfl, ?_⟩
  have h := Reachable.bulk_extracts
    (.call (.insertBulk 0 [97, 10, 98, 10]) (.new ⟨1, 10, 100⟩) rfl)
  refine ⟨(h.1 1 [0, 99] 1 _ (List.cons_ne_nil _ _) rfl).2.2.1, ?_⟩
  exact h.2 1 1 2 (by decide) (by decide) (by decide) (by decide)

end

end Engine

end LineEditor
