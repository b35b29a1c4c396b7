import LineEditor.Proofs.Bulk
import LineEditor.Proofs.Origins

/-!
# Terminators

Beside the lines of a window stands a list of bits, one for each line: whether the line is known to
have no newline behind it. Lines that are written, copied or moved have one, and so has each line that
others follow. What a window notes of its end is the bit of its last line.
-/

namespace LineEditor

namespace Sequence

/-- Lines moved to the end come to stand last. -/
theorem getLast?_move_behind {l : List α} {start stop : Nat} (h₁ : 1 ≤ start) (hs : start ≤ stop)
    (hstop : stop < l.length) :
    (move l start stop l.length).getLast? = (run l start stop).getLast? := by
  have hrest : (l.take (start - 1) ++ l.drop stop).length = l.length - (stop - start + 1) := by
    rw [List.length_append, List.length_take, List.length_drop]
    omega
  have hrun : run l start stop ≠ [] := by
    rw [← List.length_pos_iff, run, List.length_take, List.length_drop]
    omega
  unfold move
  dsimp only
  rw [if_pos (Nat.le_of_lt hstop), List.drop_eq_nil_of_le (Nat.le_of_eq hrest), List.append_nil,
    List.getLast?_append_of_ne_nil _ hrun]

end Sequence

/-- For each line, whether it is known to have no newline behind it. -/
abbrev Bits := List Bool

namespace Bits

/-- All lines but the last have a newline behind them. -/
def settle (bits : Bits) : Bits := bits.dropLast.map (fun _ => false) ++ bits.getLast?.toList

theorem length_settle (bits : Bits) : bits.settle.length = bits.length := by
  unfold settle
  rw [List.length_append, List.length_map, List.length_dropLast]
  cases h : bits.getLast? with
  | none => simp [List.getLast?_eq_none_iff.mp h]
  | some b =>
    have hpos : 0 < bits.length := List.length_pos_iff.mpr fun hnil => by simp [hnil] at h
    show bits.length - 1 + 1 = bits.length
    omega

theorem getLast?_settle (bits : Bits) : bits.settle.getLast? = bits.getLast? := by
  unfold settle
  cases h : bits.getLast? with
  | none => simp [List.getLast?_eq_none_iff.mp h]
  | some b => simp

theorem false_of_mem_settle {bits : Bits} {b : Bool} (hb : b ∈ bits.settle.dropLast) : b = false := by
  unfold settle at hb
  cases h : bits.getLast? with
  | none =>
    rw [List.getLast?_eq_none_iff.mp h] at hb
    cases hb
  | some c =>
    rw [h, Option.toList_some, List.dropLast_concat] at hb
    obtain ⟨-, -, rfl⟩ := List.mem_map.mp hb
    rfl

/-- The bits are those of a text of `size` lines of whose end `note` is known. -/
structure Tells (bits : Bits) (size : Nat) (note : Bool) : Prop where
  length_eq : bits.length = size
  last : bits.getLast? = some true ↔ note = true
  rest : ∀ b ∈ bits.dropLast, b = false

section
variable {bits new : Bits} {size start remove : Nat} {note : Bool}

theorem Tells.settle (hlen : bits.length = size) (hlast : bits.getLast? = some true ↔ note = true) :
    Tells bits.settle size note :=
  ⟨(length_settle bits).trans hlen, by rw [getLast?_settle, hlast], fun _ => false_of_mem_settle⟩

theorem Tells.nil : Tells [] 0 false := ⟨rfl, by simp, by simp⟩

theorem getLast?_ne_true (h : ∀ b ∈ bits, b = false) : bits.getLast? ≠ some true := by
  intro hlast
  cases h true (List.mem_of_getLast? hlast)

theorem mem_dropLast_of_mem_take {n : Nat} (hn : n < bits.length) {b : Bool} (hb : b ∈ bits.take n) :
    b ∈ bits.dropLast := by
  rw [List.dropLast_eq_take]
  exact List.take_subset_take_left bits (Nat.le_sub_one_of_lt hn) hb

theorem mem_dropLast_of_mem_run {stop : Nat} (h₁ : 1 ≤ start) (hs : start ≤ stop)
    (hstop : stop < bits.length) {b : Bool} (hb : b ∈ Sequence.run bits start stop) :
    b ∈ bits.dropLast := by
  unfold Sequence.run at hb
  rw [List.take_drop] at hb
  refine mem_dropLast_of_mem_take (n := start - 1 + (stop - start + 1)) (by omega) ?_
  exact List.mem_of_mem_drop hb

/-- A splice leaves the note alone if it leaves the last line alone, and else takes it back. -/
theorem last_splice (hlen : bits.length = size) (hlast : bits.getLast? = some true ↔ note = true)
    (hnew : ∀ b ∈ new, b = false) (hfit : start + remove ≤ size)
    (hrest : new ≠ [] ∨ ∀ b ∈ bits.dropLast, b = false) :
    (Sequence.splice bits start remove new).getLast? = some true ↔
      (note && !((0 < remove || 0 < new.length) && size ≤ start + remove)) = true := by
  by_cases hlt : start + remove < size
  · rw [Sequence.getLast?_splice new (hlen ▸ hlt), hlast]
    simp [Nat.not_le.mpr hlt]
  · have hend : size ≤ start + remove := Nat.le_of_not_lt hlt
    have hdrop : bits.drop (start + remove) = [] := List.drop_eq_nil_of_le (hlen ▸ hend)
    unfold Sequence.splice
    rw [hdrop, List.append_nil]
    by_cases hnil : new = []
    · subst hnil
      rw [List.append_nil]
      by_cases hzero : remove = 0
      · rw [List.take_of_length_le (by omega), hlast]
        simp [hzero]
      · have hall : ∀ b ∈ bits.take start, b = false := fun b hb =>
          (hrest.resolve_left (by simp)) b (mem_dropLast_of_mem_take (by omega) hb)
        have hpos : 0 < remove := Nat.pos_of_ne_zero hzero
        simp [getLast?_ne_true hall, hpos, hend]
    · have hpos : 0 < new.length := List.length_pos_iff.mpr hnil
      rw [List.getLast?_append_of_ne_nil _ hnil]
      simp [getLast?_ne_true hnew, hpos, hend]

theorem false_of_mem_map {lines : List Bytes} {b : Bool} (hb : b ∈ lines.map fun _ => false) :
    b = false := by
  obtain ⟨-, -, rfl⟩ := List.mem_map.mp hb
  rfl

/-- Lines `start` to `stop` have a newline from now on. -/
def lift (bits : Bits) (start stop : Nat) : Bits :=
  bits.mapIdx fun i b => b && !(start ≤ i + 1 && i + 1 ≤ stop)

theorem Tells.lift {stop : Nat} (h : bits.Tells size note) (hs : start ≤ stop) (hstop : stop ≤ size) :
    (bits.lift start stop).Tells size (note && !(stop == size)) where
  length_eq := by
    unfold Bits.lift
    rw [List.length_mapIdx, h.length_eq]
  last := by
    unfold Bits.lift
    rw [List.getLast?_mapIdx]
    have hlast := h.last
    cases hb : bits.getLast? with
    | none =>
      rw [hb] at hlast
      simp only [Option.map_none, reduceCtorEq, false_iff, Bool.and_eq_true] at hlast ⊢
      exact fun hset => hlast hset.1
    | some b =>
      rw [hb, Option.some.injEq] at hlast
      have hlen : bits.length - 1 + 1 = size := by
        have hpos : 0 < bits.length := List.length_pos_iff.mpr fun hnil => by simp [hnil] at hb
        have hsize := h.length_eq
        omega
      have hstart : start ≤ size := Nat.le_trans hs hstop
      have hend : decide (size ≤ stop) = (stop == size) := by
        rw [Bool.eq_iff_iff, decide_eq_true_eq, beq_iff_eq]
        omega
      rw [Option.map_some, Option.some.injEq, hlen, decide_eq_true hstart, Bool.true_and, hend,
        Bool.and_eq_true, hlast, Bool.and_eq_true]
  rest b hb := by
    rw [List.dropLast_eq_take] at hb
    obtain ⟨i, hi, rfl⟩ := List.mem_take_iff_getElem.mp hb
    unfold Bits.lift at hi ⊢
    rw [List.length_mapIdx] at hi
    have hfalse : bits[i] = false := by
      refine h.rest _ (mem_dropLast_of_mem_take (n := i + 1) (by omega) ?_)
      exact List.mem_take_iff_getElem.mpr ⟨i, by omega, rfl⟩
    rw [List.getElem_mapIdx, hfalse, Bool.false_and]

theorem Tells.all_false (h : bits.Tells size false) : ∀ b ∈ bits, b = false := by
  intro b hb
  rcases List.eq_nil_or_concat bits with rfl | ⟨front, c, rfl⟩
  · cases hb
  · have hlast := h.last
    have hrest := h.rest
    rw [List.concat_eq_append] at hb hlast hrest
    rw [List.getLast?_append_of_ne_nil _ (by simp)] at hlast
    rw [List.dropLast_concat] at hrest
    rcases List.mem_append.mp hb with hb | hb
    · exact hrest b hb
    · rw [List.mem_singleton.mp hb]
      simpa using hlast

end

end Bits

namespace Window

section
variable {w w' : Window} {p p' : Pool} {bits : Bits}

theorem Spliced.tells {new : Bits} {start remove : Nat} (hsp : w.Spliced w' start remove new.length)
    (h : bits.Tells w.dol w.flags.noFinalNewline) (hnew : ∀ b ∈ new, b = false)
    (hfit : start + remove ≤ w.dol) :
    Bits.Tells (Bits.settle (Sequence.splice bits start remove new)) w'.dol
      w'.flags.noFinalNewline := by
  refine .settle ?_ ?_
  · rw [Sequence.length_splice _ _ (h.length_eq ▸ hfit), h.length_eq, hsp.dol_eq]
  · rw [Bits.last_splice h.length_eq h.last hnew hfit (.inr h.rest), hsp.flags_eq]

theorem reviseLines_bits {shift : Nat} {changes : List (Nat × List Bytes)}
    (h : w.reviseLines p shift changes = .ok (w', p'))
    (hfit : ∀ c ∈ changes, 1 ≤ c.1 ∧ c.1 + shift ≤ w.dol ∧ c.2 ≠ []) (hlen : bits.length = w.dol)
    (hlast : bits.getLast? = some true ↔ w.flags.noFinalNewline = true) :
    (reviseItems (fun _ => false) bits shift changes).length = w'.dol ∧
      ((reviseItems (fun _ => false) bits shift changes).getLast? = some true ↔
        w'.flags.noFinalNewline = true) := by
  -- on the changes, each one a splice of what the ones above it left
  induction changes generalizing w p shift bits with
  | nil =>
    cases h
    exact ⟨hlen, hlast⟩
  | cons c rest ih =>
    obtain ⟨n, lines⟩ := c
    obtain ⟨⟨h₁, hn, hl⟩, hrest⟩ := List.forall_mem_cons.mp hfit
    have hpos : 1 ≤ lines.length := List.length_pos_iff.mpr hl
    dsimp only at h₁ hn
    unfold reviseLines at h
    obtain ⟨⟨w₁, p₁⟩, hrev, h⟩ := bind_eq_ok.mp h
    have hsp := reviseLine_spliced hrev
    have hdol : w₁.dol = w.dol - 1 + lines.length := hsp.dol_eq
    have hend : n + shift + lines.length - 1 ≤ w₁.dol := by omega
    rw [difference_of_le hpos, difference_of_le (show 1 ≤ n + shift + lines.length by omega)] at h
    dsimp only [bind, Except.bind] at h
    rw [goto_of_le hend] at h
    have hcut : n + shift - 1 + 1 ≤ w.dol := by omega
    refine ih h (fun c hc => ?_) ?_ ?_
    · obtain ⟨hc₁, hc, hcl⟩ := hrest c hc
      refine ⟨hc₁, ?_, hcl⟩
      show _ ≤ w₁.dol
      omega
    · rw [Sequence.length_splice _ _ (hlen ▸ hcut), List.length_map, hlen]
      exact hdol.symm
    · rw [Bits.last_splice hlen hlast (fun b => Bits.false_of_mem_map) hcut (.inl (by simpa using hl)),
        List.length_map]
      show _ ↔ w₁.flags.noFinalNewline = true
      rw [hsp.flags_eq]

/-- Moved lines have a newline wherever they go; so does the last line if it gets behind others. -/
theorem moveLines_bits {start stop after : Nat} (h : w.moveLines start stop after = .ok w')
    (ht : bits.Tells w.dol w.flags.noFinalNewline) :
    (Sequence.move (bits.lift start stop) start stop after).length = w'.dol ∧
      ((Sequence.move (bits.lift start stop) start stop after).getLast? = some true ↔
        w'.flags.noFinalNewline = true) := by
  rw [moveLines_eq] at h
  obtain ⟨hout, h⟩ := guarded_eq_ok h
  obtain ⟨hplace, h⟩ := guarded_eq_ok h
  obtain ⟨hin, h⟩ := guarded_eq_ok h
  cases h
  simp only [Bool.or_eq_true, decide_eq_true_eq, Bool.and_eq_true] at hout hin
  have h₁ : 1 ≤ start := by omega
  have hs : start ≤ stop := by omega
  have hstop : stop ≤ w.dol := by omega
  have hl := ht.lift hs hstop
  have hperm := Sequence.move_perm (bits.lift start stop) h₁ hs after
  refine ⟨?_, ?_⟩
  · rw [hperm.length_eq, hl.length_eq]
    exact ((w.lines.relocate_perm (by omega)).length_eq).symm
  · show _ ↔ (w.flags.noFinalNewline && !(stop == w.dol || after == w.dol)) = true
    by_cases hend : stop = w.dol
    · rw [beq_iff_eq.mpr hend, Bool.not_true, Bool.and_false] at hl
      have hnone := Bits.getLast?_ne_true fun b hb => hl.all_false b (hperm.mem_iff.mp hb)
      rw [beq_iff_eq.mpr hend, Bool.true_or, Bool.not_true, Bool.and_false]
      exact ⟨fun hlast => absurd hlast hnone, fun hfalse => by cases hfalse⟩
    · have hlt : stop < w.dol := by omega
      rw [beq_eq_false_iff_ne.mpr hend, Bool.not_false, Bool.and_true] at hl
      by_cases hbehind : after = w.dol
      · have hlen : after = (bits.lift start stop).length := hbehind.trans hl.length_eq.symm
        have hnone := Bits.getLast?_ne_true fun b hb =>
          hl.rest b (Bits.mem_dropLast_of_mem_run h₁ hs (hl.length_eq ▸ hlt) hb)
        rw [hlen, Sequence.getLast?_move_behind h₁ hs (hl.length_eq ▸ hlt), ← hlen,
          beq_iff_eq.mpr hbehind, Bool.or_true, Bool.not_true, Bool.and_false]
        exact ⟨fun hlast => absurd hlast hnone, fun hfalse => by cases hfalse⟩
      · rw [Sequence.getLast?_move h₁ hs (hl.length_eq ▸ hlt) (by rw [hl.length_eq]; omega) hin, hl.last]
        simp [hend, hbehind]

end

end Window

/-! ## Edits and insertions -/

/-- Lines that are moved have a newline. -/
def Edit.lift (bits : Bits) : Edit → Bits
  | .move start stop _ => bits.lift start stop
  | _ => bits

/-- What an edit does to the bits: lines that it writes, copies or moves have a newline. -/
def Edit.bits (bits : Bits) (change : Edit) : Bits :=
  Bits.settle (change.items (fun _ => false) (fun _ => false) (change.lift bits))

/-- The bits of the lines of a blob: the last one has no newline if the blob ends without one. -/
def Blob.lineBits (blob : Bytes) : Bits :=
  Bits.settle ((split blob).lines.map fun _ => !(split blob).finalNewline)

/-- A blob that comes in behind line `place`. Its last line keeps its bit if it comes to stand last. -/
def Bits.take (bits : Bits) (place : Nat) (blob : Bytes) : Bits :=
  Bits.settle (Sequence.splice bits place 0 (Blob.lineBits blob))

/-- Lines of a listing that come in behind line `place`. -/
def Bits.list (bits : Bits) (place count : Nat) : Bits :=
  Bits.settle (Sequence.splice bits place 0 (List.replicate count false))

section
variable {w w' : Window} {p p' : Pool} {bits : Bits}

theorem Edit.perform_tells {change : Edit} (hfit : change.Fits w.dol)
    (h : change.perform w p = .ok (w', p')) (ht : bits.Tells w.dol w.flags.noFinalNewline) :
    (change.bits bits).Tells w'.dol w'.flags.noFinalNewline := by
  cases change with
  | insert after lines =>
    have hsp := Window.insertEntries_spliced h
    rw [List.length_map, ← List.length_map (f := fun _ => false)] at hsp
    exact hsp.tells ht (fun _ => Bits.false_of_mem_map) hfit
  | delete start stop =>
    obtain ⟨h₁, hs, hstop⟩ := hfit
    have hsp : w.Spliced w' (start - 1) (stop - start + 1) ([] : Bits).length :=
      Window.deleteLines_spliced h
    exact hsp.tells ht (by simp) (by omega)
  | replace start stop lines =>
    obtain ⟨h₁, hs, hstop⟩ := hfit
    have hsp := Window.replaceLines_spliced h
    rw [← List.length_map (f := fun _ => false)] at hsp
    exact hsp.tells ht (fun _ => Bits.false_of_mem_map) (by omega)
  | copy start stop after =>
    obtain ⟨h₁, hs, hstop, hafter⟩ := hfit
    have hsp := Window.copyLines_spliced h
    have hrun : (Sequence.run w.lines start stop).length =
        ((Sequence.run bits start stop).map fun _ => false).length := by
      have hlen : bits.length = w.lines.length := ht.length_eq
      simp only [Sequence.run, List.length_take, List.length_drop, List.length_map, hlen]
    rw [hrun] at hsp
    refine hsp.tells ht (fun b hb => ?_) hafter
    obtain ⟨-, -, rfl⟩ := List.mem_map.mp hb
    rfl
  | move start stop after =>
    obtain ⟨w₁, hmove, heq⟩ := bind_eq_ok.mp h
    cases heq
    obtain ⟨hlen, hlast⟩ := Window.moveLines_bits hmove ht
    exact .settle hlen hlast
  | revise changes =>
    obtain ⟨hlen, hlast⟩ := Window.reviseLines_bits h hfit ht.length_eq ht.last
    exact .settle hlen hlast

theorem Blob.length_lineBits (blob : Bytes) : (lineBits blob).length = (split blob).lines.length := by
  unfold lineBits
  rw [Bits.length_settle, List.length_map]

theorem Blob.getLast?_lineBits (blob : Bytes) : (lineBits blob).getLast? =
    (split blob).lines.getLast?.map fun _ => !(split blob).finalNewline := by
  unfold lineBits
  rw [Bits.getLast?_settle, List.getLast?_map]

theorem Bits.Tells.take (ht : bits.Tells w.dol w.flags.noFinalNewline) {place : Nat} {blob : Bytes}
    (hplace : place ≤ w.dol) : (bits.take place blob).Tells
      (w.dol + (Blob.split blob).lines.length) (EditM.bulkFlags w place blob).noFinalNewline := by
  refine .settle ?_ ?_
  · rw [Sequence.length_splice _ _ (ht.length_eq ▸ hplace), ht.length_eq, Blob.length_lineBits,
      Nat.sub_zero]
  · unfold EditM.bulkFlags
    dsimp only
    by_cases hend : place = w.dol
    · have hfull : bits.length ≤ place := Nat.le_of_eq (ht.length_eq.trans hend.symm)
      unfold Sequence.splice
      rw [List.take_of_length_le hfull, Nat.add_zero, List.drop_eq_nil_of_le hfull, List.append_nil,
        decide_eq_true hend, Bool.true_and]
      by_cases hnil : (Blob.split blob).lines = []
      · have hnone : Blob.lineBits blob = [] := by
          rw [← List.length_eq_zero_iff, Blob.length_lineBits, hnil]
          rfl
        rw [hnone, List.append_nil, hnil]
        exact ht.last
      · have hsome : Blob.lineBits blob ≠ [] := by
          rw [← List.length_pos_iff, Blob.length_lineBits]
          exact List.length_pos_iff.mpr hnil
        rw [List.getLast?_append_of_ne_nil _ hsome, Blob.getLast?_lineBits,
          List.getLast?_eq_some_getLast hnil, if_pos (by simpa using hnil), Option.map_some,
          Option.some.injEq]
    · have hlt : place + 0 < bits.length := by
        have hlen := ht.length_eq
        omega
      rw [Sequence.getLast?_splice _ hlt, decide_eq_false hend, Bool.false_and, if_neg Bool.false_ne_true]
      exact ht.last

theorem Bits.Tells.list (ht : bits.Tells w.dol w.flags.noFinalNewline) {place : Nat}
    {entries : List (Bytes × Option Suffix)} (hplace : place ≤ w.dol) :
    (bits.list place entries.length).Tells (w.dol + entries.length)
      (EditM.listingFlags w place entries).noFinalNewline := by
  have hlen : (List.replicate entries.length false).length = entries.length := List.length_replicate
  refine .settle ?_ ?_
  · rw [Sequence.length_splice _ _ (ht.length_eq ▸ hplace), ht.length_eq, hlen, Nat.sub_zero]
  · rw [last_splice ht.length_eq ht.last (fun b hb => (List.mem_replicate.mp hb).2) hplace
      (.inr ht.rest), hlen]
    rfl

end

end LineEditor
