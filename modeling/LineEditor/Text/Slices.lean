import LineEditor.Buffer.Breach
import LineEditor.Text.Bytes

/-!
# Slices

A line is looked into at offsets. In a line of bytes an offset may stand anywhere up to the end. A
line of input is UTF-8, and where it is cut a character has to end. Any other offset is a breach.
-/

namespace LineEditor

namespace Bytes

/-- The byte at an offset of a line, which is laid out as an array for that. -/
def byteAt (raw : Array UInt8) (i : Nat) : Except Breach UInt8 :=
  match raw[i]? with
  | some b => .ok b
  | none => .error (.bytesOutside i (i + 1) raw.size)

theorem byteAt_toArray {raw : Bytes} {i : Nat} (h : i < raw.length) :
    byteAt raw.toArray i = .ok raw[i] := by
  rw [byteAt, List.getElem?_toArray, List.getElem?_eq_getElem h]

/-- The bytes from `start` up to `stop`. -/
def slice (line : Bytes) (start stop : Nat) : Except Breach Bytes :=
  if stop < start || line.length < stop then .error (.bytesOutside start stop line.length)
  else .ok ((line.drop start).take (stop - start))

theorem slice_of_le {line : Bytes} {start stop : Nat} (h : start ≤ stop)
    (hstop : stop ≤ line.length) : line.slice start stop = .ok ((line.drop start).take (stop - start)) := by
  have hin : (stop < start || line.length < stop) = false := by
    simp only [Bool.or_eq_false_iff, decide_eq_false_iff_not]
    omega
  rw [slice, hin, if_neg Bool.false_ne_true]

end Bytes

namespace Slice

/-- How many bytes a text takes in UTF-8. -/
def size : List Char → Nat
  | [] => 0
  | c :: rest => c.utf8Size + size rest

/-- The first `n` bytes of a text and what stands behind them, if a character ends there. -/
def cut? : List Char → Nat → Option (List Char × List Char)
  | s, 0 => some ([], s)
  | [], _ + 1 => none
  | c :: rest, n + 1 =>
    if c.utf8Size ≤ n + 1 then
      (cut? rest (n + 1 - c.utf8Size)).map fun (front, rest) => (c :: front, rest)
    else none

def cut (s : List Char) (n : Nat) : Except Breach (List Char × List Char) :=
  match cut? s n with
  | some parts => .ok parts
  | none => .error (.offBorder n (size s))

/-- What stands behind the first `n` bytes of a text. -/
def behind (s : List Char) (n : Nat) : Except Breach (List Char) := Prod.snd <$> cut s n

theorem size_cons (c : Char) (s : List Char) : size (c :: s) = c.utf8Size + size s := rfl

theorem size_append (s t : List Char) : size (s ++ t) = size s + size t := by
  induction s with
  | nil => exact (Nat.zero_add _).symm
  | cons c s ih => rw [List.cons_append, size_cons, size_cons, ih, Nat.add_assoc]

theorem cut?_append (front rest : List Char) :
    cut? (front ++ rest) (size front) = some (front, rest) := by
  induction front with
  | nil => cases rest <;> rfl
  | cons c front ih =>
    have hpos := c.utf8Size_pos
    obtain ⟨n, hn⟩ : ∃ n, size (c :: front) = n + 1 := ⟨size (c :: front) - 1, by
      rw [size_cons]
      omega⟩
    have hrest : n + 1 - c.utf8Size = size front := by
      rw [← hn, size_cons, Nat.add_sub_cancel_left]
    have hle : c.utf8Size ≤ n + 1 := by
      rw [← hn, size_cons]
      exact Nat.le_add_right _ _
    rw [hn, List.cons_append, cut?, if_pos hle, hrest, ih]
    rfl

theorem eq_append_of_cut? {s front rest : List Char} {n : Nat} (h : cut? s n = some (front, rest)) :
    s = front ++ rest ∧ n = size front := by
  induction s generalizing n front with
  | nil =>
    cases n with
    | zero =>
      cases h
      exact ⟨rfl, rfl⟩
    | succ n => cases h
  | cons c s ih =>
    cases n with
    | zero =>
      cases h
      exact ⟨rfl, rfl⟩
    | succ n =>
      rw [cut?] at h
      split at h
      · obtain ⟨⟨front', rest'⟩, hcut, heq⟩ := Option.map_eq_some_iff.mp h
        cases heq
        obtain ⟨rfl, hsize⟩ := ih hcut
        refine ⟨rfl, ?_⟩
        rw [size_cons]
        omega
      · cases h

/-- A text can be cut behind each of its characters, and nowhere else. -/
theorem cut_eq_ok_iff {s front rest : List Char} {n : Nat} :
    cut s n = .ok (front, rest) ↔ s = front ++ rest ∧ n = size front := by
  constructor
  · intro h
    unfold cut at h
    split at h
    · rename_i hcut
      cases h
      exact eq_append_of_cut? hcut
    · cases h
  · rintro ⟨rfl, rfl⟩
    rw [cut, cut?_append]

theorem behind_append (front rest : List Char) :
    behind (front ++ rest) (size front) = .ok rest := by
  rw [behind, cut_eq_ok_iff.mpr ⟨rfl, rfl⟩]
  rfl

end Slice

end LineEditor
