import LineEditor.Text.Slices

/-!
# Blobs

A file is a blob: its lines, each ended by a newline, except that the last line may have none. A
newline at the end closes the last line and opens no further one, so an empty blob has no lines.
-/

namespace LineEditor

/-- A blob cut into lines. -/
structure SplitBlob where
  lines : List Bytes
  /-- False when the blob is not empty and its last line has no newline. -/
  finalNewline : Bool
  hasNul : Bool
  deriving Repr, DecidableEq

namespace Blob

/-- Whether a blob ends where a line ends; so does the empty one. -/
def endsLine (blob : Bytes) : Bool :=
  match blob.getLast? with
  | none => true
  | some b => b == Bytes.newline

def split (blob : Bytes) : SplitBlob where
  lines :=
    if blob.isEmpty then []
    else Bytes.splitOn Bytes.newline (if endsLine blob then blob.dropLast else blob)
  finalNewline := endsLine blob
  hasNul := blob.contains 0

/-- The same cut, as it is made: the newline that closes the last line is cut off first. -/
def read (blob : Bytes) : Except Breach SplitBlob := do
  if blob.isEmpty then return ⟨[], true, blob.contains 0⟩
  let body ← if endsLine blob then blob.slice 0 (← difference blob.length 1) else pure blob
  return ⟨Bytes.splitOn Bytes.newline body, endsLine blob, blob.contains 0⟩

theorem read_eq (blob : Bytes) : read blob = .ok (split blob) := by
  cases blob with
  | nil => rfl
  | cons b blob =>
    have hcut : Bytes.slice (b :: blob) 0 blob.length = .ok (b :: blob).dropLast := by
      rw [Bytes.slice_of_le (Nat.zero_le _) (Nat.le_succ _), List.drop_zero, List.dropLast_eq_take]
      rfl
    have hless : difference (b :: blob).length 1 = .ok blob.length :=
      difference_of_le (Nat.le_add_left 1 _)
    unfold read split
    simp only [List.isEmpty_cons, Bool.false_eq_true, if_false, hless]
    split
    · rename_i hend
      show (Bytes.slice (b :: blob) 0 blob.length >>= fun body => pure _) = _
      rw [hcut, hend]
      rfl
    · rfl

/-- The number of lines of a blob, counted by its newlines. -/
def countLines (blob : Bytes) : Nat :=
  blob.count Bytes.newline + if endsLine blob then 0 else 1

/-- The lines as a blob again; the newline after the last one is a choice. -/
def join (lines : List Bytes) (finalNewline : Bool) : Bytes :=
  List.intercalate [Bytes.newline] lines ++
    if finalNewline && !lines.isEmpty then [Bytes.newline] else []

end Blob

end LineEditor
