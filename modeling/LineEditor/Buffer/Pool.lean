import LineEditor.Buffer.Breach
import LineEditor.Text.Bytes

/-!
# The line pool

Lines are stored once and named by handles. Each stored line counts the references to it; when the
last one is released, its slot is free and is the next to be used again. A free slot has no line, so
nothing but a new line makes its handle valid.

How far references can be counted is a parameter of all that takes references. Unless it is said
otherwise there is no bound; with one, a reference too many is a breach.
-/

namespace LineEditor

/-- The highest count of references that can be kept, if there is one. -/
class CountLimit where
  most : Option Nat
  most_pos : ∀ n ∈ most, 0 < n

namespace CountLimit

instance (priority := low) unbounded : CountLimit := ⟨none, nofun⟩

/-- Counts of references that have 32 bits. -/
@[reducible] def bits32 : CountLimit := ⟨some (UInt32.size - 1), fun _ hn => Option.some.inj hn ▸ by decide⟩

/-- A count can be as high as `n`. -/
def Holds [CountLimit] (n : Nat) : Prop := ∀ most ∈ CountLimit.most, n ≤ most

instance [CountLimit] (n : Nat) : Decidable (Holds n) :=
  inferInstanceAs (Decidable (∀ most ∈ CountLimit.most, n ≤ most))

theorem holds_unbounded (n : Nat) : Holds n := nofun

theorem Holds.mono [CountLimit] {n k : Nat} (h : Holds n) (hk : k ≤ n) : Holds k :=
  fun most hm => Nat.le_trans hk (h most hm)

theorem holds_one [CountLimit] : Holds 1 := CountLimit.most_pos

end CountLimit

/-- A stored line and the number of references to it. -/
structure StoredLine where
  text : Bytes
  refs : Nat
  deriving Repr, DecidableEq

/-- Slots by handle, and the free ones among them, the next to be used first. -/
structure Pool where
  slots : Array (Option StoredLine)
  free : List Handle
  /-- The number of lines stored. -/
  live : Nat
  free_lt : ∀ h ∈ free, h < slots.size
  deriving Repr, DecidableEq

namespace Pool

def empty : Pool := ⟨#[], [], 0, by simp⟩

def stored? (p : Pool) (h : Handle) : Option StoredLine := p.slots[h]?.join

theorem stored?_lt {p : Pool} {h : Handle} {line : StoredLine} (hs : p.stored? h = some line) :
    h < p.slots.size := by
  refine Nat.lt_of_not_le fun hle => ?_
  rw [stored?, Array.getElem?_eq_none hle] at hs
  cases hs

def text? (p : Pool) (h : Handle) : Option Bytes := (p.stored? h).map StoredLine.text

/-- The references to a line; none if it is not stored. -/
def refs (p : Pool) (h : Handle) : Nat := ((p.stored? h).map StoredLine.refs).getD 0

/-- Stores a line with one reference, which belongs to the caller. -/
def insert (p : Pool) (text : Bytes) : Handle × Pool :=
  match hfree : p.free with
  | h :: free =>
    have hlt : ∀ k ∈ h :: free, k < p.slots.size := hfree ▸ p.free_lt
    (h,
      { slots := p.slots.set h (some ⟨text, 1⟩) (hlt h List.mem_cons_self)
        free := free
        live := p.live + 1
        free_lt := fun k hk => by simpa using hlt k (List.mem_cons_of_mem h hk) })
  | [] => (p.slots.size, ⟨p.slots.push (some ⟨text, 1⟩), [], p.live + 1, by simp⟩)

def append (p : Pool) : List Bytes → List Handle × Pool
  | [] => ([], p)
  | text :: rest =>
    let (h, p) := p.insert text
    let (hs, p) := p.append rest
    (h :: hs, p)

/-- The text behind a handle that must be stored. -/
def get (p : Pool) (h : Handle) : Except Breach Bytes :=
  match p.stored? h with
  | some line => .ok line.text
  | none => .error (.reclaimed .lookup h)

/-- A stored line whose count of references becomes `n`. -/
def recount (p : Pool) {h : Handle} {line : StoredLine} (hs : p.stored? h = some line) (n : Nat) :
    Pool where
  slots := p.slots.set h (some ⟨line.text, n⟩) (stored?_lt hs)
  free := p.free
  live := p.live
  free_lt := by simpa using p.free_lt

/-- A stored line that goes; its slot is the next to be used. There are `live` lines left. -/
def reclaim (p : Pool) {h : Handle} {line : StoredLine} (hs : p.stored? h = some line) (live : Nat) :
    Pool where
  slots := p.slots.set h none (stored?_lt hs)
  free := h :: p.free
  live := live
  free_lt := by simpa using ⟨stored?_lt hs, p.free_lt⟩

def retain [CountLimit] (p : Pool) (h : Handle) : Except Breach Pool :=
  match hs : p.stored? h with
  | some line =>
    if CountLimit.Holds (line.refs + 1) then .ok (p.recount hs (line.refs + 1))
    else .error (.countFull h)
  | none => .error (.reclaimed .retain h)

/-- Gives a reference back; the answer says whether it was the last one. -/
def release (p : Pool) (h : Handle) : Except Breach (Pool × Bool) :=
  match hs : p.stored? h with
  | some line => do
    let left ← difference line.refs 1
    if left = 0 then return (p.reclaim hs (← difference p.live 1), true)
    else return (p.recount hs left, false)
  | none => .error (.reclaimed .release h)

/-- Adds a reference for each handle in turn, up to the first breach. -/
def retainEach [CountLimit] (p : Pool) : List Handle → Pool × Except Breach Unit
  | [] => (p, .ok ())
  | h :: rest =>
    match p.retain h with
    | .ok p => p.retainEach rest
    | .error b => (p, .error b)

/-- Gives a reference back for each handle in turn, up to the first breach; the answer counts the
lines that are gone. -/
def releaseEach (p : Pool) : List Handle → Pool × Except Breach Nat
  | [] => (p, .ok 0)
  | h :: rest =>
    match p.release h with
    | .ok (p, last) =>
      let (p, count) := p.releaseEach rest
      (p, count.map fun n => if last then n + 1 else n)
    | .error b => (p, .error b)

def retainAll [CountLimit] (p : Pool) (handles : List Handle) : Except Breach Pool :=
  match p.retainEach handles with
  | (p, .ok ()) => .ok p
  | (_, .error b) => .error b

/-- Gives a reference back for each handle; the answer counts the lines that are gone. -/
def releaseAll (p : Pool) (handles : List Handle) : Except Breach (Pool × Nat) :=
  match p.releaseEach handles with
  | (p, .ok count) => .ok (p, count)
  | (_, .error b) => .error b

def tally (size : Nat) (handles : List Handle) : Array Nat :=
  handles.foldl (fun counts h => counts.modify h (· + 1)) (Array.replicate size 0)

/-- Whether the handles given are the references counted. -/
def isBalanced (p : Pool) (handles : List Handle) : Bool :=
  handles.all (· < p.slots.size) &&
    p.slots.map (fun slot => (slot.map StoredLine.refs).getD 0) == tally p.slots.size handles

end Pool

end LineEditor
