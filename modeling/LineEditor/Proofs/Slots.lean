import LineEditor.Proofs.Pool

/-!
# Slots of the pool

A pool is asked for one thing after the other, and all that is done to its handles goes into a log. A
slot that is free is in the free list once; one that is not counts the references given and taken
since a line was last stored in it, and nothing but a new line makes a free slot anything else. That
is so however far references can be counted; what is asked of live lines is refused only where a
count would go too far.
-/

namespace LineEditor.Pool

/-- What is asked of a pool. -/
inductive Demand where
  | insert (text : Bytes)
  | append (texts : List Bytes)
  | retain (h : Handle)
  | release (h : Handle)
  | retainAll (handles : List Handle)
  | releaseAll (handles : List Handle)
  deriving DecidableEq

inductive Reply where
  | stored (h : Handle)
  | storedAll (handles : List Handle)
  | done
  | last (reclaimed : Bool)
  | reclaimed (count : Nat)
  deriving DecidableEq

def meet [CountLimit] (p : Pool) : Demand → Except Breach (Reply × Pool)
  | .insert text => return (.stored (p.insert text).1, (p.insert text).2)
  | .append texts => return (.storedAll (p.append texts).1, (p.append texts).2)
  | .retain h => return (.done, ← p.retain h)
  | .release h => do
    let (q, last) ← p.release h
    return (.last last, q)
  | .retainAll handles => return (.done, ← p.retainAll handles)
  | .releaseAll handles => do
    let (q, count) ← p.releaseAll handles
    return (.reclaimed count, q)

/-- What is done to one handle. -/
inductive Event where
  | stored (h : Handle) (text : Bytes)
  | retained (h : Handle)
  | released (h : Handle)
  deriving DecidableEq

def Demand.events : Demand → Reply → List Event
  | .insert text, .stored h => [.stored h text]
  | .append texts, .storedAll handles => List.zipWith Event.stored handles texts
  | .retain h, _ => [.retained h]
  | .release h, _ => [.released h]
  | .retainAll handles, _ => handles.map .retained
  | .releaseAll handles, _ => handles.map .released
  | _, _ => []

/-- The pools that demands lead to, with the log of all that was done, the last event first. -/
inductive Runs [CountLimit] : List Event → Pool → Prop
  | empty : Runs [] .empty
  | next {log : List Event} {p q : Pool} {d : Demand} {reply : Reply} : Runs log p →
    p.meet d = .ok (reply, q) → Runs ((d.events reply).reverse ++ log) q

/-- The references asked for can be counted. -/
def Demand.HasRoom [CountLimit] (p : Pool) : Demand → Prop
  | .retain h => CountLimit.Holds (p.refs h + 1)
  | .retainAll handles => ∀ h ∈ handles, CountLimit.Holds (p.refs h + handles.count h)
  | _ => True

/-- The line was the last to be stored under the handle, and its references are the first one and
those given and taken since. -/
def CountedSince (log : List Event) (h : Handle) (line : StoredLine) : Prop :=
  ∃ later earlier, log = later ++ .stored h line.text :: earlier ∧
    (∀ text, .stored h text ∉ later) ∧
    line.refs + later.count (.released h) = 1 + later.count (.retained h)

structure Logged [CountLimit] (log : List Event) (p : Pool) : Prop extends p.WellFormed where
  counted : ∀ h line, p.stored? h = some line → CountedSince log h line
  size_le : p.slots.size ≤ log.length
  holds : ∀ h, CountLimit.Holds (p.refs h)

section
variable {p q r : Pool} {h k : Handle} {line : StoredLine} {log : List Event} {ev : Event}

/-! ## One event -/

/-- Later events that store nothing under the handle leave the decomposition of the log as it is. -/
theorem CountedSince.cons (h : CountedSince log k line) (hstored : ∀ text, ev ≠ .stored k text)
    {line' : StoredLine} (htext : line'.text = line.text)
    (hrefs : ∀ later : List Event, line.refs + later.count (.released k) = 1 + later.count (.retained k) →
      line'.refs + (ev :: later).count (.released k) = 1 + (ev :: later).count (.retained k)) :
    CountedSince (ev :: log) k line' := by
  obtain ⟨later, earlier, rfl, hlast, hcount⟩ := h
  refine ⟨ev :: later, earlier, by rw [htext]; rfl, fun text hmem => ?_, hrefs later hcount⟩
  cases List.mem_cons.mp hmem with
  | inl heq => exact hstored text heq.symm
  | inr hmem => exact hlast text hmem

theorem CountedSince.other (h : CountedSince log k line) (hstored : ∀ text, ev ≠ .stored k text)
    (hretained : ev ≠ .retained k) (hreleased : ev ≠ .released k) :
    CountedSince (ev :: log) k line := by
  refine h.cons hstored rfl fun later hcount => ?_
  rw [List.count_cons_of_ne hretained, List.count_cons_of_ne hreleased]
  exact hcount

theorem Logged.empty [CountLimit] : Logged [] Pool.empty where
  toWellFormed := Balanced.empty.toWellFormed
  counted h line hs := by simp [Pool.empty, stored?] at hs
  size_le := Nat.le_refl 0
  holds h := CountLimit.holds_one.mono (by simp [Pool.empty, refs, stored?])

theorem CountedSince.refs_le (h : CountedSince log k line) : line.refs ≤ log.length := by
  obtain ⟨later, earlier, rfl, -, hcount⟩ := h
  have hle := List.count_le_length (a := Event.retained k) (l := later)
  rw [List.length_append, List.length_cons]
  omega

end

/-- Where two references can be counted, a third one is refused. -/
example : let _ : CountLimit := ⟨some 2, by decide⟩
    (do (← (Pool.empty.insert [97]).2.retain 0).retain 0) = .error (.countFull 0) := rfl

end LineEditor.Pool
