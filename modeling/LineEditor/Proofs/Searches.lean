import LineEditor.Regex.Matcher

/-!
# Steps of a search

What an instruction does is given here in three parts: where a match goes on without a byte, what it
has noted there, and the thread that goes on behind a byte. What holds of all ways to match at a
place, and of all threads that leave it, follows from what each of the three parts does.
-/

namespace LineEditor.Regex

namespace Inst

/-- Where an instruction goes on without a byte. -/
def moves (holds : Look → Bool) : Inst → List Nat
  | .split first second => [first, second]
  | .save _ next => [next]
  | .look l next => if holds l then [next] else []
  | .byte .. | .byteIn .. | .codePoint .. | .accept => []

/-- The places noted behind an instruction. -/
def note (offset : Nat) (slots : Slots) : Inst → Slots
  | .save slot _ => slots.setIfInBounds slot (some offset)
  | _ => slots

/-- The thread behind an instruction that takes a byte. -/
def eats (after : Bytes) (slots : Slots) : Inst → List Thread
  | .byte b next => if startsWith b after then [⟨next, 0, slots⟩] else []
  | .byteIn s next =>
    if after.head?.any fun b => s.contains b.toNat then [⟨next, 0, slots⟩] else []
  | .codePoint s next =>
    match Utf8.decode after with
    | some (code, n) => if s.contains code then [⟨next, n - 1, slots⟩] else []
    | none => []
  | .split .. | .save .. | .look .. | .accept => []

variable {i : Inst} {holds : Look → Bool} {next : Nat}

theorem of_mem_moves (h : next ∈ i.moves holds) :
    (∃ first second, i = .split first second ∧ (next = first ∨ next = second)) ∨
      (∃ slot, i = .save slot next) ∨ ∃ l, i = .look l next ∧ holds l = true := by
  cases i with
  | split first second => exact .inl ⟨first, second, rfl, by simpa [moves] using h⟩
  | save slot next' =>
    obtain rfl := List.mem_singleton.mp h
    exact .inr (.inl ⟨slot, rfl⟩)
  | look l next' =>
    simp only [moves] at h
    split at h
    · obtain rfl := List.mem_singleton.mp h
      exact .inr (.inr ⟨l, rfl, ‹_›⟩)
    · cases h
  | byte | byteIn | codePoint | accept => cases h

theorem of_mem_eats {after : Bytes} {slots : Slots} {t : Thread} (h : t ∈ i.eats after slots) :
    t.slots = slots ∧
      ((∃ b, i = .byte b t.pc) ∨ (∃ s, i = .byteIn s t.pc) ∨ ∃ s, i = .codePoint s t.pc) := by
  cases i with
  | byte b next =>
    simp only [eats] at h
    split at h
    · obtain rfl := List.mem_singleton.mp h
      exact ⟨rfl, .inl ⟨b, rfl⟩⟩
    · cases h
  | byteIn s next =>
    simp only [eats] at h
    split at h
    · obtain rfl := List.mem_singleton.mp h
      exact ⟨rfl, .inr (.inl ⟨s, rfl⟩)⟩
    · cases h
  | codePoint s next =>
    simp only [eats] at h
    split at h
    · split at h
      · obtain rfl := List.mem_singleton.mp h
        exact ⟨rfl, .inr (.inr ⟨s, rfl⟩)⟩
      · cases h
    · cases h
  | split | save | look | accept => cases h

theorem length_moves_le (holds : Look → Bool) (i : Inst) : (i.moves holds).length ≤ 2 := by
  cases i with
  | look l next =>
    simp only [moves]
    split <;> simp
  | byte | byteIn | codePoint | split | save | accept => simp [moves]

@[simp] theorem size_note (offset : Nat) (slots : Slots) (i : Inst) :
    (i.note offset slots).size = slots.size := by
  cases i with
  | save slot next => exact Array.size_setIfInBounds
  | byte | byteIn | codePoint | split | look | accept => rfl

end Inst

def Place.holds (place : Place) (l : Look) : Bool := l.holds place.before place.after

namespace Front

/-! ## One step -/

section
variable {p : Program} {place : Place} {fuel pc : Nat} {slots : Slots} {stack : List (Nat × Slots)}
  {f : Front}

theorem explore_seen (h : f.seen.testBit pc = true) :
    f.explore p place (fuel + 1) ((pc, slots) :: stack) = f.explore p place fuel stack := by
  simp [explore, h]

variable (h : f.seen.testBit pc = false)
include h

theorem explore_none (hi : p[pc]? = none) :
    f.explore p place (fuel + 1) ((pc, slots) :: stack) =
      Front.explore p place fuel stack { f with seen := f.seen ||| 1 <<< pc } := by
  simp [explore, h, hi]

theorem explore_accept (hi : p[pc]? = some .accept) :
    f.explore p place (fuel + 1) ((pc, slots) :: stack) =
      { f with seen := f.seen ||| 1 <<< pc, found := some slots } := by
  simp [explore, h, hi]

theorem explore_inst {i : Inst} (hi : p[pc]? = some i) (hne : i ≠ .accept) :
    f.explore p place (fuel + 1) ((pc, slots) :: stack) =
      Front.explore p place fuel
        ((i.moves place.holds).map (·, i.note place.offset slots) ++ stack)
        ⟨f.seen ||| 1 <<< pc, i.eats place.after slots ++ f.next, f.found⟩ := by
  simp only [explore, h, hi, Bool.false_eq_true, if_false]
  cases i with
  | accept => exact absurd rfl hne
  | split first second => rfl
  | save slot next => rfl
  | look l next =>
    by_cases hl : l.holds place.before place.after = true <;>
      simp [Inst.moves, Inst.note, Inst.eats, Place.holds, hl]
  | byte b next =>
    by_cases hb : startsWith b place.after = true <;> simp [Inst.moves, Inst.eats, hb]
  | byteIn s next =>
    by_cases hb : (place.after.head?.any fun b => s.contains b.toNat) = true <;>
      simp [Inst.moves, Inst.eats, hb]
  | codePoint s next =>
    cases hd : Utf8.decode place.after with
    | none => simp [Inst.moves, Inst.eats, hd]
    | some char =>
      by_cases hb : s.contains char.1 = true <;> simp [Inst.moves, Inst.eats, hd, hb]

end

/-! ## What all steps keep -/

/-- What holds of the ways to match at a place, of the threads that leave it, and of what is accepted
there, each following from the instruction before it. -/
structure Invariant (p : Program) (place : Place) (here : Nat → Slots → Prop)
    (away : Thread → Prop) (accepted : Slots → Prop) : Prop where
  move : ∀ {pc s i next}, here pc s → p[pc]? = some i → next ∈ i.moves place.holds →
    here next (i.note place.offset s)
  eat : ∀ {pc s i t}, here pc s → p[pc]? = some i → t ∈ i.eats place.after s → away t
  accept : ∀ {pc s}, here pc s → p[pc]? = some .accept → accepted s

/-- The threads of a front and what it has found are of the kind asked for. -/
structure Has (f : Front) (away : Thread → Prop) (accepted : Slots → Prop) : Prop where
  next : ∀ t ∈ f.next, away t
  found : ∀ s, f.found = some s → accepted s

theorem has_nil (away : Thread → Prop) (accepted : Slots → Prop) :
    Has ⟨0, [], none⟩ away accepted :=
  ⟨by simp, by simp⟩

section
variable {c : Code} {place : Place} {here : Nat → Slots → Prop} {away : Thread → Prop}
  {accepted : Slots → Prop} (h : Invariant c.program place here away accepted)
include h

/-- By induction on the instructions that are followed; the stack is what is still to be. -/
theorem Invariant.explore (fuel : Nat) (stack : List (Nat × Slots)) (f : Front)
    (hstack : ∀ x ∈ stack, here x.1 x.2) (hf : f.Has away accepted) :
    (f.explore c.program place fuel stack).Has away accepted := by
  induction fuel generalizing stack f with
  | zero => exact hf
  | succ fuel ih =>
    cases stack with
    | nil => exact hf
    | cons x stack =>
      obtain ⟨pc, slots⟩ := x
      obtain ⟨hx, hrest⟩ := List.forall_mem_cons.mp hstack
      cases hseen : f.seen.testBit pc with
      | true =>
        rw [explore_seen hseen]
        exact ih stack f hrest hf
      | false =>
        cases hi : c.program[pc]? with
        | none =>
          rw [explore_none hseen hi]
          exact ih stack _ hrest ⟨hf.next, hf.found⟩
        | some i =>
          by_cases hacc : i = .accept
          · rw [hacc] at hi
            rw [explore_accept hseen hi]
            refine ⟨hf.next, ?_⟩
            intro s hs
            obtain rfl := Option.some.inj hs
            exact h.accept hx hi
          · rw [explore_inst hseen hi hacc]
            refine ih _ _ ?_ ⟨?_, hf.found⟩
            · intro x hmem
              rcases List.mem_append.mp hmem with hmem | hmem
              · obtain ⟨next, hnext, rfl⟩ := List.mem_map.mp hmem
                exact h.move hx hi hnext
              · exact hrest x hmem
            · intro t ht
              rcases List.mem_append.mp ht with ht | ht
              · exact h.eat hx hi ht
              · exact hf.next t ht

/-- A thread at the place waits there, or goes on from its instruction. -/
theorem Invariant.run (threads : List Thread) (f : Front)
    (hwait : ∀ t ∈ threads, 0 < t.wait → away { t with wait := t.wait - 1 })
    (hgo : ∀ t ∈ threads, t.wait = 0 → here t.pc t.slots) (hf : f.Has away accepted) :
    (f.run c.program place threads).Has away accepted := by
  induction threads generalizing f with
  | nil => exact hf
  | cons t threads ih =>
    obtain ⟨htwait, hwait⟩ := List.forall_mem_cons.mp hwait
    obtain ⟨htgo, hgo⟩ := List.forall_mem_cons.mp hgo
    unfold Front.run
    split
    · rename_i hpos
      exact ih _ hwait hgo ⟨List.forall_mem_cons.mpr ⟨htwait hpos, hf.next⟩, hf.found⟩
    · rename_i hzero
      have hexplored := h.explore (2 * c.program.size + 2) [(t.pc, t.slots)] f
        (by simpa using htgo (by omega)) hf
      dsimp only
      split
      · exact hexplored
      · exact ih _ hwait hgo hexplored

/-- What comes out of a visit was accepted there, or before. -/
theorem Invariant.visit {threads : List Thread} (best : Option Slots)
    (hwait : ∀ t ∈ threads, 0 < t.wait → away { t with wait := t.wait - 1 })
    (hgo : ∀ t ∈ threads, t.wait = 0 → here t.pc t.slots)
    (hfresh : here c.entry (Array.replicate (2 * c.groups) none)) :
    (∀ t ∈ (c.visit place threads best).1, away t) ∧
      ∀ s, (c.visit place threads best).2 = some s → accepted s ∨ best = some s := by
  obtain ⟨fresh, hnew⟩ : ∃ fresh : List Thread, fresh = if best.isSome then [] else
      [⟨c.entry, 0, Array.replicate (2 * c.groups) none⟩] := ⟨_, rfl⟩
  have hmem {t : Thread} (ht : t ∈ fresh) : t.wait = 0 ∧ here t.pc t.slots := by
    rw [hnew] at ht
    split at ht
    · cases ht
    · obtain rfl := List.mem_singleton.mp ht
      exact ⟨rfl, hfresh⟩
  have hhas := h.run (threads ++ fresh) ⟨0, [], none⟩
    (List.forall_mem_append.mpr ⟨hwait, fun t ht hpos => absurd (hmem ht).1 (by omega)⟩)
    (List.forall_mem_append.mpr ⟨hgo, fun t ht _ => (hmem ht).2⟩) (has_nil away accepted)
  unfold Code.visit
  rw [← hnew]
  refine ⟨fun t ht => hhas.next t (List.mem_reverse.mp ht), ?_⟩
  intro s hs
  dsimp only at hs
  generalize Front.run c.program place (threads ++ fresh) _ = front at hhas hs
  cases hfound : front.found with
  | some s' =>
    rw [hfound] at hs
    cases hs
    exact .inl (hhas.found s hfound)
  | none =>
    rw [hfound] at hs
    exact .inr hs

end

end Front

end LineEditor.Regex
