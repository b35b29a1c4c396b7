import LineEditor.Proofs.Matches
import Mathlib.Data.Finset.Card
import Mathlib.Data.Finset.Range

/-!
# Paths without a byte

An empty match is a path through the program that takes no byte. It lies at one place of the line,
and apart from the instructions all that matters to it is which conditions hold there. A search that
ends with an empty match has followed such a path, and at a place with no byte behind it a search
finds one if there is any.
-/

namespace LineEditor.Regex

/-! ## Instructions -/

/-- What an instruction is like that has no part in noting the whole match. -/
def Inst.Inner (looks : Set Look) : Inst → Prop
  | .byte _ next | .codePoint _ next | .byteIn _ next => 0 < next
  | .look l next => l ∈ looks ∧ 0 < next
  | .save slot next => 1 < slot ∧ 0 < next
  | .split first second => 0 < first ∧ 0 < second
  | .accept => False

namespace Inst.Inner

variable {looks : Set Look} {i : Inst}

theorem moves_pos (h : i.Inner looks) {holds : Look → Bool} {next : Nat}
    (hn : next ∈ i.moves holds) : 0 < next := by
  rcases of_mem_moves hn with ⟨first, second, rfl, rfl | rfl⟩ | ⟨slot, rfl⟩ | ⟨l, rfl, -⟩
  · exact h.1
  · exact h.2
  · exact h.2
  · exact h.2

theorem eats_pos (h : i.Inner looks) {after : Bytes} {slots : Slots} {t : Thread}
    (ht : t ∈ i.eats after slots) : 0 < t.pc := by
  obtain ⟨-, hi⟩ := of_mem_eats ht
  rcases hi with ⟨b, rfl⟩ | ⟨set, rfl⟩ | ⟨set, rfl⟩
  · exact h
  · exact h
  · exact h

/-- The two ends of the whole match stay as they are. -/
theorem note_ends (h : i.Inner looks) (offset : Nat) (slots : Slots) {k : Nat} (hk : k < 2) :
    (i.note offset slots)[k]? = slots[k]? := by
  cases i with
  | save slot next =>
    have hne : slot ≠ k := by
      have hslot : 1 < slot := h.1
      omega
    exact Array.getElem?_setIfInBounds_ne hne
  | byte | byteIn | codePoint | split | look | accept => rfl

end Inst.Inner

/-! ## Paths -/

/-- The instructions that a match comes to before it takes a byte. -/
inductive Code.Reaches (c : Code) (holds : Look → Bool) : Nat → Prop
  | entry : Reaches c holds c.entry
  | step {pc next : Nat} {i : Inst} (h : Reaches c holds pc) (hi : c.program[pc]? = some i)
      (hnext : next ∈ i.moves holds) : Reaches c holds next

/-- The start of the whole match is noted where the code is entered, its stop just before the match
is accepted, and no other instruction has a part in that. -/
structure Code.Framed (c : Code) (looks : Set Look) : Prop where
  accept : c.program[0]? = some .accept
  stop : c.program[1]? = some (.save 1 0)
  entry : ∃ next, 0 < next ∧ c.program[c.entry]? = some (.save 0 next)
  inner : ∀ pc i, c.program[pc]? = some i → 1 < pc → pc ≠ c.entry → i.Inner looks
  groups_pos : 0 < c.groups

namespace Code

variable {c : Code} {looks : Set Look} {place : Place} {pc : Nat} {s : Slots} {i : Inst}

theorem Framed.eq_save_of_entry (hc : c.Framed looks) (hi : c.program[c.entry]? = some i) :
    ∃ next, 0 < next ∧ i = .save 0 next := by
  obtain ⟨next, hnext, hentry⟩ := hc.entry
  rw [hentry] at hi
  exact ⟨next, hnext, (Option.some.inj hi).symm⟩

theorem Framed.entry_ne_zero (hc : c.Framed looks) : c.entry ≠ 0 := by
  intro hzero
  obtain ⟨next, -, hsave⟩ := hc.eq_save_of_entry (hzero ▸ hc.accept)
  cases hsave

theorem Framed.cases (hc : c.Framed looks) (hi : c.program[pc]? = some i) :
    pc = 0 ∧ i = .accept ∨ (pc = c.entry ∧ ∃ next, 0 < next ∧ i = .save 0 next) ∨
      (pc ≠ c.entry ∧ (i = .save 1 0 ∨ i.Inner looks)) := by
  by_cases hzero : pc = 0
  · rw [hzero, hc.accept] at hi
    exact .inl ⟨hzero, (Option.some.inj hi).symm⟩
  · by_cases hentry : pc = c.entry
    · exact .inr (.inl ⟨hentry, hc.eq_save_of_entry (hentry ▸ hi)⟩)
    · refine .inr (.inr ⟨hentry, ?_⟩)
      by_cases hone : pc = 1
      · rw [hone, hc.stop] at hi
        exact .inl (Option.some.inj hi).symm
      · exact .inr (hc.inner pc i hi (by omega) hentry)

theorem Framed.eq_zero_of_accept (hc : c.Framed looks) (hi : c.program[pc]? = some .accept) :
    pc = 0 := by
  rcases hc.cases hi with ⟨hzero, -⟩ | ⟨-, _, -, h⟩ | ⟨-, h | h⟩
  · exact hzero
  · cases h
  · cases h
  · cases h

theorem Framed.mem_of_look (hc : c.Framed looks) {l : Look} {next : Nat}
    (hi : c.program[pc]? = some (.look l next)) : l ∈ looks := by
  rcases hc.cases hi with ⟨-, h⟩ | ⟨-, _, -, h⟩ | ⟨-, h | h⟩
  · cases h
  · cases h
  · cases h
  · exact h.1

/-- Conditions that the code does not have do not matter. -/
theorem Reaches.mono (hc : c.Framed looks) {holds holds' : Look → Bool}
    (hh : ∀ l ∈ looks, holds l = true → holds' l = true) (h : c.Reaches holds pc) :
    c.Reaches holds' pc := by
  induction h with
  | entry => exact .entry
  | step _ hi hnext ih =>
    refine ih.step hi ?_
    rcases Inst.of_mem_moves hnext with ⟨first, second, rfl, -⟩ | ⟨slot, rfl⟩ | ⟨l, rfl, hholds⟩
    · exact hnext
    · exact hnext
    · simp [Inst.moves, hh l (hc.mem_of_look hi) hholds]

/-- What a way to match at a place has noted: if its start is that place, it has taken no byte. -/
structure Tracks (c : Code) (place : Place) (pc : Nat) (s : Slots) : Prop where
  two_le : 2 ≤ s.size
  start : pc = c.entry ∨ ∃ a ≤ place.offset, s[0]? = some (some a) ∧
    (a = place.offset → c.Reaches place.holds pc)
  stop : pc = 0 → s[1]? = some (some place.offset)

theorem Tracks.reaches (h : c.Tracks place pc s) (hs : s[0]? = some (some place.offset)) :
    c.Reaches place.holds pc := by
  rcases h.start with rfl | ⟨a, -, ha, hreach⟩
  · exact .entry
  · refine hreach ?_
    rw [hs] at ha
    cases ha
    rfl

theorem Framed.tracks_fresh (hc : c.Framed looks) (place : Place) :
    c.Tracks place c.entry (Array.replicate (2 * c.groups) none) := by
  refine ⟨?_, .inl rfl, ?_⟩
  · have hpos := hc.groups_pos
    rw [Array.size_replicate]
    omega
  · intro hzero
    exact absurd hzero hc.entry_ne_zero

end Code

/-- A thread that began before `offset` has noted its start and does not accept yet. -/
structure Thread.Began (t : Thread) (offset : Nat) : Prop where
  pc_pos : 0 < t.pc
  two_le : 2 ≤ t.slots.size
  start : ∃ a < offset, t.slots[0]? = some (some a)

theorem Thread.Began.mono {t : Thread} {offset offset' : Nat} (h : t.Began offset)
    (ho : offset ≤ offset') : t.Began offset' := by
  obtain ⟨a, ha, hs⟩ := h.start
  exact ⟨h.pc_pos, h.two_le, a, Nat.lt_of_lt_of_le ha ho, hs⟩

theorem Thread.Began.tracks {t : Thread} {place : Place} (h : t.Began place.offset) (c : Code) :
    c.Tracks place t.pc t.slots := by
  obtain ⟨a, ha, hs⟩ := h.start
  refine ⟨h.two_le, .inr ⟨a, Nat.le_of_lt ha, hs, ?_⟩, ?_⟩
  · intro heq
    omega
  · intro hzero
    have hpos := h.pc_pos
    omega

section
variable {c : Code} {looks : Set Look} (hc : c.Framed looks) {place : Place} {pc : Nat} {s : Slots}
  {i : Inst}
include hc

theorem Code.Tracks.move (h : c.Tracks place pc s) (hi : c.program[pc]? = some i) {next : Nat}
    (hnext : next ∈ i.moves place.holds) : c.Tracks place next (i.note place.offset s) := by
  have htwo := h.two_le
  have hpath {a : Nat} (hs : s[0]? = some (some a)) (ha : a = place.offset) :
      c.Reaches place.holds next := by
    subst ha
    exact (h.reaches hs).step hi hnext
  rcases hc.cases hi with ⟨-, rfl⟩ | ⟨rfl, next', hpos, rfl⟩ | ⟨hne, hsome⟩
  · cases hnext
  · -- a match begins here
    obtain rfl := List.mem_singleton.mp hnext
    refine ⟨?_, .inr ⟨place.offset, Nat.le_refl _, ?_, ?_⟩, ?_⟩
    · simpa using htwo
    · exact Array.getElem?_setIfInBounds_self_of_lt (by omega)
    · intro _
      exact Code.Reaches.entry.step hi hnext
    · intro hzero
      omega
  · obtain ⟨a, ha, hs, -⟩ := h.start.resolve_left hne
    rcases hsome with rfl | hinner
    · -- a match ends here
      obtain rfl := List.mem_singleton.mp hnext
      refine ⟨?_, .inr ⟨a, ha, ?_, hpath hs⟩, ?_⟩
      · simpa using htwo
      · rw [← hs]
        exact Array.getElem?_setIfInBounds_ne (by omega)
      · intro _
        exact Array.getElem?_setIfInBounds_self_of_lt htwo
    · refine ⟨?_, .inr ⟨a, ha, ?_, hpath hs⟩, ?_⟩
      · simpa using htwo
      · rw [hinner.note_ends place.offset s (by omega), hs]
      · intro hzero
        have hpos := hinner.moves_pos hnext
        omega

theorem Code.Tracks.eat (h : c.Tracks place pc s) (hi : c.program[pc]? = some i) {t : Thread}
    (ht : t ∈ i.eats place.after s) : t.Began (place.offset + 1) := by
  rcases hc.cases hi with ⟨-, rfl⟩ | ⟨-, next, -, rfl⟩ | ⟨hne, rfl | hinner⟩
  · cases ht
  · cases ht
  · cases ht
  · obtain ⟨a, ha, hs, -⟩ := h.start.resolve_left hne
    obtain ⟨hslots, -⟩ := Inst.of_mem_eats ht
    rw [← hslots] at hs
    exact ⟨hinner.eats_pos ht, hslots ▸ h.two_le, a, Nat.lt_succ_of_le ha, hs⟩

/-- All ways to match at a place have noted whether they began there. -/
theorem Code.Framed.invariant (place : Place) : Front.Invariant c.program place (c.Tracks place)
    (fun t => t.Began (place.offset + 1)) (c.Tracks place 0) where
  move h hi hnext := h.move hc hi hnext
  eat h hi ht := h.eat hc hi ht
  accept h hi := hc.eq_zero_of_accept hi ▸ h

end

/-! ## Searches -/

/-- The place at an offset of a line. -/
def Place.inLine (line : Bytes) (offset : Nat) : Place :=
  ⟨(line.take offset).reverse, line.drop offset, offset⟩

theorem Place.eq_inLine {line before after : Bytes} {offset : Nat}
    (hline : before.reverse ++ after = line) (hoffset : before.length = offset) :
    ⟨before, after, offset⟩ = inLine line offset := by
  have hlen : offset = before.reverse.length := by rw [List.length_reverse, hoffset]
  simp only [inLine, ← hline, hlen, List.take_left, List.drop_left, List.reverse_reverse]

section
variable {c : Code} {looks : Set Look} (hc : c.Framed looks)
include hc

theorem Code.visit_tracks (place : Place) {threads : List Thread} (best : Option Slots)
    (hthreads : ∀ t ∈ threads, t.Began place.offset) :
    (∀ t ∈ (c.visit place threads best).1, t.Began (place.offset + 1)) ∧
      ∀ s, (c.visit place threads best).2 = some s → c.Tracks place 0 s ∨ best = some s := by
  refine (hc.invariant place).visit best ?_ ?_ (hc.tracks_fresh place)
  · intro t ht _
    obtain ⟨hpos, htwo, hstart⟩ := (hthreads t ht).mono (Nat.le_succ place.offset)
    exact ⟨hpos, htwo, hstart⟩
  · intro t ht _
    exact (hthreads t ht).tracks c

/-- What a search ends with was accepted at some place of the line. -/
theorem Code.scan_tracks {line : Bytes} (after : Bytes) {before : Bytes} {offset : Nat}
    {threads : List Thread} {best : Option Slots} (hline : before.reverse ++ after = line)
    (hoffset : before.length = offset) (hthreads : ∀ t ∈ threads, t.Began offset)
    (hbest : ∀ s, best = some s → ∃ o, c.Tracks (.inLine line o) 0 s) {s : Slots}
    (hs : c.scan before offset threads best after = some s) :
    ∃ o, c.Tracks (.inLine line o) 0 s := by
  induction after generalizing before offset threads best with
  | nil =>
    obtain ⟨-, hfound⟩ := Code.visit_tracks hc ⟨before, [], offset⟩ best hthreads
    rcases hfound s hs with htracks | hs
    · rw [Place.eq_inLine hline hoffset] at htracks
      exact ⟨offset, htracks⟩
    · exact hbest s hs
  | cons b rest ih =>
    obtain ⟨hnext, hfound⟩ :=
      Code.visit_tracks hc ⟨before, b :: rest, offset⟩ best hthreads
    rw [Place.eq_inLine hline hoffset] at hnext hfound
    have hbest' : ∀ s, (c.visit (.inLine line offset) threads best).2 = some s →
        ∃ o, c.Tracks (.inLine line o) 0 s := by
      intro s hs
      rcases hfound s hs with htracks | hs
      · exact ⟨offset, htracks⟩
      · exact hbest s hs
    unfold Code.scan at hs
    rw [Place.eq_inLine hline hoffset] at hs
    dsimp only at hs
    split at hs
    · exact hbest' s hs
    · refine ih ?_ ?_ hnext hbest' hs
      · simpa using hline
      · exact congrArg Nat.succ hoffset

end

theorem Match.ends_of_ofSlots? {s : Slots} {m : Match} (h : Match.ofSlots? s = some m) :
    s[0]? = some (some m.start) ∧ s[1]? = some (some m.stop) := by
  unfold ofSlots? at h
  split at h
  · rename_i start stop groups hpairs
    cases h
    have hends := pairs_getElem? s.toList 0 start stop (by rw [hpairs]; rfl)
    simpa using hends
  · cases h

theorem Match.isSome_ofSlots? {s : Slots} {a b : Nat} (ha : s[0]? = some (some a))
    (hb : s[1]? = some (some b)) : (Match.ofSlots? s).isSome = true := by
  have hpairs : ∃ rest, pairs s.toList = some (a, b) :: rest := by
    rw [← Array.getElem?_toList] at ha hb
    match s.toList, ha, hb with
    | x :: y :: rest, ha, hb =>
      cases ha
      cases hb
      exact ⟨pairs rest, rfl⟩
  obtain ⟨rest, hrest⟩ := hpairs
  simp [ofSlots?, hrest]

/-- An empty match is a path that takes no byte. -/
theorem Code.search_reaches {c : Code} {looks : Set Look} (hc : c.Framed looks) {line : Bytes}
    {start : Nat} {m : Match} (hm : c.search line start = some m) (hempty : m.start = m.stop) :
    c.Reaches (Place.inLine line m.start).holds 0 := by
  unfold Code.search at hm
  split at hm
  · cases hm
  · rename_i hstart
    obtain ⟨s, hs, hmatch⟩ := Option.bind_eq_some_iff.mp hm
    have hline : (line.take start).reverse.reverse ++ line.drop start = line := by simp
    have hoffset : (line.take start).reverse.length = start := by
      rw [List.length_reverse, List.length_take]
      omega
    obtain ⟨o, htracks⟩ :=
      Code.scan_tracks hc (line.drop start) hline hoffset (by simp) (by simp) hs
    obtain ⟨hfirst, hlast⟩ := Match.ends_of_ofSlots? hmatch
    have ho : m.start = o := by
      have hstop := htracks.stop rfl
      rw [hlast] at hstop
      cases hstop
      exact hempty
    rw [ho] at hfirst ⊢
    exact htracks.reaches hfirst

/-! ## At the end of a line -/

theorem testBit_mark (seen pc k : Nat) :
    (seen ||| 1 <<< pc).testBit k = (seen.testBit k || decide (pc = k)) := by
  rw [Nat.testBit_or, Nat.one_shiftLeft, Nat.testBit_two_pow]

/-- The instructions that have not been visited. -/
def unvisited (p : Program) (seen : Nat) : Finset Nat :=
  (Finset.range p.size).filter fun pc => seen.testBit pc = false

theorem card_unvisited_le (p : Program) (seen : Nat) : (unvisited p seen).card ≤ p.size := by
  have hle := Finset.card_filter_le (Finset.range p.size) fun pc => seen.testBit pc = false
  rwa [Finset.card_range] at hle

theorem unvisited_mark_subset (p : Program) (seen pc : Nat) :
    unvisited p (seen ||| 1 <<< pc) ⊆ unvisited p seen := by
  intro k hk
  rw [unvisited, Finset.mem_filter, testBit_mark, Bool.or_eq_false_iff] at hk
  exact Finset.mem_filter.mpr ⟨hk.1, hk.2.1⟩

theorem unvisited_mark_ssubset {p : Program} {seen pc : Nat} (hpc : pc < p.size)
    (hseen : seen.testBit pc = false) : unvisited p (seen ||| 1 <<< pc) ⊂ unvisited p seen := by
  rw [Finset.ssubset_iff_of_subset (unvisited_mark_subset p seen pc)]
  refine ⟨pc, ?_, ?_⟩
  · exact Finset.mem_filter.mpr ⟨Finset.mem_range.mpr hpc, hseen⟩
  · simp [unvisited]

/-- Between two fronts all of the stack was visited, and all that is next to what was visited. -/
structure Front.Closes (f : Front) (p : Program) (place : Place) (stack : List (Nat × Slots))
    (g : Front) : Prop where
  kept : ∀ pc, f.seen.testBit pc = true → g.seen.testBit pc = true
  stack : ∀ x ∈ stack, g.seen.testBit x.1 = true
  visited : ∀ pc i, g.seen.testBit pc = true → f.seen.testBit pc = false → p[pc]? = some i →
    i ≠ .accept ∧ ∀ next ∈ i.moves place.holds, g.seen.testBit next = true

theorem Front.closes_self (f : Front) (p : Program) (place : Place) : f.Closes p place [] f := by
  refine ⟨fun pc h => h, by simp, ?_⟩
  intro pc i hg hf
  exact absurd (hf.symm.trans hg) Bool.false_ne_true

theorem Front.Closes.visit {f f' g : Front} {p : Program} {place : Place} {pc : Nat} {slots : Slots}
    {stack more : List (Nat × Slots)} (h : f'.Closes p place (more ++ stack) g)
    (hmark : ∀ k, f'.seen.testBit k = (f.seen.testBit k || decide (pc = k)))
    (hpc : ∀ i, p[pc]? = some i →
      i ≠ .accept ∧ ∀ next ∈ i.moves place.holds, ∃ x ∈ more, x.1 = next) :
    f.Closes p place ((pc, slots) :: stack) g := by
  have hself : g.seen.testBit pc = true := h.kept pc (by simp [hmark])
  refine ⟨?_, ?_, ?_⟩
  · intro k hk
    exact h.kept k (by simp [hmark, hk])
  · refine List.forall_mem_cons.mpr ⟨hself, ?_⟩
    intro x hx
    exact h.stack x (List.mem_append_right _ hx)
  · intro k i hg hf hi
    by_cases hk : pc = k
    · subst hk
      obtain ⟨hacc, hmoves⟩ := hpc i hi
      refine ⟨hacc, ?_⟩
      intro next hnext
      obtain ⟨x, hx, rfl⟩ := hmoves next hnext
      exact h.stack x (List.mem_append_left _ hx)
    · exact h.visited k i hg (by simp [hmark, hf, hk]) hi

/-- By induction on the fuel. A visit marks one instruction and leaves two more to be visited at
most, so there is enough fuel for all of them. -/
theorem Front.explore_closes {p : Program} {place : Place} (fuel : Nat)
    (stack : List (Nat × Slots)) (f : Front)
    (hfuel : 2 * (unvisited p f.seen).card + stack.length ≤ fuel)
    (hnone : (f.explore p place fuel stack).found = none) :
    f.Closes p place stack (f.explore p place fuel stack) := by
  induction fuel generalizing stack f with
  | zero =>
    have hnil : stack = [] := List.eq_nil_of_length_eq_zero (by omega)
    subst hnil
    exact f.closes_self p place
  | succ fuel ih =>
    cases stack with
    | nil => exact f.closes_self p place
    | cons x stack =>
      obtain ⟨pc, slots⟩ := x
      rw [List.length_cons] at hfuel
      cases hseen : f.seen.testBit pc with
      | true =>
        rw [explore_seen hseen] at hnone ⊢
        obtain ⟨hkept, hstack, hvisited⟩ := ih stack f (by omega) hnone
        exact ⟨hkept, List.forall_mem_cons.mpr ⟨hkept pc hseen, hstack⟩, hvisited⟩
      | false =>
        cases hi : p[pc]? with
        | none =>
          rw [explore_none hseen hi] at hnone ⊢
          have hcard := Finset.card_le_card (unvisited_mark_subset p f.seen pc)
          have hclosed : Front.Closes { f with seen := f.seen ||| 1 <<< pc } p place ([] ++ stack)
              _ := ih stack _ (by dsimp only; omega) hnone
          refine hclosed.visit (testBit_mark _ _) ?_
          intro i hi'
          rw [hi] at hi'
          cases hi'
        | some i =>
          by_cases hacc : i = .accept
          · rw [hacc] at hi
            rw [explore_accept hseen hi] at hnone
            cases hnone
          · rw [explore_inst hseen hi hacc] at hnone ⊢
            have hcard := Finset.card_lt_card
              (unvisited_mark_ssubset (Array.getElem?_eq_some_iff.mp hi).1 hseen)
            have htwo := i.length_moves_le place.holds
            refine (ih _ _ ?_ hnone).visit (testBit_mark _ _) ?_
            · rw [List.length_append, List.length_map]
              dsimp only
              omega
            · intro i' hi'
              rw [hi] at hi'
              cases hi'
              refine ⟨hacc, ?_⟩
              intro next hnext
              exact ⟨_, List.mem_map.mpr ⟨next, hnext, rfl⟩, rfl⟩

/-- What can be reached has been visited once nothing was accepted. -/
theorem Code.Reaches.visited {c : Code} {place : Place} {pc : Nat} {slots : Slots} {g : Front}
    (h : c.Reaches place.holds pc)
    (hg : Front.Closes ⟨0, [], none⟩ c.program place [(c.entry, slots)] g) :
    g.seen.testBit pc = true := by
  induction h with
  | entry => exact hg.stack _ (List.mem_singleton_self _)
  | step _ hi hnext ih => exact (hg.visited _ _ ih (Nat.zero_testBit _) hi).2 _ hnext

/-- At the end of a line a search has nothing to follow but what it begins there. -/
theorem Code.search_length (c : Code) (line : Bytes) : c.search line line.length =
    (Front.explore c.program (Place.inLine line line.length) (2 * c.program.size + 2)
      [(c.entry, Array.replicate (2 * c.groups) none)] ⟨0, [], none⟩).found.bind Match.ofSlots? := by
  simp only [search, Nat.lt_irrefl, if_false, List.drop_length, scan, visit, Front.run,
    Option.isSome_none, Bool.false_eq_true, List.nil_append, Place.inLine]
  split
  · rename_i s hs
    rw [hs]
    rfl
  · rename_i hnone
    rw [hnone]
    rfl

/-- Where no byte is left, a path that takes none is a match. -/
theorem Code.isSome_search_of_reaches {c : Code} {looks : Set Look} (hc : c.Framed looks)
    {line : Bytes} (h : c.Reaches (Place.inLine line line.length).holds 0) :
    (c.search line line.length).isSome = true := by
  rw [search_length]
  generalize Place.inLine line line.length = place at h ⊢
  have hhas := (hc.invariant place).explore (2 * c.program.size + 2)
    [(c.entry, Array.replicate (2 * c.groups) none)] ⟨0, [], none⟩
    (by simpa using hc.tracks_fresh place) (Front.has_nil _ _)
  cases hfound : (Front.explore c.program place (2 * c.program.size + 2)
      [(c.entry, Array.replicate (2 * c.groups) none)] ⟨0, [], none⟩).found with
  | none =>
    have hcard := card_unvisited_le c.program 0
    have hclosed := Front.explore_closes _ _ _ (by simp only [List.length_singleton]; omega) hfound
    have hself := hclosed.visited 0 .accept (h.visited hclosed) (Nat.zero_testBit _) hc.accept
    exact absurd rfl hself.1
  | some s =>
    obtain ⟨-, hstart, hstop⟩ := hhas.found s hfound
    rcases hstart with hzero | ⟨a, -, ha, -⟩
    · exact absurd hzero.symm hc.entry_ne_zero
    · exact Match.isSome_ofSlots? ha (hstop rfl)

end LineEditor.Regex
