import LineEditor.Proofs.Ends
import LineEditor.Proofs.Searches
import Mathlib.Data.Set.Insert

/-!
# Matches lie in the line

A thread notes places as it goes through the line, so all of them lie between the place where the
search began and its own. That the two places of a group are in order is less plain, for a group in
a repetition is entered again and again. Each instruction is therefore given the set of groups that
are open there: entered, and not yet left. A thread keeps the places of all other groups in order,
and a thread that accepts has no group open.
-/

namespace LineEditor.Regex

/-! ## Open groups -/

/-- At a successor at least the groups `u` are open. -/
def Opens (types : List (Set Nat)) (next : Nat) (u : Set Nat) : Prop :=
  ∃ v, types[next]? = some v ∧ u ⊆ v

/-- The stop of a group closes it, its start opens it. -/
def SaveOpens (types : List (Set Nat)) (slot next : Nat) (u : Set Nat) : Prop :=
  ∃ v, types[next]? = some v ∧
    if slot % 2 = 0 then insert (slot / 2) u ⊆ v else u ⊆ insert (slot / 2) v

/-- What an instruction at which the groups `u` are open asks of its successors. -/
def Inst.Agrees (types : List (Set Nat)) (u : Set Nat) : Inst → Prop
  | .byte _ next | .codePoint _ next | .byteIn _ next | .look _ next => Opens types next u
  | .save slot next => SaveOpens types slot next u
  | .split first second => Opens types first u ∧ Opens types second u
  | .accept => u = ∅

/-- Every instruction, but those still to be filled in, agrees with its successors. -/
structure Program.Typed (p : Program) (types : List (Set Nat)) (holes : Set Nat) : Prop where
  length_eq : types.length = p.size
  agrees : ∀ pc i u, p[pc]? = some i → types[pc]? = some u → pc ∉ holes → i.Agrees types u

theorem getElem?_kept {types types' : List α} (h : types <+: types') {pc : Nat} {u : α}
    (hu : types[pc]? = some u) : types'[pc]? = some u := by
  obtain ⟨more, rfl⟩ := h
  rw [List.getElem?_append_left (List.getElem?_eq_some_iff.mp hu).1]
  exact hu

theorem Opens.mono {types types' : List (Set Nat)} (h : types <+: types') {next : Nat} {u : Set Nat}
    (ho : Opens types next u) : Opens types' next u := by
  obtain ⟨v, hv, hsub⟩ := ho
  exact ⟨v, getElem?_kept h hv, hsub⟩

theorem Opens.refl {types : List (Set Nat)} {next : Nat} {u : Set Nat}
    (h : types[next]? = some u) : Opens types next u :=
  ⟨u, h, subset_rfl⟩

theorem SaveOpens.mono {types types' : List (Set Nat)} (h : types <+: types') {slot next : Nat}
    {u : Set Nat} (hs : SaveOpens types slot next u) : SaveOpens types' slot next u := by
  obtain ⟨v, hv, hsub⟩ := hs
  exact ⟨v, getElem?_kept h hv, hsub⟩

theorem Inst.Agrees.mono {types types' : List (Set Nat)} (h : types <+: types') {u : Set Nat}
    {i : Inst} (ha : i.Agrees types u) : i.Agrees types' u := by
  cases i with
  | byte b next => exact Opens.mono h ha
  | codePoint s next => exact Opens.mono h ha
  | byteIn s next => exact Opens.mono h ha
  | look l next => exact Opens.mono h ha
  | split first second => exact ⟨ha.1.mono h, ha.2.mono h⟩
  | save slot next => exact SaveOpens.mono h ha
  | accept => exact ha

namespace Program

section
variable {p : Program} {types : List (Set Nat)} {holes : Set Nat}

theorem Typed.getElem?_size (h : p.Typed types holes) (u : Set Nat) :
    (types ++ [u])[p.size]? = some u := by
  rw [← h.length_eq, List.getElem?_concat_length]

theorem Typed.push (h : p.Typed types holes) {i : Inst} {u : Set Nat}
    (hi : p.size ∉ holes → i.Agrees types u) : Typed (p.push i) (types ++ [u]) holes where
  length_eq := by simp [h.length_eq]
  agrees pc i' u' hp hu hpc := by
    by_cases hlast : pc = p.size
    · subst hlast
      rw [Array.getElem?_push_size] at hp
      rw [h.getElem?_size] at hu
      cases hp
      cases hu
      exact (hi hpc).mono (List.prefix_append _ _)
    · have hlt : pc < p.size := by
        have hbound := (Array.getElem?_eq_some_iff.mp hp).1
        rw [Array.size_push] at hbound
        omega
      rw [Array.getElem?_push, if_neg hlast] at hp
      rw [List.getElem?_append_left (h.length_eq ▸ hlt)] at hu
      exact (h.agrees pc i' u' hp hu hpc).mono (List.prefix_append _ _)

/-- The program `r.2` goes on where `p` ends, and is to be entered at `r.1` with the groups `u`
open. -/
def Extends (types : List (Set Nat)) (holes : Set Nat) (u : Set Nat) (r : Nat × Program) : Prop :=
  ∃ types', types <+: types' ∧ r.2.Typed types' holes ∧ types'[r.1]? = some u

/-- Code added in front of a place is entered with the groups open that are open at that place. -/
def Adds (build : Nat → Program → Nat × Program) : Prop :=
  ∀ {p : Program} {types : List (Set Nat)} {holes : Set Nat} {next : Nat} {u : Set Nat},
    p.Typed types holes → types[next]? = some u → Extends types holes u (build next p)

theorem Typed.extends_self (h : p.Typed types holes) {next : Nat} {u : Set Nat}
    (hu : types[next]? = some u) : Extends types holes u (next, p) :=
  ⟨types, List.prefix_rfl, h, hu⟩

theorem Typed.add (h : p.Typed types holes) {i : Inst} {u : Set Nat} (hi : i.Agrees types u) :
    Extends types holes u (p.add i) :=
  ⟨types ++ [u], List.prefix_append _ _, h.push fun _ => hi, h.getElem?_size u⟩

theorem Extends.trans {u v : Set Nat} {r : Nat × Program} {s : Nat × Program}
    (h : Extends types holes u r)
    (hs : ∀ types', types <+: types' → r.2.Typed types' holes → types'[r.1]? = some u →
      Extends types' holes v s) : Extends types holes v s := by
  obtain ⟨types', hpre, htyped, hu⟩ := h
  obtain ⟨types'', hpre', hrest⟩ := hs types' hpre htyped hu
  exact ⟨types'', hpre.trans hpre', hrest⟩

theorem choice_agrees {u : Set Nat} {on out : Nat} (hon : Opens types on u)
    (hout : Opens types out u) (greedy : Bool) : (choice greedy on out).Agrees types u := by
  cases greedy with
  | true => exact ⟨hon, hout⟩
  | false => exact ⟨hout, hon⟩

theorem addBytes_adds (bs : Bytes) : Adds fun next p => addBytes next p bs := by
  intro p types holes next u h hu
  induction bs with
  | nil => exact h.extends_self hu
  | cons b rest ih => exact ih.trans fun types' _ htyped hafter => htyped.add (.refl hafter)

section
variable {body : Nat → Program → Nat × Program}

theorem copies_adds (hbody : Adds body) (n : Nat) : Adds (copies body n) := by
  intro p types holes next u h hu
  induction n with
  | zero => exact h.extends_self hu
  | succ n ih => exact ih.trans fun types' _ htyped hafter => hbody htyped hafter

theorem optionals_adds (hbody : Adds body) (greedy : Bool) (n : Nat) :
    Adds fun next p => optionals body greedy next n p := by
  intro p types holes next u h hu
  induction n with
  | zero => exact h.extends_self hu
  | succ n ih =>
    refine ih.trans fun types₁ hpre htyped hafter => (hbody htyped hafter).trans ?_
    intro types₂ hpre' htyped' hentry
    refine htyped'.add (choice_agrees (.refl hentry) (.refl ?_) greedy)
    exact getElem?_kept hpre' (getElem?_kept hpre hu)

/-- The instruction of a loop stands empty while the body is added. -/
theorem loop_adds (hbody : Adds body) (greedy : Bool) : Adds (loop body greedy) := by
  intro p types holes next u h hu
  have hhole : Typed (p.push .accept) (types ++ [u]) (insert p.size holes) :=
    Typed.push ⟨h.length_eq, fun pc i u hp hu hpc => h.agrees pc i u hp hu fun hm => hpc (.inr hm)⟩
      fun hpc => absurd (Set.mem_insert _ _) hpc
  obtain ⟨types', hpre, htyped, hentry⟩ := hbody hhole (h.getElem?_size u)
  have hagain := getElem?_kept hpre (h.getElem?_size u)
  refine ⟨types', (List.prefix_append _ _).trans hpre, ⟨?_, ?_⟩, hentry⟩
  · simpa [loop, add] using htyped.length_eq
  · intro pc i v hp hv hpc
    simp only [loop, add, Array.getElem?_setIfInBounds] at hp
    split at hp
    · rename_i hpc
      subst hpc
      rw [hagain] at hv
      cases hv
      split at hp
      · cases hp
        refine choice_agrees (.refl hentry) (.refl ?_) greedy
        exact getElem?_kept ((List.prefix_append _ _).trans hpre) hu
      · cases hp
    · rename_i hne
      refine htyped.agrees pc i v hp hv fun hm => ?_
      exact hm.elim (fun he => hne he.symm) hpc

end

theorem addNode_adds (n : Node) : Adds (addNode n) := by
  induction n with
  | empty =>
    intro p types holes next u h hu
    exact h.extends_self hu
  | bytes bs => exact addBytes_adds bs
  | codePoint s =>
    intro p types holes next u h hu
    exact h.add (i := .codePoint s next) (.refl hu)
  | byteIn s =>
    intro p types holes next u h hu
    exact h.add (i := .byteIn s next) (.refl hu)
  | look l =>
    intro p types holes next u h hu
    exact h.add (i := .look l next) (.refl hu)
  | capture index body ih =>
    intro p types holes next u h hu
    have hclose : SaveOpens types (2 * index + 1) next (insert index u) := by
      have hodd : ¬(2 * index + 1) % 2 = 0 := by omega
      have hhalf : (2 * index + 1) / 2 = index := by omega
      exact ⟨u, hu, by rw [if_neg hodd, hhalf]⟩
    have hopen {types' : List (Set Nat)} {entry : Nat}
        (hentry : types'[entry]? = some (insert index u)) : SaveOpens types' (2 * index) entry u := by
      have heven : 2 * index % 2 = 0 := by omega
      have hhalf : 2 * index / 2 = index := by omega
      exact ⟨_, hentry, by rw [if_pos heven, hhalf]⟩
    refine (h.add (i := .save (2 * index + 1) next) hclose).trans fun types₁ _ htyped₁ hstop => ?_
    refine (ih htyped₁ hstop).trans fun types₂ _ htyped₂ hentry => ?_
    exact htyped₂.add (hopen hentry)
  | repeated body least most greedy ih =>
    cases most with
    | some most =>
      intro p types holes next u h hu
      refine (optionals_adds ih greedy (most - least) h hu).trans fun types' _ htyped hrest => ?_
      exact copies_adds ih least htyped hrest
    | none =>
      cases least with
      | zero =>
        intro p types holes next u h hu
        refine (loop_adds ih greedy h hu).trans fun types' hpre htyped hentry => htyped.add ?_
        exact choice_agrees (.refl hentry) (.refl (getElem?_kept hpre hu)) greedy
      | succ least =>
        intro p types holes next u h hu
        refine (loop_adds ih greedy h hu).trans fun types' _ htyped hentry => ?_
        exact copies_adds ih least htyped hentry
  | seq a b iha ihb =>
    intro p types holes next u h hu
    exact (ihb h hu).trans fun types' _ htyped hentry => iha htyped hentry
  | alt a b iha ihb =>
    intro p types holes next u h hu
    refine (ihb h hu).trans fun types₁ hpre htyped₁ hsecond => ?_
    refine (iha htyped₁ (getElem?_kept hpre hu)).trans fun types₂ hpre' htyped₂ hfirst => ?_
    exact htyped₂.add ⟨.refl hfirst, .refl (getElem?_kept hpre' hsecond)⟩

end

end Program

/-- A program that is complete, and entered and left with no group open. -/
def Code.Typed (c : Code) (types : List (Set Nat)) : Prop :=
  c.program.Typed types ∅ ∧ types[c.entry]? = some ∅

theorem Code.ofNode_typed (n : Node) : ∃ types, (Code.ofNode n).Typed types := by
  have hstart : Program.Typed #[.accept] [∅] ∅ := by
    refine ⟨rfl, fun pc i u hp hu _ => ?_⟩
    cases pc with
    | zero =>
      cases hp
      cases hu
      rfl
    | succ pc => simp at hu
  have hzero : [(∅ : Set Nat)][0]? = some ∅ := rfl
  obtain ⟨types, -, htyped, hentry⟩ := Program.addNode_adds (.capture 0 n) hstart hzero
  exact ⟨types, htyped, hentry⟩

/-! ## Places noted -/

/-- The places noted lie between `first` and `offset`, and those of the groups that are not open are
in order. -/
structure Slots.Noted (s : Slots) (first offset : Nat) (u : Set Nat) : Prop where
  first_le : ∀ k a : Nat, s[k]? = some (some a) → first ≤ a
  le_offset : ∀ k a : Nat, s[k]? = some (some a) → a ≤ offset
  ordered : ∀ i ∉ u, ∀ a b : Nat, s[2 * i]? = some (some a) → s[2 * i + 1]? = some (some b) → a ≤ b

theorem Slots.Noted.mono {s : Slots} {first offset offset' : Nat} {u v : Set Nat}
    (h : s.Noted first offset u) (ho : offset ≤ offset') (hv : u ⊆ v) : s.Noted first offset' v :=
  ⟨h.first_le, fun k a hk => Nat.le_trans (h.le_offset k a hk) ho,
    fun i hi => h.ordered i fun hu => hi (hv hu)⟩

theorem Slots.noted_none (size first offset : Nat) :
    Slots.Noted (Array.replicate size none) first offset ∅ := by
  have hnone (k a : Nat) : (Array.replicate size (none : Option Nat))[k]? ≠ some (some a) := by
    rw [Array.getElem?_replicate]
    split <;> simp
  exact ⟨fun k a hk => absurd hk (hnone k a), fun k a hk => absurd hk (hnone k a),
    fun i _ a b ha => absurd ha (hnone _ a)⟩

theorem Slots.getElem?_note {s : Slots} {slot k offset a : Nat}
    (h : (s.setIfInBounds slot (some offset))[k]? = some (some a)) :
    k = slot ∧ a = offset ∨ k ≠ slot ∧ s[k]? = some (some a) := by
  rw [Array.getElem?_setIfInBounds] at h
  split at h
  · rename_i hk
    split at h
    · cases h
      exact .inl ⟨hk.symm, rfl⟩
    · cases h
  · rename_i hk
    exact .inr ⟨Ne.symm hk, h⟩

/-- Noting the present place keeps the order of all groups but the one that it opens. -/
theorem Slots.Noted.note {s : Slots} {first offset : Nat} {u v : Set Nat}
    (h : s.Noted first offset u) (ho : first ≤ offset) {slot : Nat}
    (hv : if slot % 2 = 0 then insert (slot / 2) u ⊆ v else u ⊆ insert (slot / 2) v) :
    Slots.Noted (s.setIfInBounds slot (some offset)) first offset v where
  first_le k a hk := by
    rcases getElem?_note hk with ⟨-, rfl⟩ | ⟨-, hk⟩
    · exact ho
    · exact h.first_le k a hk
  le_offset k a hk := by
    rcases getElem?_note hk with ⟨-, rfl⟩ | ⟨-, hk⟩
    · exact Nat.le_refl _
    · exact h.le_offset k a hk
  ordered i hi a b ha hb := by
    rcases getElem?_note hb with ⟨-, rfl⟩ | ⟨hne, hb⟩
    · -- the stop of the group is the present place
      rcases getElem?_note ha with ⟨-, rfl⟩ | ⟨-, ha⟩
      · exact Nat.le_refl _
      · exact h.le_offset _ a ha
    · split at hv
      · rename_i heven
        have hout : i ∉ insert (slot / 2) u := fun hm => hi (hv hm)
        rcases getElem?_note ha with ⟨he, -⟩ | ⟨-, ha⟩
        · exact absurd (.inl (by omega)) hout
        · exact h.ordered i (fun hu => hout (.inr hu)) a b ha hb
      · rename_i hodd
        have hout : i ∉ u := fun hu => (hv hu).elim (fun he => hne (by omega)) hi
        rcases getElem?_note ha with ⟨he, -⟩ | ⟨-, ha⟩
        · exact absurd he (by omega)
        · exact h.ordered i hout a b ha hb

/-- What a thread has noted fits the instruction at which it stands. -/
def Runs (types : List (Set Nat)) (first offset pc : Nat) (s : Slots) : Prop :=
  ∃ u, types[pc]? = some u ∧ s.Noted first offset u

theorem Runs.mono {types : List (Set Nat)} {first offset offset' pc : Nat} {s : Slots}
    (h : Runs types first offset pc s) (ho : offset ≤ offset') : Runs types first offset' pc s := by
  obtain ⟨u, hu, hs⟩ := h
  exact ⟨u, hu, hs.mono ho subset_rfl⟩

section
variable {types : List (Set Nat)} {first offset : Nat} {u : Set Nat} {s : Slots}

theorem Opens.runs {next : Nat} (h : Opens types next u) (hs : s.Noted first offset u) :
    Runs types first offset next s := by
  obtain ⟨v, hv, hsub⟩ := h
  exact ⟨v, hv, hs.mono (Nat.le_refl _) hsub⟩

theorem Inst.Agrees.move {i : Inst} (h : i.Agrees types u) (hs : s.Noted first offset u)
    (hoffset : first ≤ offset) {holds : Look → Bool} {next : Nat} (hnext : next ∈ i.moves holds) :
    Runs types first offset next (i.note offset s) := by
  rcases Inst.of_mem_moves hnext with ⟨a, b, rfl, rfl | rfl⟩ | ⟨slot, rfl⟩ | ⟨l, rfl, -⟩
  · exact h.1.runs hs
  · exact h.2.runs hs
  · obtain ⟨v, hv, hsub⟩ : SaveOpens types slot next u := h
    exact ⟨v, hv, hs.note hoffset hsub⟩
  · exact Opens.runs h hs

theorem Inst.Agrees.eat {i : Inst} (h : i.Agrees types u) (hs : s.Noted first offset u)
    {after : Bytes} {t : Thread} (ht : t ∈ i.eats after s) :
    Runs types first offset t.pc t.slots := by
  obtain ⟨hslots, hi⟩ := Inst.of_mem_eats ht
  rw [hslots]
  rcases hi with ⟨b, rfl⟩ | ⟨set, rfl⟩ | ⟨set, rfl⟩
  · exact Opens.runs h hs
  · exact Opens.runs h hs
  · exact Opens.runs h hs

/-- All threads fit the instructions at which they stand. -/
theorem Program.Typed.invariant {p : Program} (hp : p.Typed types ∅) {place : Place}
    (hplace : first ≤ place.offset) : Front.Invariant p place (Runs types first place.offset)
      (fun t => Runs types first place.offset t.pc t.slots)
      (fun s => s.Noted first place.offset ∅) where
  move := by
    intro pc s i next hrun hi hnext
    obtain ⟨u, hu, hs⟩ := hrun
    exact (hp.agrees pc i u hi hu (Set.notMem_empty pc)).move hs hplace hnext
  eat := by
    intro pc s i t hrun hi ht
    obtain ⟨u, hu, hs⟩ := hrun
    exact (hp.agrees pc i u hi hu (Set.notMem_empty pc)).eat hs ht
  accept := by
    intro pc s hrun hi
    obtain ⟨u, hu, hs⟩ := hrun
    have hempty : u = ∅ := hp.agrees pc .accept u hi hu (Set.notMem_empty pc)
    exact hempty ▸ hs

end

section
variable {c : Code} {types : List (Set Nat)} {first : Nat}

theorem Code.visit_fits (hc : c.Typed types) {place : Place} (hplace : first ≤ place.offset)
    {threads : List Thread} {best : Option Slots}
    (hthreads : ∀ t ∈ threads, Runs types first place.offset t.pc t.slots)
    (hbest : ∀ s, best = some s → s.Noted first place.offset ∅) :
    (∀ t ∈ (c.visit place threads best).1, Runs types first place.offset t.pc t.slots) ∧
      ∀ s, (c.visit place threads best).2 = some s → s.Noted first place.offset ∅ := by
  obtain ⟨haway, hfound⟩ := (hc.1.invariant hplace).visit best (fun t ht _ => hthreads t ht)
    (fun t ht _ => hthreads t ht) ⟨∅, hc.2, Slots.noted_none _ _ _⟩
  refine ⟨haway, ?_⟩
  intro s hs
  rcases hfound s hs with hnoted | hs
  · exact hnoted
  · exact hbest s hs

theorem Code.scan_noted (hc : c.Typed types) (after : Bytes) {before : Bytes} {offset : Nat}
    {threads : List Thread} {best : Option Slots} (hoffset : first ≤ offset)
    (hthreads : ∀ t ∈ threads, Runs types first offset t.pc t.slots)
    (hbest : ∀ s, best = some s → s.Noted first offset ∅) {s : Slots}
    (hs : c.scan before offset threads best after = some s) :
    s.Noted first (offset + after.length) ∅ := by
  induction after generalizing before offset threads best with
  | nil =>
    have hplace : first ≤ (⟨before, [], offset⟩ : Place).offset := hoffset
    exact (visit_fits hc hplace hthreads hbest).2 s hs
  | cons b rest ih =>
    obtain ⟨hnext, hfound⟩ :=
      visit_fits hc (show first ≤ (⟨before, b :: rest, offset⟩ : Place).offset from hoffset)
        hthreads hbest
    have hlater : offset ≤ offset + 1 := Nat.le_succ _
    have hlen : offset + (b :: rest).length = offset + 1 + rest.length := by
      simp only [List.length_cons]
      omega
    unfold Code.scan at hs
    dsimp only at hs
    split at hs
    · exact (hfound s hs).mono (Nat.le_add_right _ _) subset_rfl
    · rw [hlen]
      exact ih (Nat.le_trans hoffset hlater) (fun t ht => (hnext t ht).mono hlater)
        (fun s hs => (hfound s hs).mono hlater subset_rfl) hs

end

/-! ## Matches -/

/-- Match and groups lie between `start` and `stop`, each with its two ends in order. -/
def Match.Within (m : Match) (start stop : Nat) : Prop :=
  ∀ i a b, m.group? i = some (a, b) → start ≤ a ∧ a ≤ b ∧ b ≤ stop

theorem pairs_getElem? (s : List (Option Nat)) (i a b : Nat)
    (h : (pairs s)[i]? = some (some (a, b))) :
    s[2 * i]? = some (some a) ∧ s[2 * i + 1]? = some (some b) := by
  fun_induction pairs s generalizing i with
  | case1 a' b' rest ih =>
    cases i with
    | zero =>
      cases h
      exact ⟨rfl, rfl⟩
    | succ i => exact ih i h
  | case2 x y rest hxy ih =>
    cases i with
    | zero => cases h
    | succ i => exact ih i h
  | case3 => simp at h

theorem Slots.Noted.within {s : Slots} {first offset : Nat} (h : s.Noted first offset ∅) {m : Match}
    (hm : Match.ofSlots? s = some m) : m.Within first offset := by
  have hgroups (i a b : Nat) (hi : (pairs s.toList)[i]? = some (some (a, b))) :
      first ≤ a ∧ a ≤ b ∧ b ≤ offset := by
    obtain ⟨ha, hb⟩ := pairs_getElem? s.toList i a b hi
    rw [Array.getElem?_toList] at ha hb
    exact ⟨h.first_le _ a ha, h.ordered i (Set.notMem_empty i) a b ha hb, h.le_offset _ b hb⟩
  intro i a b hab
  unfold Match.ofSlots? at hm
  split at hm
  · rename_i start stop groups hpairs
    cases hm
    refine hgroups i a b ?_
    rw [hpairs]
    cases i with
    | zero =>
      cases hab
      rfl
    | succ i => exact Option.join_eq_some_iff.mp hab
  · cases hm

theorem Code.search_within {c : Code} {types : List (Set Nat)} (hc : c.Typed types) {line : Bytes}
    {start : Nat} {m : Match} (hm : c.search line start = some m) : m.Within start line.length := by
  unfold Code.search at hm
  split at hm
  · cases hm
  · rename_i hstart
    obtain ⟨s, hs, hmatch⟩ := Option.bind_eq_some_iff.mp hm
    have hlen : start + (line.drop start).length = line.length := by
      rw [List.length_drop]
      omega
    have hnoted := scan_noted hc (line.drop start) (Nat.le_refl start) (by simp) (by simp) hs
    rw [hlen] at hnoted
    exact hnoted.within hmatch

end LineEditor.Regex

namespace LineEditor.Matcher

/-- Every match lies in the line, at or after the offset where the search began. -/
def Bounded (m : Matcher) : Prop :=
  ∀ line start r, m.search line start = some r → r.Within start line.length

theorem compileBy_eq (size : Regex.Node → Nat) (source : List Char) (ignoreCase binary : Bool) :
    compileBy size source ignoreCase binary = match node source ignoreCase binary with
      | .error fault => .error fault
      | .ok n => if Regex.sizeLimit < size n then .error .tooBig else .ok ⟨(Regex.Code.ofNode n).search⟩ := by
  unfold compileBy
  cases node source ignoreCase binary with
  | error fault => rfl
  | ok n =>
    simp only [bind, Except.bind]
    split <;> rfl

/-- By two measures of size, a pattern has the same matcher or the same fault, unless it is too big by
one of them. -/
theorem compileBy_alike (size size' : Regex.Node → Nat) (source : List Char) (ignoreCase binary : Bool) :
    compileBy size source ignoreCase binary = compileBy size' source ignoreCase binary ∨
      compileBy size source ignoreCase binary = .error .tooBig ∨
      compileBy size' source ignoreCase binary = .error .tooBig := by
  simp only [compileBy_eq]
  cases node source ignoreCase binary with
  | error fault => exact .inl rfl
  | ok n =>
    by_cases h : Regex.sizeLimit < size n
    · exact .inr (.inl (if_pos h))
    · by_cases h' : Regex.sizeLimit < size' n
      · exact .inr (.inr (if_pos h'))
      · exact .inl ((if_neg h).trans (if_neg h').symm)

/-- A pattern that says something has a tree, and the tree has the node. -/
theorem node_eq_ok {source : List Char} {ignoreCase binary : Bool} {n : Regex.Node} :
    node source ignoreCase binary = .ok n ↔ ∃ tree flags, Regex.parse source = .ok tree ∧
      (startFlags ignoreCase binary).resolve tree = .ok (n, flags) := by
  unfold node
  rw [bind_eq_ok]
  constructor
  · rintro ⟨tree, htree, h⟩
    obtain ⟨⟨n', flags⟩, hnode, heq⟩ := bind_eq_ok.mp h
    cases heq
    exact ⟨tree, flags, htree, hnode⟩
  · rintro ⟨tree, flags, htree, hnode⟩
    exact ⟨tree, htree, bind_eq_ok.mpr ⟨_, hnode, rfl⟩⟩

/-- A pattern that compiles by a measure of size has a node within the limit, and searches run the code
of it. -/
theorem compileBy_eq_ok {size : Regex.Node → Nat} {source : List Char} {ignoreCase binary : Bool}
    {m : Matcher} : compileBy size source ignoreCase binary = .ok m ↔
      ∃ n, node source ignoreCase binary = .ok n ∧ size n ≤ Regex.sizeLimit ∧
        m = ⟨(Regex.Code.ofNode n).search⟩ := by
  rw [compileBy_eq]
  cases node source ignoreCase binary with
  | error fault => simp
  | ok n =>
    by_cases h : Regex.sizeLimit < size n
    · simp [h, Nat.not_le.mpr h]
    · simp [h, Nat.not_lt.mp h, eq_comm]

/-- A pattern that compiles has a tree, the tree has a node, and searches run the code of it. -/
theorem compile_eq_ok {source : List Char} {ignoreCase binary : Bool} {m : Matcher}
    (h : compile source ignoreCase binary = .ok m) :
    ∃ tree node flags, Regex.parse source = .ok tree ∧
      (startFlags ignoreCase binary).resolve tree = .ok (node, flags) ∧
      m = ⟨(Regex.Code.ofNode node).search⟩ := by
  obtain ⟨n, hn, -, rfl⟩ := compileBy_eq_ok.mp h
  obtain ⟨tree, flags, htree, hnode⟩ := node_eq_ok.mp hn
  exact ⟨tree, n, flags, htree, hnode, rfl⟩

/-- The matches of a compiled pattern lie in the line. -/
theorem compile_bounded {source : List Char} {ignoreCase binary : Bool} {m : Matcher}
    (h : compile source ignoreCase binary = .ok m) : m.Bounded := by
  obtain ⟨tree, node, flags, -, -, rfl⟩ := compile_eq_ok h
  obtain ⟨types, htyped⟩ := Regex.Code.ofNode_typed node
  exact fun line start r hr => Regex.Code.search_within htyped hr

end LineEditor.Matcher
