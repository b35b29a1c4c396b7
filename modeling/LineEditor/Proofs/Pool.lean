import LineEditor.Buffer.Pool
import LineEditor.Proofs.Ends
import Mathlib.Data.Multiset.Count
import Mathlib.Data.Multiset.AddSub
import Mathlib.Data.Finset.Card

/-!
# Balance of the pool

The pool is balanced over a multiset of handles if it counts exactly these references: a line is
stored under each of them, and under no other. Storing adds a handle, retaining and releasing add
and take handles that are there; no operation touches the text behind a handle that stays.
-/

namespace LineEditor.Pool

/-- The free list names each free slot once, the other slots are as many as the lines stored, and a
stored line has a reference. -/
structure WellFormed (p : Pool) : Prop where
  free_nodup : p.free.Nodup
  mem_free_iff : ∀ h, h ∈ p.free ↔ h < p.slots.size ∧ p.stored? h = none
  live_add_free : p.live + p.free.length = p.slots.size
  refs_pos : ∀ h line, p.stored? h = some line → 0 < line.refs

/-- The references counted are those in `m`. -/
structure Balanced (p : Pool) (m : Multiset Handle) : Prop extends p.WellFormed where
  refs_eq : ∀ h, p.refs h = m.count h

/-- The handles in `m` have the same texts in both pools. -/
def Keeps (p q : Pool) (m : Multiset Handle) : Prop := ∀ h ∈ m, q.text? h = p.text? h

/-! ## Slots -/

theorem stored?_set {p q : Pool} {h : Handle} {v : Option StoredLine} (hlt : h < p.slots.size)
    (hq : q.slots = p.slots.set h v hlt) (k : Handle) :
    q.stored? k = if k = h then v else p.stored? k := by
  unfold stored?
  rw [hq, Array.getElem?_set]
  by_cases hk : h = k
  · simp [hk]
  · simp [hk, Ne.symm hk]

theorem stored?_push {p q : Pool} {v : Option StoredLine} (hq : q.slots = p.slots.push v)
    (k : Handle) : q.stored? k = if k = p.slots.size then v else p.stored? k := by
  unfold stored?
  rw [hq, Array.getElem?_push]
  split <;> rfl

theorem refs_of_stored {p : Pool} {h : Handle} {line : StoredLine} (hs : p.stored? h = some line) :
    p.refs h = line.refs := by
  simp [refs, hs]

theorem refs_of_not_stored {p : Pool} {h : Handle} (hs : p.stored? h = none) : p.refs h = 0 := by
  simp [refs, hs]

theorem text?_congr {p q : Pool} {h : Handle} (hs : q.stored? h = p.stored? h) :
    q.text? h = p.text? h := by
  simp [text?, hs]

theorem get_congr {p q : Pool} {h : Handle} (ht : q.text? h = p.text? h) : q.get h = p.get h := by
  unfold text? at ht
  unfold get
  cases hq : q.stored? h <;> cases hp : p.stored? h <;> simp_all

theorem text?_of_get {p : Pool} {h : Handle} {text : Bytes} (hg : p.get h = .ok text) :
    p.text? h = some text := by
  unfold get at hg
  unfold text?
  split at hg
  · rename_i line hs
    cases hg
    rw [hs]
    rfl
  · cases hg

/-- Where a line is stored, the counter of lines is not at zero. -/
theorem WellFormed.live_pos {p : Pool} (hw : p.WellFormed) {h : Handle} {line : StoredLine}
    (hs : p.stored? h = some line) : 0 < p.live := by
  have hnot : h ∉ p.free := fun hmem => by
    rw [((hw.mem_free_iff h).mp hmem).2] at hs
    cases hs
  have hsub : h :: p.free ⊆ List.range p.slots.size :=
    List.cons_subset.mpr ⟨List.mem_range.mpr (stored?_lt hs), fun k hk => List.mem_range.mpr (p.free_lt k hk)⟩
  have hcard := ((List.nodup_cons.mpr ⟨hnot, hw.free_nodup⟩).subperm hsub).length_le
  rw [List.length_cons, List.length_range] at hcard
  have hsum := hw.live_add_free
  omega

/-! ## What is held is stored -/

section
variable {p : Pool} {m : Multiset Handle}

theorem Balanced.mem_iff (hb : p.Balanced m) (h : Handle) :
    h ∈ m ↔ ∃ line, p.stored? h = some line := by
  rw [← Multiset.count_pos, ← hb.refs_eq]
  cases hs : p.stored? h with
  | none => simp [refs_of_not_stored hs]
  | some line => simpa [refs_of_stored hs] using hb.refs_pos h line hs

theorem Balanced.stored (hb : p.Balanced m) {h : Handle} (hm : h ∈ m) :
    ∃ line, p.stored? h = some line ∧ line.refs = m.count h := by
  obtain ⟨line, hs⟩ := (hb.mem_iff h).mp hm
  exact ⟨line, hs, by rw [← hb.refs_eq, refs_of_stored hs]⟩

theorem Balanced.mem_free (hb : p.Balanced m) (h : Handle) :
    h ∈ p.free ↔ h < p.slots.size ∧ h ∉ m := by
  rw [hb.mem_free_iff, hb.mem_iff]
  cases p.stored? h <;> simp

theorem Balanced.lt_size (hb : p.Balanced m) {h : Handle} (hm : h ∈ m) : h < p.slots.size :=
  have ⟨_, hs, _⟩ := hb.stored hm
  stored?_lt hs

/-- There are as many lines stored as there are handles held. -/
theorem Balanced.live_eq (hb : p.Balanced m) : p.live = m.toFinset.card := by
  have hslots : Finset.range p.slots.size = m.toFinset ∪ p.free.toFinset := by
    ext h
    rw [Finset.mem_range, Finset.mem_union, Multiset.mem_toFinset, List.mem_toFinset, hb.mem_free]
    constructor
    · intro hlt
      by_cases hm : h ∈ m
      · exact .inl hm
      · exact .inr ⟨hlt, hm⟩
    · rintro (hm | hf)
      · exact hb.lt_size hm
      · exact hf.1
  have hdisjoint : Disjoint m.toFinset p.free.toFinset := by
    rw [Finset.disjoint_left]
    intro h hm hf
    rw [Multiset.mem_toFinset] at hm
    rw [List.mem_toFinset, hb.mem_free] at hf
    exact hf.2 hm
  have hcard := congrArg Finset.card hslots
  rw [Finset.card_range, Finset.card_union_of_disjoint hdisjoint,
    List.toFinset_card_of_nodup hb.free_nodup] at hcard
  exact Nat.add_right_cancel (hb.live_add_free.trans hcard)

theorem Balanced.get (hb : p.Balanced m) {h : Handle} (hm : h ∈ m) :
    ∃ text, p.get h = .ok text ∧ p.text? h = some text := by
  obtain ⟨line, hs, -⟩ := hb.stored hm
  exact ⟨line.text, by simp [Pool.get, hs], by simp [text?, hs]⟩

theorem Balanced.empty : Pool.empty.Balanced 0 where
  free_nodup := .nil
  mem_free_iff h := by simp [Pool.empty]
  live_add_free := rfl
  refs_pos h line hs := by simp [Pool.empty, stored?] at hs
  refs_eq h := by simp [Pool.empty, refs, stored?]

theorem Keeps.refl (p : Pool) (m : Multiset Handle) : p.Keeps p m := fun _ _ => rfl

theorem Keeps.trans {q r : Pool} (h₁ : p.Keeps q m) (h₂ : q.Keeps r m) : p.Keeps r m :=
  fun h hm => (h₂ h hm).trans (h₁ h hm)

theorem Keeps.mono {q : Pool} {n : Multiset Handle} (hk : p.Keeps q m) (hn : n ⊆ m) : p.Keeps q n :=
  fun h hm => hk h (hn hm)

/-! ## Storing -/

theorem WellFormed.stored?_insert_self (hw : p.WellFormed) (text : Bytes) :
    p.stored? (p.insert text).1 = none := by
  unfold Pool.insert
  split
  · rename_i h free hf
    exact ((hw.mem_free_iff h).mp (by simp [hf])).2
  · simp [stored?]

theorem stored?_insert (p : Pool) (text : Bytes) (k : Handle) :
    (p.insert text).2.stored? k =
      if k = (p.insert text).1 then some ⟨text, 1⟩ else p.stored? k := by
  unfold Pool.insert
  split
  · rename_i h free hf
    exact stored?_set (p.free_lt h (by simp [hf])) rfl k
  · exact stored?_push rfl k

theorem WellFormed.insert (hw : p.WellFormed) (text : Bytes) : (p.insert text).2.WellFormed where
  free_nodup := by
    unfold Pool.insert
    split
    · rename_i h free hf
      exact (List.nodup_cons.mp (hf ▸ hw.free_nodup)).2
    · exact .nil
  mem_free_iff k := by
    rw [stored?_insert]
    unfold Pool.insert
    split
    · rename_i h free hf
      have hmem := hw.mem_free_iff k
      have hnot := (List.nodup_cons.mp (hf ▸ hw.free_nodup)).1
      rw [hf, List.mem_cons] at hmem
      by_cases hk : k = h
      · simp [hk, hnot]
      · simpa [hk] using hmem
    · rename_i hf
      have hmem := hw.mem_free_iff k
      by_cases hk : k = p.slots.size
      · simp [hk]
      · have hlt : k < p.slots.size + 1 ↔ k < p.slots.size :=
          ⟨fun h => Nat.lt_of_le_of_ne (Nat.le_of_lt_succ h) hk, Nat.lt_succ_of_lt⟩
        simpa [hk, hf, hlt] using hmem
  live_add_free := by
    have hsum := hw.live_add_free
    unfold Pool.insert
    split
    · rename_i h free hf
      rw [hf, List.length_cons] at hsum
      simp only [Array.size_set]
      omega
    · rename_i hf
      rw [hf] at hsum
      rw [Array.size_push]
      simpa using hsum
  refs_pos k line hs := by
    rw [stored?_insert] at hs
    split at hs
    · cases hs
      exact Nat.one_pos
    · exact hw.refs_pos k line hs

theorem Balanced.insert_fresh (hb : p.Balanced m) (text : Bytes) : (p.insert text).1 ∉ m := by
  rw [hb.mem_iff, hb.stored?_insert_self]
  simp

theorem Balanced.insert (hb : p.Balanced m) (text : Bytes) :
    (p.insert text).2.Balanced ((p.insert text).1 ::ₘ m) where
  toWellFormed := hb.toWellFormed.insert text
  refs_eq k := by
    rw [Multiset.count_cons, ← hb.refs_eq]
    by_cases hk : k = (p.insert text).1
    · have hnew : (p.insert text).2.stored? k = some ⟨text, 1⟩ := by
        rw [stored?_insert, if_pos hk]
      have hold : p.refs k = 0 := hk ▸ refs_of_not_stored (hb.stored?_insert_self text)
      rw [refs_of_stored hnew, if_pos hk, hold]
    · simp [refs, stored?_insert, hk]

theorem Balanced.keeps_insert (hb : p.Balanced m) (text : Bytes) :
    p.Keeps (p.insert text).2 m := by
  intro k hk
  have hne : k ≠ (p.insert text).1 := fun he => hb.insert_fresh text (he ▸ hk)
  exact text?_congr (by rw [stored?_insert, if_neg hne])

/-- Lines stored together get handles that differ from each other and from all that are held. -/
theorem Balanced.append (texts : List Bytes) : ∀ {p : Pool} {m : Multiset Handle}, p.Balanced m →
    (p.append texts).2.Balanced ((p.append texts).1 + m) ∧
      (p.append texts).1.Nodup ∧
      (∀ h ∈ (p.append texts).1, h ∉ m) ∧ p.Keeps (p.append texts).2 m := by
  induction texts with
  | nil =>
    exact fun {p m} hb => ⟨by simpa [Pool.append] using hb, .nil, by simp [Pool.append], .refl p m⟩
  | cons text rest ih =>
    intro p m hb
    obtain ⟨hbal, hnodup, hfresh, hkeeps⟩ := ih (hb.insert text)
    have hsub : m ⊆ (p.insert text).1 ::ₘ m := Multiset.subset_cons _ _
    simp only [Pool.append]
    refine ⟨?_, ?_, ?_, (hb.keeps_insert text).trans (hkeeps.mono hsub)⟩
    · rw [← Multiset.cons_coe, Multiset.cons_add, ← Multiset.add_cons]
      exact hbal
    · exact List.nodup_cons.mpr ⟨fun h => hfresh _ h (Multiset.mem_cons_self _ _), hnodup⟩
    · intro h hh hm
      cases List.mem_cons.mp hh with
      | inl he => exact hb.insert_fresh text (he ▸ hm)
      | inr hr => exact hfresh h hr (hsub hm)

/-- The new handles stand for the texts stored. -/
theorem Balanced.append_texts (texts : List Bytes) {p : Pool} {m : Multiset Handle}
    (hb : p.Balanced m) : (p.append texts).1.map (p.append texts).2.text? = texts.map some := by
  induction texts generalizing p m with
  | nil => rfl
  | cons text rest ih =>
    have hins := hb.insert text
    have hkeeps := (hins.append rest).2.2.2
    have hself : (p.insert text).2.text? (p.insert text).1 = some text := by
      simp [text?, stored?_insert]
    simp only [Pool.append, List.map_cons, ih hins]
    rw [hkeeps _ (Multiset.mem_cons_self _ _), hself]

theorem length_append (texts : List Bytes) (p : Pool) :
    (p.append texts).1.length = texts.length := by
  induction texts generalizing p with
  | nil => rfl
  | cons text rest ih => simp [Pool.append, ih]

/-! ## Retaining and releasing -/

theorem stored?_recount {h : Handle} {line : StoredLine} (hs : p.stored? h = some line) (n : Nat)
    (k : Handle) :
    (p.recount hs n).stored? k = if k = h then some ⟨line.text, n⟩ else p.stored? k :=
  stored?_set (stored?_lt hs) rfl k

theorem WellFormed.recount (hw : p.WellFormed) {h : Handle} {line : StoredLine}
    (hs : p.stored? h = some line) {n : Nat} (hn : 0 < n) : (p.recount hs n).WellFormed where
  free_nodup := hw.free_nodup
  mem_free_iff k := by
    have hk : (p.recount hs n).stored? k = none ↔ p.stored? k = none := by
      rw [stored?_recount]
      split
      · rename_i hk
        simp [hk, hs]
      · rfl
    rw [hk]
    simpa [Pool.recount] using hw.mem_free_iff k
  live_add_free := by simpa [Pool.recount] using hw.live_add_free
  refs_pos k l hl := by
    rw [stored?_recount] at hl
    split at hl
    · cases hl
      exact hn
    · exact hw.refs_pos k l hl

theorem refs_recount {h : Handle} {line : StoredLine} (hs : p.stored? h = some line) (n : Nat)
    (k : Handle) : (p.recount hs n).refs k = if k = h then n else p.refs k := by
  unfold Pool.refs
  rw [stored?_recount]
  split <;> rfl

theorem text?_recount {h : Handle} {line : StoredLine} (hs : p.stored? h = some line) (n : Nat)
    (k : Handle) : (p.recount hs n).text? k = p.text? k := by
  unfold Pool.text?
  rw [stored?_recount]
  split
  · rename_i hk
    simp [hk, hs]
  · rfl

theorem retain_of_holds [CountLimit] {h : Handle} {line : StoredLine} (hs : p.stored? h = some line)
    (hroom : CountLimit.Holds (line.refs + 1)) :
    p.retain h = .ok (p.recount hs (line.refs + 1)) := by
  unfold Pool.retain
  split
  · rename_i line' hs'
    cases hs.symm.trans hs'
    exact if_pos hroom
  · rename_i hs'
    cases hs.symm.trans hs'

theorem retain_of_stored {h : Handle} {line : StoredLine} (hs : p.stored? h = some line) :
    p.retain h = .ok (p.recount hs (line.refs + 1)) :=
  retain_of_holds hs (CountLimit.holds_unbounded _)

theorem Balanced.retain (hb : p.Balanced m) {h : Handle} (hm : h ∈ m) :
    Succeeds (p.retain h) fun q => q.Balanced (h ::ₘ m) ∧ ∀ k, q.text? k = p.text? k := by
  obtain ⟨line, hs, hrefs⟩ := hb.stored hm
  refine ⟨p.recount hs (line.refs + 1), retain_of_stored hs, ⟨?_, ?_⟩, text?_recount hs _⟩
  · exact hb.toWellFormed.recount hs (Nat.succ_pos _)
  · intro k
    rw [refs_recount hs, Multiset.count_cons, hb.refs_eq]
    by_cases hk : k = h <;> simp [hk, hrefs]

theorem retainAll_cons [CountLimit] {p q : Pool} {h : Handle} {hs : List Handle} (hq : p.retain h = .ok q) :
    p.retainAll (h :: hs) = q.retainAll hs := by
  simp only [retainAll, retainEach, hq]

theorem Balanced.retainAll : ∀ (hs : List Handle) {p : Pool} {m : Multiset Handle}, p.Balanced m →
    (∀ h ∈ hs, h ∈ m) →
    Succeeds (p.retainAll hs) fun q => q.Balanced (hs + m) ∧ ∀ k, q.text? k = p.text? k
  | [], p, m, hb, _ => ⟨p, rfl, by simpa using hb, fun _ => rfl⟩
  | h :: hs, p, m, hb, hm => by
    obtain ⟨q, hq, hqb, hqt⟩ := hb.retain (hm h (by simp))
    obtain ⟨r, hr, hrb, hrt⟩ := Balanced.retainAll hs hqb
      fun k hk => Multiset.mem_cons_of_mem (hm k (List.mem_cons_of_mem h hk))
    refine ⟨r, (retainAll_cons hq).trans hr, ?_, fun k => (hrt k).trans (hqt k)⟩
    rw [← Multiset.cons_coe, Multiset.cons_add, ← Multiset.add_cons]
    exact hrb

theorem stored?_reclaim {h : Handle} {line : StoredLine} (hs : p.stored? h = some line)
    (live : Nat) (k : Handle) :
    (p.reclaim hs live).stored? k = if k = h then none else p.stored? k :=
  stored?_set (stored?_lt hs) rfl k

theorem WellFormed.reclaim (hw : p.WellFormed) {h : Handle} {line : StoredLine}
    (hs : p.stored? h = some line) : (p.reclaim hs (p.live - 1)).WellFormed where
  free_nodup := by
    have hnot : h ∉ p.free := by simp [hw.mem_free_iff, hs]
    exact List.nodup_cons.mpr ⟨hnot, hw.free_nodup⟩
  mem_free_iff k := by
    rw [stored?_reclaim hs]
    have hlt := stored?_lt hs
    by_cases hk : k = h
    · simp [Pool.reclaim, hk, hlt]
    · simpa [Pool.reclaim, hk] using hw.mem_free_iff k
  live_add_free := by
    have hsum := hw.live_add_free
    have hpos := hw.live_pos hs
    simp only [Pool.reclaim, List.length_cons, Array.size_set]
    omega
  refs_pos k l hl := by
    rw [stored?_reclaim hs] at hl
    split at hl
    · cases hl
    · exact hw.refs_pos k l hl

theorem release_of_more {h : Handle} {line : StoredLine} (hs : p.stored? h = some line)
    (hmore : 1 < line.refs) : p.release h = .ok (p.recount hs (line.refs - 1), false) := by
  unfold Pool.release
  split
  · rename_i line' hs'
    cases hs.symm.trans hs'
    rw [difference_of_le (Nat.le_of_lt hmore)]
    exact if_neg (Nat.sub_ne_zero_of_lt hmore)
  · rename_i hs'
    cases hs.symm.trans hs'

theorem release_of_last {h : Handle} {line : StoredLine} (hs : p.stored? h = some line)
    (hone : line.refs = 1) (hlive : 0 < p.live) :
    p.release h = .ok (p.reclaim hs (p.live - 1), true) := by
  unfold Pool.release
  split
  · rename_i line' hs'
    cases hs.symm.trans hs'
    rw [hone, difference_of_le (Nat.le_refl 1), difference_of_le hlive]
    rfl
  · rename_i hs'
    cases hs.symm.trans hs'

theorem Balanced.release {h : Handle} (hb : p.Balanced (h ::ₘ m)) :
    Succeeds (p.release h) fun r => r.1.Balanced m ∧ p.Keeps r.1 m := by
  obtain ⟨line, hs, hrefs⟩ := hb.stored (Multiset.mem_cons_self h m)
  rw [Multiset.count_cons_self] at hrefs
  by_cases hone : line.refs = 1
  · have hcount : m.count h = 0 := by omega
    rw [release_of_last hs hone (hb.live_pos hs), Succeeds.ok_iff]
    refine ⟨⟨hb.toWellFormed.reclaim hs, ?_⟩, ?_⟩
    · intro k
      have hk := hb.refs_eq k
      rw [Multiset.count_cons] at hk
      by_cases he : k = h
      · rw [he, hcount]
        exact refs_of_not_stored (by rw [stored?_reclaim hs, if_pos rfl])
      · simpa [refs, stored?_reclaim hs, he] using hk
    · intro k hk
      have hne : k ≠ h := fun he => (Multiset.count_eq_zero.mp hcount) (he ▸ hk)
      exact text?_congr (by rw [stored?_reclaim hs, if_neg hne])
  · have hmore : 1 < line.refs := by omega
    rw [release_of_more hs hmore, Succeeds.ok_iff]
    refine ⟨⟨hb.toWellFormed.recount hs (by omega), ?_⟩, fun k _ => text?_recount hs _ k⟩
    intro k
    have hk := hb.refs_eq k
    rw [Multiset.count_cons] at hk
    rw [refs_recount hs]
    by_cases he : k = h
    · rw [if_pos he, he]
      omega
    · simpa [he] using hk

theorem releaseAll_cons {p q r : Pool} {h : Handle} {hs : List Handle} {last : Bool} {n : Nat}
    (hq : p.release h = .ok (q, last)) (hr : q.releaseAll hs = .ok (r, n)) :
    p.releaseAll (h :: hs) = .ok (r, if last then n + 1 else n) := by
  unfold releaseAll at hr ⊢
  have heach : q.releaseEach hs = (r, .ok n) := by
    split at hr
    · cases hr
      assumption
    · cases hr
  simp [releaseEach, hq, heach, Except.map]

theorem Balanced.releaseAll : ∀ (hs : List Handle) {p : Pool} {m : Multiset Handle},
    p.Balanced (hs + m) →
    Succeeds (p.releaseAll hs) fun r => r.1.Balanced m ∧ p.Keeps r.1 m
  | [], p, m, hb => ⟨(p, 0), rfl, by simpa using hb, .refl p m⟩
  | h :: hs, p, m, hb => by
    rw [← Multiset.cons_coe, Multiset.cons_add] at hb
    obtain ⟨⟨q, last⟩, hq, hqb, hqk⟩ := hb.release
    obtain ⟨⟨r, n⟩, hr, hrb, hrk⟩ := Balanced.releaseAll hs hqb
    have hsub : m ⊆ hs + m := fun k hk => Multiset.mem_add.mpr (.inr hk)
    exact ⟨_, releaseAll_cons hq hr, hrb, (hqk.mono hsub).trans hrk⟩

/-! ## Checking the balance -/

theorem getElem?_foldl_modify (hs : List Handle) (counts : Array Nat) (i : Nat) :
    (hs.foldl (fun counts h => counts.modify h (· + 1)) counts)[i]? =
      counts[i]?.map (· + hs.count i) := by
  induction hs generalizing counts with
  | nil => simp
  | cons h hs ih =>
    rw [List.foldl_cons, ih, Array.getElem?_modify, List.count_cons]
    by_cases hi : h = i
    · simp [hi, Function.comp_def, Nat.add_comm, Nat.add_left_comm]
    · simp [hi]

theorem Balanced.isBalanced {hs : List Handle} (hb : p.Balanced hs) : p.isBalanced hs = true := by
  have htally : p.slots.map (fun slot => (slot.map StoredLine.refs).getD 0) = tally p.slots.size hs := by
    refine Array.ext_getElem? fun i => ?_
    have hrefs := hb.refs_eq i
    unfold tally
    rw [Array.getElem?_map, getElem?_foldl_modify, Array.getElem?_replicate]
    unfold refs stored? at hrefs
    by_cases hi : i < p.slots.size
    · rw [Array.getElem?_eq_getElem hi, Option.join_some, Multiset.coe_count] at hrefs
      simp [hi, hrefs]
    · simp [hi]
  unfold Pool.isBalanced
  rw [htally, Bool.and_eq_true, List.all_eq_true]
  exact ⟨fun h hm => by simpa using hb.lt_size hm, by simp⟩

end

end LineEditor.Pool
