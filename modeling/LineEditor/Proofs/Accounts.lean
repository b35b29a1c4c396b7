import LineEditor.Buffer.LineMap
import LineEditor.Proofs.Pool
import Mathlib.Algebra.Order.Group.Multiset
import Mathlib.Tactic.Abel

/-!
# Accounts of entries

What an entry holds is a reference and a suffix; its mark holds nothing. The pool accounts for a
multiset of these if it counts their references and one handle never stands with two suffixes. The
second part is what lets two maps with the same handles pass for the same lines.
-/

namespace LineEditor

/-- What an entry holds. -/
def Entry.content (x : Entry) : Handle × Option Suffix := (x.handle, x.suffix)

namespace LineMap

/-- What the entries of a map hold. -/
def contents (m : LineMap) : Multiset (Handle × Option Suffix) := (m.map Entry.content : List _)

/-- No entry has a mark. -/
def Unmarked (m : LineMap) : Prop := ∀ x ∈ m, x.marked = false

@[simp] theorem contents_nil : contents [] = 0 := rfl

@[simp] theorem contents_append (l m : LineMap) : contents (l ++ m) = contents l + contents m := by
  simp [contents]

@[simp] theorem map_fst_contents (m : LineMap) : m.contents.map Prod.fst = (m.handles : Multiset _) := by
  simp [contents, handles, Entry.content, Function.comp_def]

theorem mem_contents {m : LineMap} {c : Handle × Option Suffix} :
    c ∈ m.contents ↔ ∃ x ∈ m, x.content = c := by
  simp [contents]

theorem contents_perm {l m : LineMap} (h : l.Perm m) : l.contents = m.contents :=
  Multiset.coe_eq_coe.mpr (h.map _)

@[simp] theorem contents_map_unmark (m : LineMap) : contents (m.map Entry.unmark) = m.contents := by
  simp [contents, Entry.unmark, Function.comp_def, Entry.content]
  rfl

@[simp] theorem contents_clearMarks (m : LineMap) : m.clearMarks.contents = m.contents :=
  contents_map_unmark m

theorem unmarked_clearMarks (m : LineMap) : m.clearMarks.Unmarked := by
  intro x hx
  obtain ⟨y, -, rfl⟩ := List.mem_map.mp hx
  rfl

theorem Unmarked.clearMarks_eq {m : LineMap} (h : m.Unmarked) : m.clearMarks = m := by
  refine (List.map_congr_left fun x hx => ?_).trans (List.map_id m)
  show { x with marked := false } = x
  rw [← h x hx]

theorem Unmarked.append {l m : LineMap} (hl : l.Unmarked) (hm : m.Unmarked) :
    Unmarked (l ++ m) :=
  fun x hx => (List.mem_append.mp hx).elim (hl x) (hm x)

theorem Unmarked.of_subset {l m : LineMap} (hm : m.Unmarked) (h : l ⊆ m) : l.Unmarked :=
  fun x hx => hm x (h hx)

/-! ## Splicing and moving -/

theorem splice_perm (m : LineMap) (start remove : Nat) (insert : List Entry) :
    (m.splice start remove insert ++ m.removed start remove).Perm (insert ++ m) := by
  have hm : m = m.take start ++ (m.removed start remove ++ m.drop (start + remove)) := by
    rw [removed, ← List.drop_drop, List.take_append_drop, List.take_append_drop]
  refine List.Perm.trans ?_ (List.Perm.append_left insert (List.Perm.of_eq hm.symm))
  unfold splice
  rw [List.perm_iff_count]
  intro x
  simp only [List.count_append]
  omega

theorem contents_splice (m : LineMap) (start remove : Nat) (insert : List Entry) :
    (m.splice start remove insert).contents + contents (m.removed start remove) =
      contents insert + m.contents := by
  rw [← contents_append, ← contents_append]
  exact contents_perm (m.splice_perm start remove insert)

theorem length_splice (m : LineMap) {start remove : Nat} (insert : List Entry)
    (hfit : start + remove ≤ m.length) :
    (m.splice start remove insert).length = m.length - remove + insert.length := by
  simp only [splice, List.length_append, List.length_take, List.length_drop]
  omega

theorem length_removed (m : LineMap) {start remove : Nat} (hfit : start + remove ≤ m.length) :
    (m.removed start remove).length = remove := by
  simp only [removed, List.length_take, List.length_drop]
  omega

theorem removed_subset (m : LineMap) (start remove : Nat) : m.removed start remove ⊆ m :=
  fun _ hx => List.mem_of_mem_drop (List.mem_of_mem_take hx)

theorem Unmarked.splice {m : LineMap} (hm : m.Unmarked) (start remove : Nat) {insert : List Entry}
    (hi : Unmarked insert) : (m.splice start remove insert).Unmarked :=
  ((hm.of_subset fun _ => List.mem_of_mem_take).append hi).append
    (hm.of_subset fun _ => List.mem_of_mem_drop)

theorem relocate_perm (m : LineMap) {start count after : Nat}
    (hout : start + count ≤ after ∨ after ≤ start) : (m.relocate start count after).Perm m := by
  have hrest (a b : Nat) (hab : a ≤ b) : m.drop a = (m.drop a).take (b - a) ++ m.drop b := by
    conv_lhs => rw [← List.take_append_drop (b - a) (m.drop a)]
    rw [List.drop_drop, Nat.add_sub_cancel' hab]
  have hrun : m.removed start count = (m.drop start).take (start + count - start) := by
    rw [removed, Nat.add_sub_cancel_left]
  unfold relocate
  split
  · -- the run moves down: the entries between it and its new place come before it
    rename_i hle
    have hm := (List.take_append_drop start m).symm
    rw [hrest start (start + count) (by omega), hrest (start + count) after hle, ← hrun] at hm
    refine List.Perm.trans ?_ (List.Perm.of_eq hm.symm)
    rw [List.perm_iff_count]
    intro x
    simp only [List.count_append]
    omega
  · rename_i hnle
    have hm := (List.take_append_drop after m).symm
    rw [hrest after start (by omega), hrest start (start + count) (by omega), ← hrun] at hm
    refine List.Perm.trans ?_ (List.Perm.of_eq hm.symm)
    rw [List.perm_iff_count]
    intro x
    simp only [List.count_append]
    omega

end LineMap

namespace Pool

/-- The references of these entries are those counted, and each handle has one suffix. -/
structure Accounts (p : Pool) (m : Multiset (Handle × Option Suffix)) : Prop where
  balanced : p.Balanced (m.map Prod.fst)
  suffix_eq : ∀ a ∈ m, ∀ b ∈ m, a.1 = b.1 → a.2 = b.2

section
variable {p : Pool} {m : Multiset (Handle × Option Suffix)}

theorem Keeps.left {q : Pool} {l : Multiset (Handle × Option Suffix)}
    (h : p.Keeps q ((l + m).map Prod.fst)) : p.Keeps q (l.map Prod.fst) :=
  h.mono (Multiset.map_subset_map fun _ hc => Multiset.mem_add.mpr (.inl hc))

theorem Keeps.right {q : Pool} {l : Multiset (Handle × Option Suffix)}
    (h : p.Keeps q ((l + m).map Prod.fst)) : p.Keeps q (m.map Prod.fst) :=
  h.mono (Multiset.map_subset_map fun _ hc => Multiset.mem_add.mpr (.inr hc))

theorem Accounts.empty : Pool.empty.Accounts 0 := ⟨.empty, by simp⟩

theorem Accounts.get (ha : p.Accounts m) {x : Entry} (hx : x.content ∈ m) :
    ∃ text, p.get x.handle = .ok text ∧ p.text? x.handle = some text :=
  ha.balanced.get (Multiset.mem_map_of_mem Prod.fst hx)

/-- Two maps that the pool accounts for hold the same if they have the same handles. -/
theorem Accounts.content_eq (ha : p.Accounts m) {k l : LineMap} (hk : k.contents ⊆ m)
    (hl : l.contents ⊆ m) (hs : k.handles = l.handles) :
    k.map Entry.content = l.map Entry.content := by
  induction k generalizing l with
  | nil =>
    cases l with
    | nil => rfl
    | cons y l => cases hs
  | cons x k ih =>
    cases l with
    | nil => cases hs
    | cons y l =>
      obtain ⟨hh, hs⟩ := List.cons.inj hs
      have hx : x.content ∈ m := hk (LineMap.mem_contents.mpr ⟨x, by simp, rfl⟩)
      have hy : y.content ∈ m := hl (LineMap.mem_contents.mpr ⟨y, by simp, rfl⟩)
      have hxy : x.content = y.content := Prod.ext hh (ha.suffix_eq _ hx _ hy hh)
      have hk' : LineMap.contents k ⊆ m := fun c hc => hk (Multiset.mem_cons_of_mem hc)
      have hl' : LineMap.contents l ⊆ m := fun c hc => hl (Multiset.mem_cons_of_mem hc)
      rw [List.map_cons, List.map_cons, hxy, ih hk' hl' hs]

theorem Accounts.enter (ha : p.Accounts m) (texts : List Bytes) {new : List Entry}
    (hnew : LineMap.handles new = (p.append texts).1) :
    (p.append texts).2.Accounts (LineMap.contents new + m) ∧
      p.Keeps (p.append texts).2 (m.map Prod.fst) := by
  obtain ⟨hbal, hnodup, hfresh, hkeeps⟩ := ha.balanced.append texts
  have hhandle {a : Handle × Option Suffix} (h : a ∈ LineMap.contents new) :
      a.1 ∈ (p.append texts).1 := by
    rw [← hnew]
    obtain ⟨x, hx, rfl⟩ := LineMap.mem_contents.mp h
    exact List.mem_map_of_mem hx
  have hout {a b : Handle × Option Suffix} (h : a ∈ LineMap.contents new) (hb : b ∈ m) :
      a.1 ≠ b.1 :=
    fun he => hfresh _ (hhandle h) (he ▸ Multiset.mem_map_of_mem Prod.fst hb)
  have hin {a b : Handle × Option Suffix} (h : a ∈ LineMap.contents new)
      (hb : b ∈ LineMap.contents new) (he : a.1 = b.1) : a.2 = b.2 := by
    obtain ⟨x, hx, rfl⟩ := LineMap.mem_contents.mp h
    obtain ⟨y, hy, rfl⟩ := LineMap.mem_contents.mp hb
    have hnew' : (new.map Entry.handle).Nodup := by
      rw [show new.map Entry.handle = _ from hnew]
      exact hnodup
    rw [List.inj_on_of_nodup_map hnew' hx hy he]
  refine ⟨⟨?_, ?_⟩, hkeeps⟩
  · rw [Multiset.map_add, LineMap.map_fst_contents, hnew]
    exact hbal
  · intro a ha' b hb' he
    rcases Multiset.mem_add.mp ha' with h | h <;> rcases Multiset.mem_add.mp hb' with h' | h'
    · exact hin h h' he
    · exact absurd he (hout h h')
    · exact absurd he.symm (hout h' h)
    · exact ha.suffix_eq a h b h' he

theorem Accounts.share (ha : p.Accounts m) {l : LineMap} (hl : l.contents ⊆ m) :
    Succeeds (p.retainAll l.handles) fun q =>
      q.Accounts (l.contents + m) ∧ ∀ h, q.text? h = p.text? h := by
  have hmem : ∀ h ∈ l.handles, h ∈ m.map Prod.fst := by
    intro h hh
    obtain ⟨x, hx, rfl⟩ := List.mem_map.mp hh
    exact Multiset.mem_map_of_mem Prod.fst (hl (LineMap.mem_contents.mpr ⟨x, hx, rfl⟩))
  refine (ha.balanced.retainAll l.handles hmem).mono fun q hq => ⟨⟨?_, ?_⟩, hq.2⟩
  · rw [Multiset.map_add, LineMap.map_fst_contents]
    exact hq.1
  · have hsub {a : Handle × Option Suffix} (h : a ∈ l.contents + m) : a ∈ m :=
      (Multiset.mem_add.mp h).elim (fun h => hl h) id
    exact fun a h b h' => ha.suffix_eq a (hsub h) b (hsub h')

theorem Accounts.retain (ha : p.Accounts m) {c : Handle × Option Suffix} (hc : c ∈ m) :
    Succeeds (p.retain c.1) fun q => q.Accounts (c ::ₘ m) ∧ ∀ h, q.text? h = p.text? h := by
  refine (ha.balanced.retain (Multiset.mem_map_of_mem Prod.fst hc)).mono fun q hq => ⟨⟨?_, ?_⟩, hq.2⟩
  · rw [Multiset.map_cons]
    exact hq.1
  · have hsub {a : Handle × Option Suffix} (h : a ∈ c ::ₘ m) : a ∈ m :=
      (Multiset.mem_cons.mp h).elim (fun he => he ▸ hc) id
    exact fun a h b h' => ha.suffix_eq a (hsub h) b (hsub h')

theorem Accounts.drop {l : LineMap} (ha : p.Accounts (l.contents + m)) :
    Succeeds (p.releaseAll l.handles) fun r =>
      r.1.Accounts m ∧ p.Keeps r.1 (m.map Prod.fst) := by
  have hb := ha.balanced
  rw [Multiset.map_add, LineMap.map_fst_contents] at hb
  have hsub {a : Handle × Option Suffix} (h : a ∈ m) : a ∈ l.contents + m :=
    Multiset.mem_add.mpr (.inr h)
  exact (hb.releaseAll l.handles).mono fun r hr =>
    ⟨⟨hr.1, fun a h b h' => ha.suffix_eq a (hsub h) b (hsub h')⟩, hr.2⟩

end

end Pool

end LineEditor
