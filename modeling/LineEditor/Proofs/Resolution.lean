import LineEditor.Proofs.Ranges
import LineEditor.Proofs.Runs
import Mathlib.Data.List.Infix

/-!
# The line that an address names

A base stands for a line, and the offsets are added to it. No sum is cut off as long as none leaves the
range of the numbers, so what an address comes to is their exact sum, and the bounds of the window are
those of any range.
-/

namespace LineEditor

namespace Number

/-- The numbers that a sum of offsets can reach. -/
def InRange (n : Int) : Prop := -(maxOffset + 1 : Int) ≤ n ∧ n ≤ maxOffset

instance (n : Int) : Decidable (InRange n) :=
  inferInstanceAs (Decidable (-(maxOffset + 1 : Int) ≤ n ∧ n ≤ maxOffset))

theorem InRange.saturate {n : Int} (h : InRange n) : saturate n = n := saturate_of_le h.1 h.2

end Number

namespace Offset

def sum (offsets : List Offset) : Int := (offsets.map value).sum

/-- As long as no sum on the way leaves the range, none is cut off. -/
theorem total_eq {offsets : List Offset} {n : Int}
    (h : ∀ front, front <+: offsets → Number.InRange (n + sum front)) :
    total n offsets = n + sum offsets := by
  induction offsets generalizing n with
  | nil => exact (Int.add_zero n).symm
  | cons o offsets ih =>
    have hfirst : Number.InRange (n + o.value) := by
      simpa [sum] using h [o] (by simp)
    show total (Number.saturate (n + o.value)) offsets = n + sum (o :: offsets)
    rw [hfirst.saturate, ih fun front hfront => ?_]
    · simp [sum, Int.add_assoc]
    · have hfront := h (o :: front) (by simpa using hfront)
      rwa [sum, List.map_cons, List.sum_cons, ← Int.add_assoc] at hfront

end Offset

namespace View

/-- The line for which a base stands, seen from dot, and what is remembered then. -/
inductive Stands (v : View) (dot : Nat) (r : Recall) : Base → Nat → Recall → Prop
  | line (n : Nat) : Stands v dot r (.line n) n r
  | dot : Stands v dot r .dot dot r
  | dol : Stands v dot r .dol v.window.dol r
  | label {name : Char} {n : Nat} : v.window.labels.get? name = some n →
      Stands v dot r (.label name) n r
  | search (forward : Bool) {pattern : List Char} {n : Nat} {r' : Recall} :
      Ends (v.search dot forward pattern) r (fun answer s => answer = .ok n ∧ s = r') →
      Stands v dot r (Address.searchFor forward pattern) n r'

section
variable {v : View} {dot n : Nat} {r r' : Recall}

theorem Stands.base_ends {base : Base} (h : v.Stands dot r base n r') :
    Ends (v.base dot base) r fun answer s => answer = .ok n ∧ s = r' := by
  cases h with
  | line => exact ends_pure.mpr ⟨rfl, rfl⟩
  | dot => exact ends_pure.mpr ⟨rfl, rfl⟩
  | dol => exact ends_pure.mpr ⟨rfl, rfl⟩
  | label hlabel =>
    unfold base
    dsimp only
    rw [hlabel]
    exact ends_pure.mpr ⟨rfl, rfl⟩
  | search forward hsearch => cases forward <;> exact hsearch

/-- The line with a number, if it is one of the window or the place before the first. -/
def lineAt (dol : Nat) (n : Int) : Except EditError Nat :=
  if n < 0 then .error .negativeLine
  else if dol < n.toNat then .error (.lineOutOfRange n.toNat)
  else .ok n.toNat

theorem address_ends {a : Address} (h : v.Stands dot r a.base n r')
    (hsum : Number.InRange (↑(min n Number.maxOffset) + a.offset)) :
    Ends (v.address dot a) r fun answer s =>
      answer = lineAt v.window.dol (↑(min n Number.maxOffset) + a.offset) ∧ s = r' := by
  unfold address
  refine h.base_ends.then ?_ ?_
  · rintro _ _ ⟨hbase, rfl⟩
    cases hbase
    dsimp only
    rw [hsum.saturate, lineAt]
    generalize (↑(min n Number.maxOffset) + a.offset : Int) = line
    by_cases hneg : line < 0
    · rw [if_pos hneg, if_pos hneg]
      exact ends_throw.mpr ⟨rfl, rfl⟩
    · rw [if_neg hneg, if_neg hneg]
      by_cases hdol : v.window.dol < line.toNat
      · rw [if_pos hdol, if_pos hdol]
        exact ends_throw.mpr ⟨rfl, rfl⟩
      · rw [if_neg hdol, if_neg hdol]
        exact ends_pure.mpr ⟨rfl, rfl⟩
  · rintro _ _ ⟨herr, -⟩
    cases herr

theorem address_ends_near {base : Base} {k : Nat} (h : v.Stands dot r base n r')
    (hn : n + k ≤ Number.maxOffset) : Ends (v.address dot ⟨base, k⟩) r fun answer s =>
      answer = lineAt v.window.dol ↑(n + k) ∧ s = r' := by
  have hmin : (↑(min n Number.maxOffset) : Int) + (k : Int) = ↑(n + k) := by
    rw [Nat.min_eq_left (Nat.le_of_add_right_le hn), Int.natCast_add]
  have hrange : Number.InRange (↑(n + k) : Int) := by
    constructor <;> omega
  have hends := address_ends (a := ⟨base, k⟩) h (by rwa [hmin])
  rwa [hmin] at hends

/-- Each outcome belongs to its own numbers. -/
theorem lineAt_eq (dol : Nat) (n : Int) :
    (∀ m, lineAt dol n = .ok m ↔ (m : Int) = n ∧ m ≤ dol) ∧
    (lineAt dol n = .error .negativeLine ↔ n < 0) ∧
    ∀ m, lineAt dol n = .error (.lineOutOfRange m) ↔ (m : Int) = n ∧ dol < m := by
  unfold lineAt
  by_cases hneg : n < 0
  · rw [if_pos hneg]
    simp only [reduceCtorEq, false_iff, Except.error.injEq, true_iff]
    exact ⟨fun m => by omega, hneg, fun m => by omega⟩
  · obtain ⟨k, rfl⟩ := Int.eq_ofNat_of_zero_le (Int.not_lt.mp hneg)
    rw [if_neg hneg, Int.toNat_natCast]
    by_cases hdol : dol < k
    · rw [if_pos hdol]
      simp only [reduceCtorEq, false_iff, Except.error.injEq, EditError.lineOutOfRange.injEq]
      exact ⟨fun m => by omega, hneg, fun m => by omega⟩
    · rw [if_neg hdol]
      simp only [reduceCtorEq, false_iff, Except.ok.injEq]
      exact ⟨fun m => by omega, hneg, fun m => by omega⟩

/-! ## Ranges in a window -/

theorem leads_address (dot : Nat) (a : Address) (r : Recall) : Leads (v.address dot a) r
    fun answer _ => ∀ n, answer = .ok n → n ≤ v.window.dol := by
  unfold address
  refine leads_after (fun err _ n h => by cases h) fun n s => ?_
  dsimp only
  split
  · exact leads_throw.mpr fun n h => by cases h
  · split
    · exact leads_throw.mpr fun n h => by cases h
    · refine leads_pure.mpr fun n h => ?_
      cases h
      exact Nat.le_of_not_lt ‹_›

theorem leads_ordered {start stop given : Nat} {r : Recall} (hstop : stop ≤ v.window.dol) :
    Leads (ordered start stop given) r fun answer _ =>
      ∀ range, answer = .ok (some range) → range.Within v.window.dol := by
  unfold ordered
  split
  · exact leads_throw.mpr fun range h => by cases h
  · refine leads_pure.mpr fun range h => ?_
    cases h
    exact ⟨Nat.le_of_not_lt ‹_›, hstop⟩

/-- Whatever was typed, and whatever the window is. -/
theorem leads_range (expr : RangeExpr) (r : Recall) : Leads (v.range expr) r fun answer _ =>
    ∀ range, answer = .ok (some range) → range.Within v.window.dol := by
  cases expr with
  | default => exact leads_pure.mpr fun range h => by cases h
  | whole => exact leads_ordered (Nat.le_refl _)
  | dotToEnd => exact leads_ordered (Nat.le_refl _)
  | one a =>
    refine (leads_address v.window.dot a r).then (fun n s hn => ?_) fun err s _ range h => by cases h
    exact leads_ordered (hn n rfl)
  | two first second fromFirst =>
    refine leads_after (fun err s range h => by cases h) fun start s => ?_
    refine (leads_address _ second s).then (fun n s hn => ?_) fun err s _ range h => by cases h
    exact leads_ordered (hn n rfl)

/-- Both addresses are known and in the wrong order. -/
theorem range_ends_badRange {first second : Address} {fromFirst : Bool} {start stop : Nat}
    {r₁ r₂ : Recall}
    (hfirst : Ends (v.address v.window.dot first) r fun answer s => answer = .ok start ∧ s = r₁)
    (hsecond : Ends (v.address (if fromFirst then start else v.window.dot) second) r₁
      fun answer s => answer = .ok stop ∧ s = r₂)
    (hless : stop < start) : Ends (v.range (.two first second fromFirst)) r fun answer s =>
      answer = .error .badRange ∧ s = r₂ := by
  refine hfirst.then ?_ fun err s h => by cases h.1
  rintro _ _ ⟨⟨⟩, rfl⟩
  refine hsecond.then ?_ fun err s h => by cases h.1
  rintro _ _ ⟨⟨⟩, rfl⟩
  unfold ordered
  rw [if_pos hless]
  exact ends_throw.mpr ⟨rfl, rfl⟩

/-- As long as no sum on the way leaves its range, an address is for the line with the number that is
the sum of its base and its offsets, and refused for that number if there is no such line. Whatever is
typed, a range does not leave the window and is not turned around, and dot stays where it is. -/
theorem resolves_exactly :
    (∀ (v : View) (dot n : Nat) (r r' : Recall) (text rest : List Char) (base : Base)
      (offsets : List Offset) (more : Char → Bool),
      Address.Sentence text base offsets more → Stops more rest → v.Stands dot r base n r' →
      n ≤ Number.maxOffset →
      (∀ front, front <+: offsets → Number.InRange (Offset.sum front)) →
      Number.InRange (n + Offset.sum offsets) →
      ∃ a, Address.parse (text ++ rest) = .ok (some (a, rest)) ∧
        Ends (v.address dot a) r fun answer s => s = r' ∧
          (∀ m, answer = .ok m ↔ (m : Int) = n + Offset.sum offsets ∧ m ≤ v.window.dol) ∧
          (answer = .error .negativeLine ↔ n + Offset.sum offsets < 0) ∧
          ∀ m, answer = .error (.lineOutOfRange m) ↔
            (m : Int) = n + Offset.sum offsets ∧ v.window.dol < m) ∧
    (∀ (e : Engine) (expr : RangeExpr),
      Leads (EditM.query fun v => v.range expr) e fun answer e' =>
        (∃ r, e' = e.withRecall r) ∧ e'.window.dot = e.window.dot ∧
          ∀ range, answer = .ok (some range) →
            0 ≤ range.start ∧ range.start ≤ range.stop ∧ range.stop ≤ e.window.dol) ∧
    ∀ (v : View) (r r₁ r₂ : Recall) (first second : Address) (fromFirst : Bool) (start stop : Nat),
      Ends (v.address v.window.dot first) r (fun answer s => answer = .ok start ∧ s = r₁) →
      Ends (v.address (if fromFirst then start else v.window.dot) second) r₁
        (fun answer s => answer = .ok stop ∧ s = r₂) →
      stop < start → Ends (v.range (.two first second fromFirst)) r fun answer s =>
        answer = .error .badRange ∧ s = r₂ := by
  refine ⟨fun v dot n r r' text rest base offsets more hsentence hrest hbase hn hfronts hsum => ?_,
    fun e expr => ?_, fun v r r₁ r₂ first second fromFirst start stop => range_ends_badRange⟩
  · have htotal : Offset.total 0 offsets = Offset.sum offsets := by
      rw [Offset.total_eq fun front hfront => ?_, Int.zero_add]
      rw [Int.zero_add]
      exact hfronts front hfront
    refine ⟨_, Address.parse_sentence hsentence hrest, ?_⟩
    have hline : ↑(min n Number.maxOffset) + (Address.ofOffsets base offsets).offset =
        n + Offset.sum offsets := by rw [Nat.min_eq_left hn, Address.ofOffsets, htotal]
    have hends := address_ends (a := .ofOffsets base offsets) hbase (by rwa [hline])
    rw [hline] at hends
    refine hends.mono ?_
    rintro _ _ ⟨rfl, rfl⟩
    exact ⟨rfl, lineAt_eq _ _⟩
  · rw [EditM.leads_query]
    intro answer r hrun
    refine ⟨⟨r, rfl⟩, rfl, fun range hrange => ?_⟩
    have hwithin := leads_range expr e.remembered answer r hrun range hrange
    exact ⟨Nat.zero_le _, hwithin.le, hwithin.stop_le⟩

end

/-- From the last of three lines there and back again; and a range from the last line to the first. -/
theorem resolves_exactly_back : ∃ e a,
    (Engine.new .standard).perform (.insertBulk 0 [97, 10, 98, 10, 99]) = .ok e ∧
    e.window.dol = 3 ∧
    Address.parse ['$', '-', '+', '2', '-', '3', 'p'] = .ok (some (a, ['p'])) ∧
    Ends (e.view.address e.window.dot a) e.remembered (fun answer s =>
      answer = .ok 1 ∧ s = e.remembered) ∧
    Leads (EditM.query fun v => v.range (.one a)) e (fun _ e' => e'.window.dot = e.window.dot) ∧
    Ends (e.view.range (.two ⟨.line 3, 0⟩ ⟨.line 1, 0⟩ false)) e.remembered (fun answer s =>
      answer = .error .badRange ∧ s = e.remembered) := by
  obtain ⟨e, hstart, -⟩ := (Engine.steady_new .standard).perform (.insertBulk 0 [97, 10, 98, 10, 99])
  have hdol : ((Engine.new .standard).perform (.insertBulk 0 [97, 10, 98, 10, 99])).map
      (·.window.dol) = .ok 3 := by decide +kernel
  rw [hstart] at hdol
  have hdol : e.view.window.dol = 3 := Except.ok.inj hdol
  obtain ⟨hexact, hbounds, hbad⟩ := resolves_exactly
  have hproper : ∀ o ∈ [⟨true, []⟩, ⟨false, ['2']⟩, (⟨true, ['3']⟩ : Offset)], o.Proper := by
    simpa using ⟨⟨by simp, by decide⟩, ⟨by simp, by decide⟩, by simp, by decide⟩
  have hsentence : Address.Sentence ['$', '-', '+', '2', '-', '3'] .dol
      [⟨true, []⟩, ⟨false, ['2']⟩, ⟨true, ['3']⟩] (Address.goesOn true) := .based .dol hproper
  have hfronts : ∀ front ∈ [⟨true, []⟩, ⟨false, ['2']⟩, (⟨true, ['3']⟩ : Offset)].inits,
      Number.InRange (Offset.sum front) := by decide
  obtain ⟨a, hparse, hends⟩ := hexact e.view e.window.dot 3 e.remembered e.remembered _ ['p'] .dol _ _
    hsentence (stops_cons.mpr (by decide)) (hdol ▸ .dol) (by decide)
    (fun front hfront => hfronts front ((List.mem_inits _ _).mpr hfront)) (by decide)
  have hline (n : Nat) (hn : n ≤ 3) : Ends (e.view.address e.window.dot ⟨.line n, 0⟩) e.remembered
      fun answer s => answer = .ok n ∧ s = e.remembered := by
    have hends := address_ends_near (k := 0) (.line n : e.view.Stands e.window.dot e.remembered _ n _)
      (Nat.le_trans hn (by decide))
    refine hends.mono ?_
    rintro _ _ ⟨rfl, hs⟩
    exact ⟨((lineAt_eq _ _).1 n).mpr ⟨rfl, by rw [hdol]; exact hn⟩, hs⟩
  refine ⟨e, a, hstart, hdol, hparse, hends.mono ?_, (hbounds e (.one a)).mono fun _ _ h => h.2.1,
    hbad e.view _ _ _ _ _ false 3 1 (hline 3 (by decide)) (hline 1 (by decide)) (by decide)⟩
  rintro answer s ⟨rfl, hok, -⟩
  exact ⟨(hok 1).mpr ⟨by decide, by rw [hdol]; decide⟩, rfl⟩

end View

end LineEditor
