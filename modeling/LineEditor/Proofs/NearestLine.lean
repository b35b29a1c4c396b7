import LineEditor.Proofs.Leads
import LineEditor.Proofs.Runs

/-!
# The nearest match

A search looks at the lines that are met on the way from dot, around the end of the window and back
to dot, and goes to the first that matches. The way is given twice: by its steps, and by the numbers
that are met on it.
-/

namespace LineEditor

/-- A query goes on past the place where it would stop, as long as the user has not asked for it. -/
theorem Query.ends_checkInterrupt_calm {f : Unit → Query α} {r : Recall} {post : Post Recall α}
    (hcalm : r.interrupted = false) :
    Ends (Query.checkInterrupt >>= f) r post ↔ Ends (f ()) r post := by
  rw [ends_checkInterrupt_bind, if_neg (by simp [hcalm])]

namespace View

/-! ## The way around -/

/-- The lines met after line `n`, at most `count` of them, and none from dot on. -/
def met (dol dot : Nat) (forward : Bool) : Nat → Nat → List Nat
  | 0, _ => []
  | count + 1, n =>
    if neighbour dol forward n = dot then []
    else neighbour dol forward n :: met dol dot forward count (neighbour dol forward n)

/-- The numbers of the lines other than dot, in the order in which a search from dot meets them. -/
def around (dol dot : Nat) (forward : Bool) : List Nat :=
  if forward then List.range' (dot + 1) (dol - dot) ++ List.range' 1 (dot - 1)
  else (List.range' 1 (dot - 1)).reverse ++ (List.range' (dot + 1) (dol - dot)).reverse

section
variable {dol dot : Nat} {forward : Bool}

/-- All lines but dot are met. -/
theorem mem_around (hdot : dot ≤ dol) {n : Nat} :
    n ∈ around dol dot forward ↔ 1 ≤ n ∧ n ≤ dol ∧ n ≠ dot := by
  unfold around
  cases forward
  · simp only [Bool.false_eq_true, if_false, List.mem_append, List.mem_reverse, List.mem_range'_1]
    omega
  · simp only [if_true, List.mem_append, List.mem_range'_1]
    omega

/-- A way on which each line is the one met after the line before is all that is met, if it stays
clear of dot and ends where nothing is left to be met but dot. -/
theorem met_eq_of_isChain {count n : Nat} {l : List Nat}
    (hchain : List.IsChain (fun a b => neighbour dol forward a = b) (n :: l)) (hdot : dot ∉ l)
    (hlen : l.length ≤ count)
    (hend : l.length = count ∨ neighbour dol forward ((n :: l).getLast (List.cons_ne_nil n l)) = dot) :
    met dol dot forward count n = l := by
  induction l generalizing n count with
  | nil =>
    cases count with
    | zero => rfl
    | succ count => exact if_pos (hend.resolve_left (by simp))
  | cons m l ih =>
    obtain ⟨rfl, htail⟩ := List.isChain_cons_cons.mp hchain
    obtain ⟨hm, hl⟩ := not_or.mp (mt List.mem_cons.mpr hdot)
    cases count with
    | zero => simp at hlen
    | succ count =>
      have hrest : met dol dot forward count (neighbour dol forward n) = l :=
        ih htail hl (by simpa using hlen) (hend.imp (by simp) fun h => by simpa using h)
      rw [met, if_neg (Ne.symm hm), hrest]

theorem length_around (hdot : dot ≤ dol) :
    (around dol dot forward).length = if dot = 0 then dol else dol - 1 := by
  unfold around
  cases forward <;> simp <;> split <;> omega

/-- The line that is met `i` steps from dot. -/
theorem getElem_around (hdot : dot ≤ dol) {i : Nat}
    (hi : i < (dot :: around dol dot forward).length) :
    (dot :: around dol dot forward)[i] =
      if i = 0 then dot
      else if forward then if dot + i ≤ dol then dot + i else dot + i - dol
      else if i < dot then dot - i else dol + max dot 1 - i := by
  unfold around at *
  cases forward
  · simp only [Bool.false_eq_true, if_false, List.length_cons, List.length_append,
      List.length_reverse, List.length_range', List.getElem_cons, List.getElem_append,
      List.getElem_reverse, List.getElem_range'] at hi ⊢
    grind
  · simp only [if_true, List.length_cons, List.length_append, List.length_range',
      List.getElem_cons, List.getElem_append, List.getElem_range'] at hi ⊢
    grind

/-- Each line of the way is the one met after the line before. -/
theorem isChain_around (hdot : dot ≤ dol) :
    List.IsChain (fun a b => neighbour dol forward a = b) (dot :: around dol dot forward) := by
  refine List.isChain_iff_getElem.mpr fun i hi => ?_
  rw [getElem_around hdot, getElem_around hdot]
  rw [List.length_cons, length_around hdot] at hi
  unfold neighbour
  grind

/-- Behind the last line of the way is dot. -/
theorem neighbour_getLast_around (h₁ : 1 ≤ dot) (hdot : dot ≤ dol) :
    neighbour dol forward ((dot :: around dol dot forward).getLast (List.cons_ne_nil _ _)) = dot := by
  rw [List.getLast_eq_getElem, getElem_around hdot, List.length_cons, length_around hdot]
  unfold neighbour
  grind

/-- The steps from dot go along these numbers. -/
theorem met_eq_around (hdot : dot ≤ dol) :
    met dol dot forward dol dot = around dol dot forward := by
  refine met_eq_of_isChain (isChain_around hdot) (fun h => ((mem_around hdot).mp h).2.2 rfl) ?_ ?_
  · rw [length_around hdot]
    split <;> omega
  · rcases Nat.eq_zero_or_pos dot with rfl | h₁
    · exact .inl (by rw [length_around hdot, if_pos rfl])
    · exact .inr (neighbour_getLast_around h₁ hdot)

end

/-! ## What is found -/

/-- What is shown of line `n` matches. -/
def Matches (v : View) (matcher : Matcher) (n : Nat) : Prop :=
  ∃ text, v.window.display? v.pool n = .ok (some text) ∧ matcher.isMatch text = true

/-- The first of the numbers that has the property. -/
def IsFirst (P : Nat → Prop) (numbers : List Nat) (n : Nat) : Prop :=
  ∃ before after, numbers = before ++ n :: after ∧ P n ∧ ∀ m ∈ before, ¬P m

theorem isFirst_iff_find? {P : Nat → Prop} {p : Nat → Bool} {numbers : List Nat}
    (hp : ∀ n ∈ numbers, P n ↔ p n = true) {n : Nat} :
    IsFirst P numbers n ↔ numbers.find? p = some n := by
  rw [List.find?_eq_some_iff_append]
  constructor
  · rintro ⟨before, after, rfl, hn, hbefore⟩
    refine ⟨(hp n (by simp)).mp hn, before, after, rfl, fun m hm => ?_⟩
    simpa using mt (hp m (by simp [hm])).mpr (hbefore m hm)
  · rintro ⟨hn, before, after, rfl, hbefore⟩
    refine ⟨before, after, rfl, (hp n (by simp)).mpr hn, fun m hm hP => ?_⟩
    simpa [(hp m (by simp [hm])).mp hP] using hbefore m hm

theorem IsFirst.mem {P : Nat → Prop} {numbers : List Nat} {n : Nat} (h : IsFirst P numbers n) :
    n ∈ numbers ∧ P n := by
  obtain ⟨before, after, rfl, hn, -⟩ := h
  exact ⟨by simp, hn⟩

theorem exists_isFirst {P : Nat → Prop} {numbers : List Nat} {n : Nat} (hmem : n ∈ numbers)
    (hn : P n) : ∃ m, IsFirst P numbers m := by
  classical
  have hsome : (numbers.find? fun m => decide (P m)).isSome :=
    List.find?_isSome.mpr ⟨n, hmem, decide_eq_true hn⟩
  obtain ⟨m, hm⟩ := Option.isSome_iff_exists.mp hsome
  exact ⟨m, (isFirst_iff_find? fun k _ => decide_eq_true_iff.symm).mpr hm⟩

section
variable {v : View}

/-- What is shown of each line. -/
theorem Readable.exists_shown (hv : v.Readable) : ∃ shown : Nat → Bytes,
    ∀ n, 1 ≤ n → n ≤ v.window.dol → v.window.display? v.pool n = .ok (some (shown n)) := by
  refine ⟨fun n => ((v.window.display? v.pool n).toOption.join).getD [], fun n h₁ hn => ?_⟩
  obtain ⟨i, rfl⟩ : ∃ i, n = i + 1 := ⟨n - 1, by omega⟩
  obtain ⟨text, htext, -⟩ := hv.showEntry (List.getElem_mem hn)
  have hdisplay : v.window.display? v.pool (i + 1) = .ok (some text) := by
    unfold Window.display?
    rw [show v.window.entry? (i + 1) = some (v.window.lines[i]) from List.getElem?_eq_getElem hn]
    dsimp only
    rw [htext]
    rfl
  simp only [hdisplay]
  rfl

variable {dot : Nat} {body source : List Char} {matcher : Matcher} {r : Recall}

/-- From line `n` on the lines are met one by one until one matches. -/
theorem searchFrom_ends {shown : Nat → Bytes}
    (hshown : ∀ n, 1 ≤ n → n ≤ v.window.dol → v.window.display? v.pool n = .ok (some (shown n)))
    (matcher : Matcher) (hcalm : r.interrupted = false) (forward : Bool) {count n : Nat}
    (hcount : count ≤ v.window.dol) (hn : n ≤ v.window.dol) :
    Ends (v.searchFrom dot forward matcher count n) r fun answer r' =>
      r' = r ∧ answer = ((met v.window.dol dot forward count n).find? fun n =>
        matcher.isMatch (shown n)).elim (.error .patternNotFound) .ok := by
  induction count generalizing n with
  | zero => exact ends_throw.mpr ⟨rfl, rfl⟩
  | succ count ih =>
    unfold searchFrom met
    rw [Query.ends_checkInterrupt_calm hcalm, ends_bind, ends_lift, beyond_eq, Succeeds.ok_iff,
      Post.after_ok]
    split
    · exact ends_throw.mpr ⟨rfl, rfl⟩
    · have hnext : 1 ≤ neighbour v.window.dol forward n ∧
          neighbour v.window.dol forward n ≤ v.window.dol := by
        unfold neighbour
        grind
      rw [ends_bind, ends_lift, hshown _ hnext.1 hnext.2, Succeeds.ok_iff, Post.after_ok]
      dsimp only
      rw [List.find?_cons]
      cases matcher.isMatch (shown (neighbour v.window.dol forward n)) with
      | true => exact ends_pure.mpr ⟨rfl, rfl⟩
      | false => exact ih (by omega) hnext.2

/-- From dot the lines are met one by one until one matches. -/
theorem Readable.search_ends (hv : v.Readable) (hdot : dot ≤ v.window.dol)
    (hsource : resolveSearch r.search body = .ok source)
    (hmatcher : v.window.compile source false = .ok matcher) (hcalm : r.interrupted = false)
    (forward : Bool) : ∃ found,
    (∀ n, found = some n ↔
      IsFirst (v.Matches matcher) (met v.window.dol dot forward v.window.dol dot) n) ∧
    Ends (v.search dot forward body) r fun answer r' =>
      r' = { r with search := some source } ∧ answer = found.elim (.error .patternNotFound) .ok := by
  obtain ⟨shown, hshown⟩ := hv.exists_shown
  refine ⟨(met v.window.dol dot forward v.window.dol dot).find? fun n => matcher.isMatch (shown n),
    fun n => ?_, ?_⟩
  · refine (isFirst_iff_find? fun n hn => ?_).symm
    rw [met_eq_around hdot] at hn
    obtain ⟨h₁, hdol, -⟩ := (mem_around hdot).mp hn
    unfold Matches
    rw [hshown n h₁ hdol]
    simp
  · unfold search
    rw [Query.ends_resolve_bind hsource, ends_bind, ends_liftExcept, hmatcher, Post.after_ok,
      Query.ends_remember_bind]
    exact searchFrom_ends hshown matcher (by exact hcalm) forward (Nat.le_refl _) hdot

/-- A search from dot goes to the first line that matches of those behind dot and then, from the
other end of the window, of those before dot. Dot is not looked at, and without a match there is an
error. -/
theorem Readable.search_nearest (hv : v.Readable) (hdot : dot ≤ v.window.dol)
    (hsource : resolveSearch r.search body = .ok source)
    (hmatcher : v.window.compile source false = .ok matcher) (hcalm : r.interrupted = false)
    (forward : Bool) :
    Ends (v.search dot forward body) r fun answer r' =>
      r' = { r with search := some source } ∧
      (∀ n, answer = .ok n ↔
        IsFirst (v.Matches matcher)
          (if forward then
            List.range' (dot + 1) (v.window.dol - dot) ++ List.range' 1 (dot - 1)
          else (List.range' 1 (dot - 1)).reverse ++
            (List.range' (dot + 1) (v.window.dol - dot)).reverse) n) ∧
      (∀ n, answer = .ok n → n ≠ dot) ∧
      (answer = .error .patternNotFound ↔
        ∀ n, 1 ≤ n → n ≤ v.window.dol → n ≠ dot → ¬v.Matches matcher n) ∧
      ((∃ n, answer = .ok n) ∨ answer = .error .patternNotFound) := by
  obtain ⟨found, hfound, hends⟩ := hv.search_ends hdot hsource hmatcher hcalm forward
  rw [met_eq_around hdot] at hfound
  refine hends.mono ?_
  rintro _ _ ⟨rfl, rfl⟩
  show _ ∧ (∀ n, _ ↔ IsFirst _ (around v.window.dol dot forward) n) ∧ _
  have hok (n : Nat) : found.elim (.error .patternNotFound) .ok = (.ok n : Except EditError Nat) ↔
      found = some n := by
    cases found <;> simp
  refine ⟨rfl, fun n => (hok n).trans (hfound n), fun n hn => ?_, ?_, ?_⟩
  · have hmem := ((hfound n).mp ((hok n).mp hn)).mem.1
    exact ((mem_around hdot).mp hmem).2.2
  · have herr : found.elim (.error .patternNotFound) .ok =
        (.error .patternNotFound : Except EditError Nat) ↔ found = none := by
      cases found <;> simp
    rw [herr, Option.eq_none_iff_forall_ne_some]
    constructor
    · intro hnone n h₁ hn hne hmatch
      obtain ⟨m, hm⟩ := exists_isFirst ((mem_around hdot).mpr ⟨h₁, hn, hne⟩) hmatch
      exact hnone m ((hfound m).mpr hm)
    · intro hnone n hn
      obtain ⟨hmem, hmatch⟩ := ((hfound n).mp hn).mem
      obtain ⟨h₁, hle, hne⟩ := (mem_around hdot).mp hmem
      exact hnone n h₁ hle hne hmatch
  · cases found with
    | some n => exact .inl ⟨n, rfl⟩
    | none => exact .inr rfl

/-- From the last line the search goes around the end to the first, and from line 0 it goes back to
the last; both match. -/
theorem search_nearest_around : ∃ e,
    (Engine.new ⟨1, 10, 100⟩).perform (.insertBulk 0 [97, 10, 98, 10, 97, 10]) = .ok e ∧
      Ends (e.view.search 3 true ['a']) e.remembered (fun answer _ => answer = .ok 1) ∧
      Ends (e.view.search 0 false ['a']) e.remembered fun answer _ => answer = .ok 3 := by
  have hall : ((Engine.new ⟨1, 10, 100⟩).perform (.insertBulk 0 [97, 10, 98, 10, 97, 10]) >>=
      fun e => pure (e.window.dol = 3 && e.remembered.interrupted = false &&
        (e.window.compile ['a'] false).toOption.any fun m =>
          [1, 3].all fun n => e.window.display? e.pool n = .ok (some [97]) && m.isMatch [97])) =
      .ok true := by
    decide +kernel
  obtain ⟨e, hnew, hall⟩ := bind_eq_ok.mp hall
  have hvalues := Except.ok.inj hall
  simp only [Bool.and_eq_true, decide_eq_true_eq, Option.any_eq_true, List.all_cons, List.all_nil,
    and_true] at hvalues
  obtain ⟨⟨hdol, hcalm⟩, matcher, hcompile, ⟨hfirst, hmatch⟩, hthird, -⟩ := hvalues
  have hmatcher : e.window.compile ['a'] false = .ok matcher := toOption_eq_some.mp hcompile
  have hv : e.view.Readable := (Engine.Reachable.call _ (.new _) hnew).steady.readable
  refine ⟨e, hnew, ?_, ?_⟩
  · refine (hv.search_nearest (Nat.le_of_eq hdol.symm) rfl hmatcher hcalm true).mono fun _ _ h => ?_
    refine (h.2.1 1).mpr ⟨[], [2], ?_, ⟨_, hfirst, hmatch⟩, by simp⟩
    rw [show e.view.window.dol = 3 from hdol]
    rfl
  · refine (hv.search_nearest (Nat.zero_le _) rfl hmatcher hcalm false).mono fun _ _ h => ?_
    refine (h.2.1 3).mpr ⟨[], [2, 1], ?_, ⟨_, hthird, hmatch⟩, by simp⟩
    rw [show e.view.window.dol = 3 from hdol]
    rfl

end

end View

end LineEditor
