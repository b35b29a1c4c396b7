import LineEditor.Proofs.Numbering
import LineEditor.Proofs.Paths
import LineEditor.Proofs.Replacing

/-!
# Where empty matches come from

A request that may replace more than the first match is refused if the pattern matches the empty
line. That keeps empty matches out of all other lines as well, but for one kind: a condition that
asks for the edge of a word holds nowhere in the empty line, so a pattern that needs one is let
through. The main statement is that each empty match stands where such a condition of the pattern
holds.
-/

namespace LineEditor.Regex

/-! ## The code of a node -/

/-- The conditions of the node are among `looks`, and none of its groups is the whole match. -/
def Node.Within (looks : Set Look) : Node → Prop
  | look l => l ∈ looks
  | capture index body => 0 < index ∧ body.Within looks
  | repeated body _ _ _ => body.Within looks
  | seq first rest => first.Within looks ∧ rest.Within looks
  | alt first rest => first.Within looks ∧ rest.Within looks
  | empty | bytes _ | codePoint _ | byteIn _ => True

/-- Behind the first two instructions there are only such, but for those still to be filled in, that
have no part in noting the whole match. -/
structure Program.Inward (p : Program) (looks : Set Look) (holes : Set Nat) : Prop where
  accept : p[0]? = some .accept
  stop : p[1]? = some (.save 1 0)
  inner : ∀ pc i, p[pc]? = some i → 1 < pc → pc ∉ holes → i.Inner looks

namespace Program

section
variable {p : Program} {looks : Set Look} {holes : Set Nat}

theorem Inward.one_lt (h : p.Inward looks holes) : 1 < p.size :=
  (Array.getElem?_eq_some_iff.mp h.stop).1

theorem Inward.mono (h : p.Inward looks holes) {holes' : Set Nat} (hsub : holes ⊆ holes') :
    p.Inward looks holes' :=
  ⟨h.accept, h.stop, fun pc i hp hpc hhole => h.inner pc i hp hpc fun hm => hhole (hsub hm)⟩

theorem Inward.push (h : p.Inward looks holes) {i : Inst} (hi : p.size ∉ holes → i.Inner looks) :
    Inward (p.push i) looks holes := by
  have hsize := h.one_lt
  refine ⟨?_, ?_, ?_⟩
  · rw [Array.getElem?_push, if_neg (by omega)]
    exact h.accept
  · rw [Array.getElem?_push, if_neg (by omega)]
    exact h.stop
  · intro pc i' hp hpc hhole
    rw [Array.getElem?_push] at hp
    split at hp
    · rename_i hlast
      subst hlast
      cases hp
      exact hi hhole
    · exact h.inner pc i' hp hpc hhole

/-- The program `r.2` is entered at `r.1`, which is not the instruction that accepts. -/
def Continues (looks : Set Look) (holes : Set Nat) (r : Nat × Program) : Prop :=
  r.2.Inward looks holes ∧ 0 < r.1

/-- Code added in front of a place has no part in noting the whole match. -/
def Stays (looks : Set Look) (build : Nat → Program → Nat × Program) : Prop :=
  ∀ {p : Program} {holes : Set Nat} {next : Nat},
    p.Inward looks holes → 0 < next → Continues looks holes (build next p)

theorem Inward.add (h : p.Inward looks holes) {i : Inst} (hi : i.Inner looks) :
    Continues looks holes (p.add i) :=
  ⟨h.push fun _ => hi, Nat.lt_trans Nat.zero_lt_one h.one_lt⟩

theorem choice_inner {on out : Nat} (hon : 0 < on) (hout : 0 < out) (greedy : Bool) :
    (choice greedy on out).Inner looks := by
  cases greedy with
  | true => exact ⟨hon, hout⟩
  | false => exact ⟨hout, hon⟩

theorem addBytes_stays (bs : Bytes) : Stays looks fun next p => addBytes next p bs := by
  intro p holes next h hnext
  induction bs with
  | nil => exact ⟨h, hnext⟩
  | cons b rest ih => exact ih.1.add (show Inst.Inner looks (.byte b _) from ih.2)

section
variable {body : Nat → Program → Nat × Program} (hbody : Stays looks body)
include hbody

theorem copies_stays (n : Nat) : Stays looks (copies body n) := by
  intro p holes next h hnext
  induction n with
  | zero => exact ⟨h, hnext⟩
  | succ n ih => exact hbody ih.1 ih.2

theorem optionals_stays (greedy : Bool) (n : Nat) :
    Stays looks fun next p => optionals body greedy next n p := by
  intro p holes next h hnext
  induction n with
  | zero => exact ⟨h, hnext⟩
  | succ n ih =>
    obtain ⟨hentered, hentry⟩ := hbody ih.1 ih.2
    exact hentered.add (choice_inner hentry hnext greedy)

/-- The instruction of a loop stands empty while the body is added. -/
theorem loop_stays (greedy : Bool) : Stays looks (loop body greedy) := by
  intro p holes next h hnext
  have hsize := h.one_lt
  have hhole : Inward (p.push .accept) looks (insert p.size holes) := by
    refine (h.mono (Set.subset_insert _ _)).push ?_
    intro hpc
    exact absurd (Set.mem_insert _ _) hpc
  obtain ⟨hfilled, hentry⟩ := hbody hhole (show 0 < p.size by omega)
  refine ⟨⟨?_, ?_, ?_⟩, hentry⟩
  · simp only [loop, add]
    rw [Array.getElem?_setIfInBounds_ne (by omega)]
    exact hfilled.accept
  · simp only [loop, add]
    rw [Array.getElem?_setIfInBounds_ne (by omega)]
    exact hfilled.stop
  · intro pc i hp hpc hout
    simp only [loop, add, Array.getElem?_setIfInBounds] at hp
    split at hp
    · split at hp
      · cases hp
        exact choice_inner hentry hnext greedy
      · cases hp
    · rename_i hne
      refine hfilled.inner pc i hp hpc fun hm => ?_
      exact hm.elim (fun he => hne he.symm) hout

end

theorem addNode_stays (n : Node) (hn : n.Within looks) : Stays looks (addNode n) := by
  induction n with
  | empty => exact fun h hnext => ⟨h, hnext⟩
  | bytes bs => exact addBytes_stays bs
  | codePoint s =>
    intro p holes next h hnext
    exact h.add (show Inst.Inner looks (.codePoint s next) from hnext)
  | byteIn s =>
    intro p holes next h hnext
    exact h.add (show Inst.Inner looks (.byteIn s next) from hnext)
  | look l =>
    intro p holes next h hnext
    exact h.add (show Inst.Inner looks (.look l next) from ⟨hn, hnext⟩)
  | capture index body ih =>
    obtain ⟨hindex, hbody⟩ := hn
    intro p holes next h hnext
    have hstop : Inst.Inner looks (.save (2 * index + 1) next) := ⟨by omega, hnext⟩
    obtain ⟨hadded, hpos⟩ := h.add hstop
    obtain ⟨hentered, hentry⟩ := ih hbody hadded hpos
    exact hentered.add (show Inst.Inner looks (.save (2 * index) _) from ⟨by omega, hentry⟩)
  | repeated body least most greedy ih =>
    have hbody : Stays looks (addNode body) := ih hn
    cases most with
    | some most =>
      intro p holes next h hnext
      obtain ⟨hadded, hpos⟩ := optionals_stays hbody greedy (most - least) h hnext
      exact copies_stays hbody least hadded hpos
    | none =>
      intro p holes next h hnext
      obtain ⟨hadded, hpos⟩ := loop_stays hbody greedy h hnext
      cases least with
      | zero => exact hadded.add (choice_inner hpos hnext greedy)
      | succ least => exact copies_stays hbody least hadded hpos
  | seq a b iha ihb =>
    intro p holes next h hnext
    obtain ⟨hadded, hpos⟩ := ihb hn.2 h hnext
    exact iha hn.1 hadded hpos
  | alt a b iha ihb =>
    intro p holes next h hnext
    obtain ⟨hsecond, hpos⟩ := ihb hn.2 h hnext
    obtain ⟨hfirst, hpos'⟩ := iha hn.1 hsecond hnext
    exact hfirst.add (show Inst.Inner looks (.split _ _) from ⟨hpos', hpos⟩)

end

end Program

theorem Code.ofNode_framed {n : Node} {looks : Set Look} (hn : n.Within looks) :
    (Code.ofNode n).Framed looks := by
  have hstart : Program.Inward #[.accept, .save 1 0] looks ∅ := by
    refine ⟨rfl, rfl, ?_⟩
    intro pc i hp hpc
    have hlt := (Array.getElem?_eq_some_iff.mp hp).1
    simp only [List.size_toArray, List.length_cons, List.length_nil] at hlt
    omega
  have hadded := Program.addNode_stays n hn hstart Nat.zero_lt_one
  have hcode : ∃ r, r = Program.addNode n 1 #[.accept, .save 1 0] ∧
      Code.ofNode n = ⟨r.2.push (.save 0 r.1), r.2.size, n.lastCapture + 1⟩ := ⟨_, rfl, rfl⟩
  obtain ⟨r, hr, hcode⟩ := hcode
  rw [← hr] at hadded
  rw [hcode]
  obtain ⟨hinward, hpos⟩ := hadded
  have hpushed : Program.Inward (r.2.push (.save 0 r.1)) looks {r.2.size} := by
    refine (hinward.mono (Set.empty_subset _)).push ?_
    intro hsize
    exact absurd (Set.mem_singleton _) hsize
  exact ⟨hpushed.accept, hpushed.stop, ⟨r.1, hpos, Array.getElem?_push_size⟩, hpushed.inner,
    Nat.succ_pos _⟩

/-! ## The node of a pattern -/

/-- The conditions on a place that a pattern has, as they are written. -/
def Tree.assertions : Tree → List Assertion
  | assertion a => [a]
  | capture _ body | group _ body | repeated body _ _ _ => body.assertions
  | seq first rest | alt first rest => first.assertions ++ rest.assertions
  | empty | literal _ | dot | shorthand _ _ | property _ _ | bracketed _ _ | setFlags _ => []

section
variable {looks : Set Look}

theorem Flags.classNode_within (f : Flags) (s : Unicode.CodeSet) :
    (f.classNode s).Within looks := by
  unfold classNode
  split <;> trivial

theorem Flags.literal_within (f : Flags) (l : Literal) : (f.literal l).Within looks := by
  unfold literal
  dsimp only
  split
  · trivial
  · split
    · trivial
    · exact f.classNode_within _

theorem Flags.dot_within (f : Flags) : f.dot.Within looks := by
  unfold dot
  dsimp only
  split
  · exact f.classNode_within _
  · split
    · exact f.classNode_within _
    · exact f.classNode_within _

theorem Node.repeatOf_within {body : Node} (h : body.Within looks) (least : Nat)
    (most : Option Nat) (greedy : Bool) : (body.repeatOf least most greedy).Within looks := by
  unfold repeatOf
  generalize (if body.matchesOnlyEmpty then _ else _ : Nat × Option Nat) = bounds
  obtain ⟨least', most'⟩ := bounds
  dsimp only
  split
  · trivial
  · split
    · exact h
    · exact h

/-- By induction on the tree. -/
theorem Flags.resolve_within {f f' : Flags} {tree : Tree} {node : Node} (hnum : tree.Numbered)
    (hlooks : ∀ a ∈ tree.assertions, ∀ f : Flags, f.look a ∈ looks)
    (h : f.resolve tree = .ok (node, f')) : node.Within looks := by
  induction tree generalizing f f' node with
  | empty =>
    cases h
    trivial
  | literal l =>
    cases h
    exact f.literal_within l
  | dot =>
    cases h
    exact f.dot_within
  | assertion a =>
    cases h
    exact hlooks a (List.mem_singleton_self a) f
  | shorthand c negated =>
    cases h
    exact f.classNode_within _
  | property p negated =>
    obtain ⟨s, -, h⟩ := bind_eq_ok.mp h
    cases h
    exact f.classNode_within _
  | bracketed negated body =>
    obtain ⟨s, -, h⟩ := bind_eq_ok.mp h
    cases h
    exact f.classNode_within _
  | setFlags changes =>
    cases h
    trivial
  | capture index body ih =>
    obtain ⟨⟨node', f''⟩, hbody, h⟩ := bind_eq_ok.mp h
    cases h
    exact ⟨hnum.1, ih hnum.2 hlooks hbody⟩
  | group changes body ih =>
    obtain ⟨⟨node', f''⟩, hbody, h⟩ := bind_eq_ok.mp h
    cases h
    exact ih hnum hlooks hbody
  | repeated body least most greedy ih =>
    obtain ⟨⟨node', f''⟩, hbody, h⟩ := bind_eq_ok.mp h
    cases h
    exact Node.repeatOf_within (ih hnum hlooks hbody) least most _
  | seq first rest ihfirst ihrest =>
    obtain ⟨⟨a, f₁⟩, hfirst, h⟩ := bind_eq_ok.mp h
    obtain ⟨⟨b, f₂⟩, hrest, h⟩ := bind_eq_ok.mp h
    cases h
    obtain ⟨hl, hr⟩ := List.forall_mem_append.mp hlooks
    exact ⟨ihfirst hnum.1 hl hfirst, ihrest hnum.2 hr hrest⟩
  | alt first rest ihfirst ihrest =>
    obtain ⟨⟨a, f₁⟩, hfirst, h⟩ := bind_eq_ok.mp h
    obtain ⟨⟨b, f₂⟩, hrest, h⟩ := bind_eq_ok.mp h
    cases h
    obtain ⟨hl, hr⟩ := List.forall_mem_append.mp hlooks
    exact ⟨ihfirst hnum.1 hl hfirst, ihrest hnum.2 hr hrest⟩

end

/-! ## The edges of words -/

/-- Whether a condition asks for the edge of a word. -/
def Assertion.isWordEdge : Assertion → Bool
  | wordBoundary | wordStart | wordEnd => true
  | startLine | endLine | startText | endText | notWordBoundary | wordStartHalf | wordEndHalf => false

/-- All other conditions hold in the empty line. -/
theorem Flags.look_holds_nil (f : Flags) {a : Assertion} (ha : a.isWordEdge = false) :
    (f.look a).holds [] [] = true := by
  obtain ⟨ignoreCase, multiLine, dotAll, swapGreed, unicode, crlf⟩ := f
  cases a with
  | wordBoundary | wordStart | wordEnd => cases ha
  | startText | endText => rfl
  | startLine | endLine => cases multiLine <;> cases crlf <;> rfl
  | notWordBoundary | wordStartHalf | wordEndHalf => cases unicode <;> rfl

end LineEditor.Regex

namespace LineEditor.Matcher

open Regex (Code Flags Look)

/-- The code of a pattern has no other conditions than the pattern. -/
theorem compile_framed {source : List Char} {ignoreCase binary : Bool} {m : Matcher}
    (h : compile source ignoreCase binary = .ok m) :
    ∃ (tree : Regex.Tree) (c : Code), Regex.parse source = .ok tree ∧ m = ⟨c.search⟩ ∧
      c.Framed {l : Look | ∃ a ∈ tree.assertions, ∃ f : Flags, l = f.look a} := by
  obtain ⟨tree, node, flags, hparse, hresolve, rfl⟩ := compile_eq_ok h
  refine ⟨tree, _, hparse, rfl, Code.ofNode_framed ?_⟩
  refine Flags.resolve_within (Regex.parse_numbered hparse) ?_ hresolve
  intro a ha f
  exact ⟨a, ha, f, rfl⟩

/-- An empty match that an empty line does not have stands at the edge of a word. -/
theorem compile_empty_match {source : List Char} {ignoreCase binary : Bool} {m : Matcher}
    (h : compile source ignoreCase binary = .ok m) (hnone : m.isMatch [] = false) :
    ∃ tree, Regex.parse source = .ok tree ∧ ∀ line start r, m.search line start = some r →
      r.start = r.stop → ∃ a ∈ tree.assertions, a.isWordEdge = true ∧ ∃ f : Flags,
        (f.look a).holds (line.take r.start).reverse (line.drop r.start) = true := by
  obtain ⟨tree, c, hparse, rfl, hc⟩ := compile_framed h
  refine ⟨tree, hparse, ?_⟩
  intro line start r hr hempty
  have hreach := Code.search_reaches hc hr hempty
  by_contra hno
  have hnil : c.Reaches (Regex.Place.inLine [] 0).holds 0 := by
    refine hreach.mono hc ?_
    rintro l ⟨a, ha, f, rfl⟩ hholds
    cases hedge : a.isWordEdge with
    | false => exact f.look_holds_nil hedge
    | true => exact absurd ⟨a, ha, hedge, f, hholds⟩ hno
  have hsome : (c.search [] 0).isSome = true := Code.isSome_search_of_reaches hc hnil
  exact Bool.false_ne_true (hnone.symm.trans hsome)

end LineEditor.Matcher

namespace LineEditor.Substitution

open Regex (Match Flags)

/-- A request that is let through meets no empty match, but where a condition of its pattern asks for
the edge of a word and finds one. -/
theorem empty_only_at_word_edge {source : List Char} {ignoreCase binary : Bool} {matcher : Matcher}
    (hc : Matcher.compile source ignoreCase binary = .ok matcher) {which : Occurrence}
    (hw : which ≠ .nth 1) (ha : isAmbiguous matcher which = false)
    (template : Bytes) (limit : Nat) (line : Bytes) :
    ∃ tree ms, Regex.parse source = .ok tree ∧ Meets matcher line 0 ms ∧
      apply matcher template which limit line =
        .ok (if which.choose ms = [] then .unchanged
          else if (rewrite line (Template.text template line) (which.choose ms)).length ≤ limit then
            .replaced (rewrite line (Template.text template line) (which.choose ms))
          else .tooLong) ∧
      ∀ m ∈ ms, m.start < m.stop ∨ ∃ a ∈ tree.assertions, a.isWordEdge = true ∧ ∃ f : Flags,
        (f.look a).holds (line.take m.start).reverse (line.drop m.start) = true := by
  have hfits := (Matcher.compile_bounded hc).fitsIn line
  have hnone : matcher.isMatch [] = false := by
    simpa [isAmbiguous, hw] using ha
  obtain ⟨tree, hparse, hedge⟩ := Matcher.compile_empty_match hc hnone
  obtain ⟨ms, hms⟩ := exists_meets hfits 0
  refine ⟨tree, ms, hparse, hms, hms.apply_eq hfits template which limit, ?_⟩
  intro m hm
  obtain ⟨start, hs⟩ := hms.found hm
  have hle := (hfits start m hs).le_stop
  by_cases hempty : m.start = m.stop
  · exact .inr (hedge line start m hs hempty)
  · exact .inl (by omega)

/-- No run of the letter `x` is empty. -/
theorem empty_only_at_word_edge_run :
    let matcher : Matcher := ⟨(Regex.Code.ofNode (.repeated (.bytes [120]) 1 none true)).search⟩
    Matcher.compile ['x', '+'] false false = .ok matcher ∧ Occurrence.all ≠ .nth 1 ∧
      isAmbiguous matcher .all = false ∧
      ∃ ms, Meets matcher [97, 120, 120] 0 ms ∧ ∀ m ∈ ms, m.start < m.stop := by
  intro matcher
  have hc : Matcher.compile ['x', '+'] false false = .ok matcher := rfl
  have ha : isAmbiguous matcher .all = false := by decide +kernel
  obtain ⟨tree, ms, hparse, hms, -, hedge⟩ :=
    empty_only_at_word_edge hc (by decide) ha [45] 100 [97, 120, 120]
  refine ⟨hc, by decide, ha, ms, hms, ?_⟩
  intro m hm
  rcases hedge m hm with hlt | ⟨a, hmem, -⟩
  · exact hlt
  · cases hparse
    cases hmem

/-- The edge of a word is empty, but the empty line has none. -/
theorem word_edge_is_empty :
    ∃ matcher, Matcher.compile ['\\', 'b'] false true = .ok matcher ∧
      isAmbiguous matcher .all = false ∧
      Meets matcher [97, 98] 0 [⟨0, 0, []⟩, ⟨2, 2, []⟩] ∧
      apply matcher [45] .all 100 [97, 98] = .ok (.replaced [45, 97, 98, 45]) := by
  refine ⟨⟨(Regex.Code.ofNode (.look (.boundary false))).search⟩, rfl, ?_, ?_, ?_⟩
  · decide +kernel
  · exact .next (by decide +kernel) (.next (by decide +kernel) (.done (by decide +kernel)))
  · decide +kernel

end LineEditor.Substitution
