import LineEditor.Proofs.Leads
import LineEditor.Regex.Parser

/-!
# Groups are numbered from one

The number 0 is that of the whole match. The reader of a pattern counts the groups that it opens, so
no group in the tree of a pattern has it.
-/

namespace LineEditor.Regex

/-- No group has the number of the whole match. -/
def Tree.Numbered : Tree → Prop
  | capture index body => 0 < index ∧ body.Numbered
  | group _ body => body.Numbered
  | repeated body _ _ _ => body.Numbered
  | seq first rest => first.Numbered ∧ rest.Numbered
  | alt first rest => first.Numbered ∧ rest.Numbered
  | empty | literal _ | dot | assertion _ | shorthand _ _ | property _ _ | bracketed _ _
  | setFlags _ => True

def OpenGroup.Numbered : OpenGroup → Prop
  | capture index => 0 < index
  | plain _ => True

structure Level.Numbered (level : Level) : Prop where
  parts : ∀ part ∈ level.parts, part.1.Numbered
  branches : ∀ branch ∈ level.branches, branch.1.Numbered

structure State.Numbered (s : State) : Prop where
  level : s.level.Numbered
  frames : ∀ frame ∈ s.frames, frame.group.Numbered ∧ frame.level.Numbered

/-- Joining parts, the first one last, joins the groups in them. -/
theorem foldl_numbered {join : Tree → Tree → Tree}
    (hjoin : ∀ a b : Tree, a.Numbered → b.Numbered → (join a b).Numbered) (parts : List (Deep Tree))
    (acc : Deep Tree) (hparts : ∀ part ∈ parts, part.1.Numbered) (hacc : acc.1.Numbered) :
    (parts.foldl (fun acc p => (join p.1 acc.1, max p.2 acc.2)) acc).1.Numbered := by
  induction parts generalizing acc with
  | nil => exact hacc
  | cons part parts ih =>
    obtain ⟨hpart, hrest⟩ := List.forall_mem_cons.mp hparts
    exact ih _ hrest (hjoin part.1 acc.1 hpart hacc)

theorem sequenceOf_numbered (parts : List (Deep Tree)) (h : ∀ part ∈ parts, part.1.Numbered) :
    (sequenceOf parts).1.Numbered := by
  match parts, h with
  | [], _ => trivial
  | [part], h => exact h part (List.mem_singleton_self _)
  | part :: second :: rest, h =>
    obtain ⟨hpart, hrest⟩ := List.forall_mem_cons.mp h
    have hjoin (a b : Tree) (ha : a.Numbered) (hb : b.Numbered) : (Tree.seq a b).Numbered :=
      ⟨ha, hb⟩
    exact foldl_numbered hjoin (second :: rest) part hrest hpart

namespace Level.Numbered

variable {level : Level} (h : level.Numbered)
include h

theorem close : level.close.1.Numbered := by
  have hlast := sequenceOf_numbered level.parts h.parts
  unfold Level.close
  dsimp only
  split
  · exact hlast
  · have hjoin (a b : Tree) (ha : a.Numbered) (hb : b.Numbered) : (Tree.alt a b).Numbered :=
      ⟨ha, hb⟩
    exact foldl_numbered hjoin level.branches _ h.branches hlast

theorem push {part : Deep Tree} (hpart : part.1.Numbered) : (level.push part).Numbered :=
  ⟨List.forall_mem_cons.mpr ⟨hpart, h.parts⟩, h.branches⟩

end Level.Numbered

theorem Level.numbered_nil : Level.Numbered ⟨[], []⟩ :=
  ⟨by simp, by simp⟩

theorem readClass_numbered {verbose : Bool} {cs rest : Chars} {part : Deep Tree}
    (h : readClass verbose cs = .ok (part, rest)) : part.1.Numbered := by
  unfold readClass at h
  obtain ⟨⟨negated, items, rest'⟩, -, h⟩ := bind_eq_ok.mp h
  obtain ⟨⟨⟨⟨negated', body⟩, depth⟩, rest''⟩, -, h⟩ := bind_eq_ok.mp h
  cases h
  trivial

theorem Atom.numbered (atom : Atom) : atom.toTree.Numbered := by
  cases atom <;> trivial

namespace State.Numbered

variable {s s' : State} (h : s.Numbered)
include h

theorem pushed {part : Deep Tree} (hpart : part.1.Numbered) :
    State.Numbered { s with level := s.level.push part } :=
  ⟨h.level.push hpart, h.frames⟩

theorem closeGroup (hs : s.closeGroup = .ok s') : s'.Numbered := by
  unfold State.closeGroup at hs
  split at hs
  · cases hs
  · rename_i frame frames hframes
    have hall := h.frames
    rw [hframes] at hall
    obtain ⟨⟨hgroup, hlevel⟩, hrest⟩ := List.forall_mem_cons.mp hall
    cases hs
    refine ⟨hlevel.push ?_, hrest⟩
    have hbody := h.level.close
    cases hkind : frame.group with
    | capture index =>
      rw [hkind] at hgroup
      exact ⟨hgroup, hbody⟩
    | plain changes => exact hbody

/-- A group that is opened keeps what stands around it. -/
theorem opened (group : OpenGroup) (hgroup : group.Numbered) (verbose verbose' : Bool)
    (captures : Nat) (names : List Chars) :
    State.Numbered ⟨⟨[], []⟩, ⟨group, s.level, verbose⟩ :: s.frames, verbose', captures, names⟩ :=
  ⟨Level.numbered_nil, List.forall_mem_cons.mpr ⟨⟨hgroup, h.level⟩, h.frames⟩⟩

theorem openGroup {opening : Opening} (hs : s.openGroup opening = .ok s') : s'.Numbered := by
  cases opening with
  | directive changes =>
    cases hs
    exact ⟨h.level.push trivial, h.frames⟩
  | plain changes =>
    cases hs
    exact h.opened (.plain changes) trivial _ _ _ _
  | numbered =>
    cases hs
    exact h.opened (.capture _) (Nat.succ_pos s.captures) _ _ _ _
  | named name =>
    unfold State.openGroup at hs
    dsimp only at hs
    split at hs
    · cases hs
    · cases hs
      exact h.opened (.capture _) (Nat.succ_pos s.captures) _ _ _ _

theorem takeLast {part : Deep Tree} (hs : s.takeLast = .ok (part, s')) :
    part.1.Numbered ∧ s'.Numbered := by
  unfold State.takeLast at hs
  split at hs
  · cases hs
  · cases hs
  · rename_i hparts
    cases hs
    have hall := h.level.parts
    rw [hparts] at hall
    obtain ⟨hpart, hrest⟩ := List.forall_mem_cons.mp hall
    exact ⟨hpart, ⟨hrest, h.level.branches⟩, h.frames⟩

theorem pushRepeated {part : Deep Tree} (hpart : part.1.Numbered) (least : Nat) (most : Option Nat)
    (rest : Chars) : (s.pushRepeated part least most rest).1.Numbered :=
  h.pushed hpart

/-- A part taken out of the level comes back into it repeated. -/
theorem repeatLast {least : Nat} {most : Option Nat} {cs rest : Chars}
    (hs : (do
      let (part, s) ← s.takeLast
      return s.pushRepeated part least most cs) = .ok (s', rest)) : s'.Numbered := by
  obtain ⟨⟨part, s''⟩, htake, hs⟩ := bind_eq_ok.mp hs
  obtain ⟨hpart, hs''⟩ := h.takeLast htake
  cases hs
  exact hs''.pushed hpart

theorem step {c : Char} {cs rest : Chars} (hs : s.step c cs = .ok (s', rest)) : s'.Numbered := by
  unfold State.step at hs
  split at hs
  · obtain ⟨⟨opening, rest'⟩, -, hs⟩ := bind_eq_ok.mp hs
    obtain ⟨s'', hopen, hs⟩ := bind_eq_ok.mp hs
    cases hs
    exact h.openGroup hopen
  · obtain ⟨s'', hclose, hs⟩ := bind_eq_ok.mp hs
    cases hs
    exact h.closeGroup hclose
  · cases hs
    refine ⟨⟨by simp, ?_⟩, h.frames⟩
    exact List.forall_mem_cons.mpr ⟨sequenceOf_numbered _ h.level.parts, h.level.branches⟩
  · obtain ⟨⟨part, rest'⟩, hclass, hs⟩ := bind_eq_ok.mp hs
    cases hs
    exact h.pushed (readClass_numbered hclass)
  · exact h.repeatLast hs
  · exact h.repeatLast hs
  · exact h.repeatLast hs
  · obtain ⟨⟨part, s''⟩, htake, hs⟩ := bind_eq_ok.mp hs
    obtain ⟨hpart, hs''⟩ := h.takeLast htake
    obtain ⟨⟨⟨least, most⟩, rest'⟩, -, hs⟩ := bind_eq_ok.mp hs
    have hpushed := hs''.pushRepeated hpart least most (skipIgnored s''.verbose rest')
    dsimp only at hs
    split at hs
    · split at hs
      · cases hs
        exact hpushed
      · cases hs
    · cases hs
      exact hpushed
  · obtain ⟨⟨atom, rest'⟩, -, hs⟩ := bind_eq_ok.mp hs
    cases hs
    exact h.pushed atom.numbered
  all_goals
    cases hs
    exact h.pushed trivial

theorem run (fuel : Nat) {cs : Chars} (hs : s.run fuel cs = .ok s') : s'.Numbered := by
  induction fuel generalizing s cs with
  | zero =>
    cases hs
    exact h
  | succ fuel ih =>
    unfold State.run at hs
    split at hs
    · cases hs
      exact h
    · obtain ⟨⟨s'', rest⟩, hstep, hs⟩ := bind_eq_ok.mp hs
      exact ih (h.step hstep) hs

end State.Numbered

theorem parse_numbered {pattern : Chars} {tree : Tree} (h : parse pattern = .ok tree) :
    tree.Numbered := by
  unfold parse at h
  obtain ⟨s, hrun, h⟩ := bind_eq_ok.mp h
  have hstart : State.Numbered ⟨⟨[], []⟩, [], false, 0, []⟩ := ⟨Level.numbered_nil, by simp⟩
  have hclosed := (hstart.run _ hrun).level.close
  split at h
  · dsimp only at h
    split at h
    · cases h
      exact hclosed
    · cases h
  · cases h

end LineEditor.Regex
