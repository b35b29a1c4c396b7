import LineEditor.Proofs.Query

/-!
# Substitution in a line

A matcher finds its matches in the line, one behind the other, so whatever is copied out of the line
is there. A line that is revised keeps its tokens, and comes out as the pieces of one new line.
-/

namespace LineEditor

/-! ## The parts of a template -/

namespace Template

/-- The part that starts with `b`, and how many of the bytes behind `b` belong to it. -/
def firstPart (b : UInt8) (rest : Bytes) : Part × Nat :=
  if b = 36 then
    match rest with
    | d :: _ => if Bytes.isDigit d then (.group (d.toNat - 48), 1) else (.literal b, 0)
    | [] => (.literal b, 0)
  else if b = 92 then
    match rest with
    | c :: more =>
      if isOctal c then
        let digits := c :: (more.take 2).takeWhile isOctal
        (.literal (octal digits), digits.length)
      else (.literal (escaped c), 1)
    | [] => (.literal b, 0)
  else (.literal b, 0)

/-- The parts of a template of which `skip` bytes belong to a part already given. -/
def partsFrom : Nat → Bytes → List Part
  | _, [] => []
  | skip + 1, _ :: rest => partsFrom skip rest
  | 0, b :: rest => (firstPart b rest).1 :: partsFrom (firstPart b rest).2 rest

def parts (template : Bytes) : List Part := partsFrom 0 template

theorem partsFrom_eq (n : Nat) (t : Bytes) : partsFrom n t = parts (t.drop n) := by
  induction t generalizing n with
  | nil => simp [partsFrom, parts]
  | cons b rest ih =>
    cases n with
    | zero => rfl
    | succ n => exact ih n

theorem parts_cons (b : UInt8) (rest : Bytes) :
    parts (b :: rest) = (firstPart b rest).1 :: parts (rest.drop (firstPart b rest).2) := by
  rw [← partsFrom_eq]
  rfl

section
variable {b c d : UInt8} {rest : Bytes}

theorem firstPart_plain (hdollar : b ≠ 36) (hback : b ≠ 92) : firstPart b rest = (.literal b, 0) := by
  unfold firstPart
  rw [if_neg hdollar, if_neg hback]

theorem firstPart_group (hd : Bytes.isDigit d = true) (rest : Bytes) :
    firstPart 36 (d :: rest) = (.group (d.toNat - 48), 1) := by
  simp [firstPart, hd]

theorem firstPart_dollar (hd : Bytes.isDigit d = false) (rest : Bytes) :
    firstPart 36 (d :: rest) = (.literal 36, 0) := by
  simp [firstPart, hd]

theorem firstPart_escaped (hc : isOctal c = false) (rest : Bytes) :
    firstPart 92 (c :: rest) = (.literal (escaped c), 1) := by
  simp [firstPart, hc]

theorem firstPart_octal (hc : isOctal c = true) (rest : Bytes) : firstPart 92 (c :: rest) =
    (.literal (octal (c :: (rest.take 2).takeWhile isOctal)),
      ((rest.take 2).takeWhile isOctal).length + 1) := by
  simp [firstPart, hc]

end

/-- The bytes that are looked at are there. -/
theorem partAt_append (front : Bytes) (b : UInt8) (rest : Bytes) :
    partAt (front ++ b :: rest).toArray front.length = .ok (firstPart b rest) := by
  have hfirst : Bytes.byteAt (front ++ b :: rest).toArray front.length = .ok b := by
    rw [Bytes.byteAt_toArray (by simp)]
    simp
  unfold partAt
  rw [hfirst]
  cases rest with
  | nil => simp [firstPart]
  | cons c more =>
    have hsecond : Bytes.byteAt (front ++ b :: c :: more).toArray (front.length + 1) = .ok c := by
      rw [Bytes.byteAt_toArray (by simp)]
      simp
    have hget : (front ++ b :: c :: more).toArray[front.length + 1]? = some c := by simp
    have hmore : (front ++ b :: c :: more).toArray.toList.drop (front.length + 2) = more := by
      rw [List.drop_append]
      simp
    have hlt : front.length + 1 < (front ++ b :: c :: more).toArray.size := by simp
    rw [hsecond, hget, hmore]
    show (if (decide (b = 36) && Bytes.isDigit c) = true then _ else if _ then _ else _) = _
    rw [decide_eq_true hlt, Bool.and_true]
    by_cases hdollar : b = 36
    · subst hdollar
      cases hdigit : Bytes.isDigit c with
      | true =>
        have hzero : 48 ≤ c.toNat := by
          simp only [Bytes.isDigit, Bool.and_eq_true, decide_eq_true_eq] at hdigit
          exact UInt8.le_iff_toNat_le.mp hdigit.1
        rw [firstPart_group hdigit]
        show (difference c.toNat 48 >>= _) = _
        rw [difference_of_le hzero]
        rfl
      | false =>
        rw [firstPart_dollar hdigit]
        rfl
    · rw [if_neg (by simp [hdollar])]
      by_cases hback : b = 92
      · subst hback
        show (if isOctal c = true then _ else _) = _
        cases hoctal : isOctal c with
        | true =>
          rw [firstPart_octal hoctal]
          rfl
        | false =>
          rw [firstPart_escaped hoctal]
          rfl
      · rw [firstPart_plain hdollar hback, if_neg (by simp [hback])]
        rfl

theorem partAt_toArray {template : Bytes} {i : Nat} (h : i < template.length) :
    partAt template.toArray i = .ok (firstPart template[i] (template.drop (i + 1))) := by
  have hpart := partAt_append (template.take i) template[i] (template.drop (i + 1))
  rwa [← List.drop_eq_getElem_cons h, List.take_append_drop,
    List.length_take_of_le (Nat.le_of_lt h)] at hpart

theorem readParts_drop (template : Bytes) {fuel i : Nat} (hfuel : template.length ≤ i + fuel) :
    readParts template.toArray fuel i = .ok (parts (template.drop i)) := by
  induction fuel generalizing i with
  | zero =>
    rw [List.drop_eq_nil_of_le (show template.length ≤ i from hfuel)]
    rfl
  | succ fuel ih =>
    unfold readParts
    rw [List.size_toArray]
    split
    · rename_i hlt
      rw [partAt_toArray hlt, List.drop_eq_getElem_cons hlt, parts_cons, List.drop_drop]
      exact congrArg (Functor.map _) (ih (by omega))
    · rw [List.drop_eq_nil_of_le (by omega)]
      rfl

theorem readParts_eq (template : Bytes) :
    readParts template.toArray template.length 0 = .ok (parts template) :=
  readParts_drop template (by omega)

theorem expand_eq (template line : Bytes) (m : Regex.Match) :
    expand template line m = (do return (← (parts template).mapM (Part.expand line m)).flatten) := by
  unfold expand
  rw [readParts_eq]
  rfl

end Template

section
variable {line : Bytes} {m : Regex.Match} {first : Nat}

theorem Template.expand_succeeds (hm : m.Within first line.length) (template : Bytes) :
    Succeeds (expand template line m) fun _ => True := by
  have hpart (part : Part) : Succeeds (part.expand line m) fun _ => True := by
    unfold Part.expand
    cases part with
    | literal b => simp
    | group i =>
      dsimp only
      cases hi : m.group? i with
      | none => simp
      | some ends =>
        obtain ⟨-, hle, hstop⟩ := hm i ends.1 ends.2 hi
        exact ⟨_, Bytes.slice_of_le hle hstop, trivial⟩
  rw [expand_eq]
  simp only [Succeeds.bind_iff, Succeeds.pure_iff]
  exact (succeeds_mapM fun part _ => hpart part).mono fun _ _ => trivial

theorem Template.replacement_succeeds (hm : m.Within first line.length) (template : Bytes) :
    Succeeds (replacement template line m) fun _ => True := by
  obtain ⟨-, hle, hstop⟩ := hm 0 m.start m.stop rfl
  unfold replacement
  split
  · simp only [Succeeds.bind_iff, Succeeds.pure_iff]
    exact ⟨_, Bytes.slice_of_le hle hstop, trivial⟩
  · exact expand_succeeds hm template

end

namespace Substitution

/-- What is written of a line ends where the search goes on, or before. -/
theorem walk_succeeds {matcher : Matcher} (hm : matcher.Bounded) (template : Bytes)
    (which : Occurrence) (limit : Nat) (line : Bytes) (fuel start seen : Nat) (d : Draft)
    (hd : d.done ≤ line.length) (hstart : d.done ≤ start) :
    Succeeds (walk matcher template which limit line fuel start seen d) fun o =>
      ∀ d', o = some d' → d'.done ≤ line.length := by
  have hself : Succeeds (pure (some d)) fun o : Option Draft => ∀ d', o = some d' → d'.done ≤ line.length :=
    Succeeds.pure_iff.mpr fun d' hd' => by cases hd'; exact hd
  induction fuel generalizing start seen d with
  | zero => exact hself
  | succ fuel ih =>
    unfold walk
    split
    · exact hself
    · rw [Succeeds.bind_iff, searchAt_of_le (by omega), Succeeds.ok_iff]
      cases hs : matcher.search line start with
      | none => exact hself
      | some m =>
        have hwithin := hm line start m hs
        obtain ⟨hfrom, hle, hstop⟩ := hwithin 0 m.start m.stop rfl
        have hnext : m.stop ≤ nextStart m := by
          unfold nextStart
          split <;> omega
        dsimp only
        split
        · simp only [Succeeds.bind_iff, Draft.replace, Succeeds.pure_iff]
          refine (Template.replacement_succeeds hwithin template).mono fun text _ => ?_
          rw [Bytes.slice_of_le (Nat.le_trans hstart hfrom) (Nat.le_trans hle hstop),
            Succeeds.ok_iff]
          generalize (line.drop d.done).take (m.start - d.done) = before
          have hself' : Succeeds (pure (some ((d.add before m.stop).add text m.stop)))
              fun o : Option Draft => ∀ d', o = some d' → d'.done ≤ line.length :=
            Succeeds.pure_iff.mpr fun d' hd' => by cases hd'; exact hstop
          split
          · simp
          · split
            · exact hself'
            · exact ih _ _ _ hstop hnext hself'
        · exact ih _ _ _ hd (by omega) hself

theorem apply_succeeds {matcher : Matcher} (hm : matcher.Bounded) (template : Bytes)
    (which : Occurrence) (limit : Nat) (line : Bytes) :
    Succeeds (apply matcher template which limit line) fun _ => True := by
  unfold apply
  rw [Succeeds.bind_iff]
  refine (walk_succeeds hm template which limit line _ 0 0 .start (Nat.zero_le _)
    (Nat.le_refl _)).mono fun o ho => ?_
  cases o with
  | none => exact Succeeds.pure_iff.mpr trivial
  | some d =>
    dsimp only
    split
    · exact Succeeds.pure_iff.mpr trivial
    · simp only [Draft.finish, Succeeds.bind_iff, Succeeds.pure_iff]
      exact ⟨_, Bytes.slice_of_le (ho d rfl) (Nat.le_refl _), trivial⟩

end Substitution

/-- The pieces between newlines of a line with the same tokens. -/
def Rewrites (line : Bytes) (pieces : List Bytes) : Prop :=
  ∃ new, Markup.sameTokens line new = true ∧ pieces = Bytes.splitOn Bytes.newline new

theorem Rewrites.ne_nil {line : Bytes} {pieces : List Bytes} (h : Rewrites line pieces) :
    pieces ≠ [] := by
  obtain ⟨new, -, rfl⟩ := h
  exact Bytes.splitOn_ne_nil _ _

namespace SubstituteRequest

section
variable {r : SubstituteRequest}

theorem revise_yields (hr : r.matcher.Bounded) (limit : Nat) (line : Bytes) :
    Query.Yields (r.revise limit line) fun new =>
      ∀ pieces, new = some pieces → Rewrites line pieces := by
  rw [revise_eq]
  refine (Query.Yields.lift (Substitution.apply_succeeds hr _ _ _ line)).bind fun revision _ => ?_
  cases revision with
  | unchanged => exact .pure (by simp)
  | tooLong => exact .throw rfl
  | replaced new =>
    dsimp only
    split
    · refine .pure fun pieces hp => ?_
      cases hp
      exact ⟨new, ‹_›, rfl⟩
    · exact .throw rfl

/-- The lines that change are some of those given, in the same order. -/
theorem reviseAll_yields (hr : r.matcher.Bounded) (limit : Nat) (lines : List (Nat × Bytes)) :
    Query.Yields (r.reviseAll limit lines) fun changes =>
      (changes.map Prod.fst).Sublist (lines.map Prod.fst) ∧
        ∀ c ∈ changes, ∃ line, (c.1, line) ∈ lines ∧ Rewrites line c.2 := by
  induction lines with
  | nil => exact .pure ⟨List.nil_sublist _, by simp⟩
  | cons line rest ih =>
    unfold reviseAll
    refine (revise_yields hr limit line.2).bind fun new hnew => ih.bind fun changes hc => ?_
    have hrest : ∀ c ∈ changes, ∃ text, (c.1, text) ∈ line :: rest ∧ Rewrites text c.2 := by
      intro c hmem
      obtain ⟨text, htext, hrew⟩ := hc.2 c hmem
      exact ⟨text, List.mem_cons_of_mem _ htext, hrew⟩
    cases new with
    | none => exact .pure ⟨hc.1.trans (List.sublist_cons_self _ _), hrest⟩
    | some pieces =>
      refine .pure ⟨hc.1.cons_cons _, List.forall_mem_cons.mpr ⟨?_, hrest⟩⟩
      exact ⟨line.2, List.mem_cons_self, hnew pieces rfl⟩

end

end SubstituteRequest

end LineEditor
