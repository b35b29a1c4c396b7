import LineEditor.Command.Dispatch
import LineEditor.Proofs.Offsets

/-!
# Readers cut between characters

A reader looks at the character in front and then cuts off the bytes that it takes for it. It takes
one byte only for a character of one byte, and counts the bytes elsewhere, so it never cuts within a
character. What it reads is what the same reader finds that needs no offsets, and so is what a request
makes of a line.
-/

namespace LineEditor

theorem liftExcept_bind (x : Except EditError α) (f : α → Except EditError β) :
    (liftExcept (x >>= f) : Reading β) = liftExcept x >>= fun a => liftExcept (f a) := by
  cases x <;> rfl

theorem liftM_ok (a : α) : (liftM (.ok a : Except Breach α) : Reading α) = pure a := rfl

theorem liftReading_liftExcept (x : Except EditError α) :
    (liftReading (liftExcept x) : ExceptT EditError (StateT σ (Except Breach)) α) = liftExcept x := by
  cases x <;> rfl

namespace Slice

theorem size_singleton (c : Char) : size [c] = c.utf8Size := rfl

theorem behind_snoc (front rest : List Char) (c : Char) :
    behind (front ++ c :: rest) (size front + c.utf8Size) = .ok rest := by
  have hcut := behind_append (front ++ [c]) rest
  rwa [size_append, size_singleton, List.append_assoc] at hcut

theorem behind_cons {c : Char} (h : c.utf8Size = 1) (rest : List Char) :
    behind (c :: rest) 1 = .ok rest := by
  have hcut := behind_snoc [] rest c
  rwa [h] at hcut

end Slice

/-! ## Delimited texts -/

namespace Delimited

/-- What is read already is all that stands before the offset. -/
theorem readFrom_eq (delim : Char) (front s : List Char) :
    readFrom (front ++ s) delim (Slice.size front) s = .ok (scan delim s) := by
  induction s using scan.induct delim generalizing front with
  | case1 => rfl
  | case2 rest =>
    unfold readFrom scan
    rw [if_pos rfl, if_pos rfl, Slice.behind_snoc]
    rfl
  | case3 hne =>
    unfold readFrom scan
    rw [if_neg hne, if_neg hne]
    rfl
  | case4 d rest hne ih =>
    have hrest := ih (front ++ ['\\', d])
    rw [List.append_assoc, Slice.size_append, Slice.size_cons, Slice.size_singleton,
      ← Nat.add_assoc] at hrest
    unfold readFrom scan
    rw [if_neg hne, if_neg hne, if_pos rfl, if_pos rfl]
    exact congrArg (Functor.map (prepend (if d = delim then [d] else ['\\', d]))) hrest
  | case5 c rest hne hback ih =>
    have hrest := ih (front ++ [c])
    rw [List.append_assoc, Slice.size_append, Slice.size_singleton] at hrest
    unfold readFrom scan
    rw [if_neg hne, if_neg hne, if_neg hback, if_neg hback]
    exact congrArg (Functor.map (prepend [c])) hrest

theorem read_eq (delim : Char) (s : List Char) : read delim s = .ok (scan delim s) :=
  readFrom_eq delim [] s

theorem readFirst_eq (tail : List Char) : readFirst tail = liftExcept (first tail) := by
  cases tail with
  | nil => rfl
  | cons c rest =>
    unfold readFirst first
    simp only [read_eq]
    cases check c <;> rfl

theorem read_bind (delim : Char) (s : List Char)
    (f : Delimited → ExceptT EditError (StateT σ (Except Breach)) α) :
    (liftM (read delim s) >>= f) = f (scan delim s) := by
  rw [read_eq]
  rfl

theorem lift_readFirst (tail : List Char) :
    (liftReading (readFirst tail) : ExceptT EditError (StateT σ (Except Breach)) _) =
      liftExcept (first tail) := by
  rw [readFirst_eq, liftReading_liftExcept]

end Delimited

/-! ## Addresses and ranges -/

namespace Address

theorem takeDigits_eq (s : List Char) :
    takeDigits s = .ok (s.takeWhile Char.isDigit, s.dropWhile Char.isDigit) :=
  Slice.cut_eq_ok_iff.mpr ⟨List.takeWhile_append_dropWhile.symm, rfl⟩

theorem utf8Size_of_isSign {c : Char} (h : isSign c = true) : c.utf8Size = 1 := by
  simp only [isSign, Bool.or_eq_true, decide_eq_true_eq] at h
  rcases h with rfl | rfl <;> rfl

theorem utf8Size_of_isName {c : Char} (h : Labels.isName c = true) : c.utf8Size = 1 := by
  have hlt : c.toNat < 123 := by
    unfold Labels.isName Labels.index? at h
    split at h
    · rename_i hletter
      exact hletter.2
    · cases h
  rw [Char.utf8Size_eq_one_iff, UInt32.le_iff_toNat_le]
  exact Nat.le_of_lt (Nat.lt_trans hlt (by decide))

/-- Each offset takes a character at least, so the bound on their number is never met. -/
theorem readOffsets_eq (total : Int) (s : List Char) {fuel : Nat} (hfuel : s.length ≤ fuel) :
    readOffsets fuel total s = liftExcept (offsets total s) := by
  induction fuel generalizing total s with
  | zero =>
    rw [List.length_eq_zero_iff.mp (Nat.le_zero.mp hfuel), offsets]
    rfl
  | succ fuel ih =>
    cases s with
    | nil =>
      rw [offsets]
      rfl
    | cons c rest =>
      rw [readOffsets, offsets, List.head?_cons]
      dsimp only
      by_cases hsign : isSign c = true
      · have hrest : (rest.dropWhile Char.isDigit).length ≤ fuel :=
          Nat.le_trans (List.dropWhile_suffix _).length_le (Nat.le_of_succ_le_succ hfuel)
        rw [if_pos hsign, if_pos hsign, Slice.behind_cons (utf8Size_of_isSign hsign)]
        rw [liftM_ok, pure_bind, takeDigits_eq, liftM_ok, pure_bind]
        dsimp only
        split
        · rw [pure_bind, pure_bind]
          exact ih _ _ hrest
        · rw [liftExcept_bind]
          exact bind_congr fun n => ih _ _ hrest
      · rw [if_neg hsign, if_neg hsign]
        rfl

theorem readBase_eq (s : List Char) : readBase s = liftExcept (base? s) := by
  cases s with
  | nil => rfl
  | cons c rest =>
    unfold readBase base?
    rw [List.head?_cons]
    dsimp only
    by_cases hdigit : c.isDigit = true
    · rw [if_pos hdigit, if_pos hdigit, takeDigits_eq, liftM_ok, pure_bind, liftExcept_bind]
      exact bind_congr fun n => rfl
    rw [if_neg hdigit, if_neg hdigit]
    by_cases hdot : c = '.'
    · rw [if_pos hdot, if_pos hdot, Slice.behind_cons (by rw [hdot]; rfl)]
      rfl
    rw [if_neg hdot, if_neg hdot]
    by_cases hdollar : c = '$'
    · rw [if_pos hdollar, if_pos hdollar, Slice.behind_cons (by rw [hdollar]; rfl)]
      rfl
    rw [if_neg hdollar, if_neg hdollar]
    by_cases hquote : c = '\''
    · rw [if_pos hquote, if_pos hquote, Slice.behind_cons (by rw [hquote]; rfl), liftM_ok, pure_bind]
      cases rest with
      | nil => rfl
      | cons name rest =>
        rw [List.head?_cons]
        dsimp only
        by_cases hname : Labels.isName name = true
        · have hcut : Slice.behind (c :: name :: rest) 2 = .ok rest := by
            have hsize : Slice.size [c, name] = 2 := by
              rw [Slice.size_cons, Slice.size_singleton, utf8Size_of_isName hname, hquote]
              rfl
            rw [← hsize]
            exact Slice.behind_append [c, name] rest
          rw [if_pos hname, if_pos hname, hcut]
          rfl
        · rw [if_neg hname, if_neg hname]
          rfl
    rw [if_neg hquote, if_neg hquote]
    by_cases hslash : c = '/'
    · rw [if_pos hslash, if_pos hslash, Slice.behind_cons (by rw [hslash]; rfl), liftM_ok, pure_bind,
        Delimited.read_eq]
      rfl
    rw [if_neg hslash, if_neg hslash]
    by_cases hquestion : c = '?'
    · rw [if_pos hquestion, if_pos hquestion, Slice.behind_cons (by rw [hquestion]; rfl), liftM_ok,
        pure_bind, Delimited.read_eq]
      rfl
    rw [if_neg hquestion, if_neg hquestion]
    rfl

theorem read_eq (s : List Char) : read s = liftExcept (parse s) := by
  unfold read parse
  rw [readBase_eq, liftExcept_bind]
  refine bind_congr fun (base, behind) => ?_
  dsimp only
  rw [readOffsets_eq 0 behind (Nat.le_refl _), liftExcept_bind]
  refine bind_congr fun (offset, rest) => ?_
  cases base <;> rfl

theorem lift_read (s : List Char) :
    (liftReading (read s) : ExceptT EditError (StateT σ (Except Breach)) _) = liftExcept (parse s) := by
  rw [read_eq, liftReading_liftExcept]

end Address

namespace RangeExpr

theorem readAfterSeparator_eq (first : Address) (short : RangeExpr) (s : List Char) :
    readAfterSeparator first short s = liftExcept (afterSeparator first short s) := by
  unfold readAfterSeparator afterSeparator
  rw [Address.read_eq, liftExcept_bind]
  exact bind_congr fun found => by cases found <;> rfl

theorem read_eq (s : List Char) : read s = liftExcept (parse s) := by
  unfold read parse
  split
  · rfl
  · exact readAfterSeparator_eq _ _ _
  · exact readAfterSeparator_eq _ _ _
  · rw [Address.read_eq, liftExcept_bind]
    refine bind_congr fun found => ?_
    match found with
    | none => rfl
    | some (first, []) => rfl
    | some (first, sep :: rest) =>
      dsimp only [List.head?_cons]
      split
      · rename_i hsep
        have hcut : Slice.behind (sep :: rest) 1 = .ok rest := by
          refine Slice.behind_cons ?_ rest
          simp only [Bool.or_eq_true, decide_eq_true_eq] at hsep
          rcases hsep with rfl | rfl <;> rfl
        rw [hcut, liftM_ok, pure_bind, Address.read_eq, liftExcept_bind]
        exact bind_congr fun second => by cases second <;> rfl
      · rfl

end RangeExpr

namespace CommandLine

theorem read_eq (line : List Char) : read line = liftExcept (parse line) := by
  unfold read parse
  rw [RangeExpr.read_eq, liftExcept_bind]
  refine bind_congr fun (range, rest) => ?_
  dsimp only
  split <;> rfl

theorem lift_read (line : List Char) :
    (liftReading (read line) : ExceptT EditError (StateT σ (Except Breach)) _) =
      liftExcept (parse line) := by
  rw [read_eq, liftReading_liftExcept]

end CommandLine

/-- A revision, with the tokens told by the segments of the lines. -/
theorem SubstituteRequest.revise_eq (r : SubstituteRequest) (limit : Nat) (line : Bytes) :
    r.revise limit line = (do
      match ← Substitution.apply r.matcher r.template r.which limit line with
      | .unchanged => return none
      | .tooLong => throw (.resultTooLong limit)
      | .replaced new =>
        if Markup.sameTokens line new then return some (Bytes.splitOn Bytes.newline new)
        else throw .markupAltered) := by
  unfold revise
  simp only [Markup.keepsTokens_eq]
  rfl

end LineEditor
