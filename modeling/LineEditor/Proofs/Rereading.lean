import LineEditor.Proofs.Delimiters
import LineEditor.Proofs.Requests
import LineEditor.Proofs.Substituting

/-!
# A pattern that is read again

A substitution with an empty pattern uses the one that was used last. So what a global command has
searched for need not be written again in its subcommand; and a replacement that stands for the one
used last has become that one when it is read again.
-/

namespace LineEditor

/-! ## Delimited texts -/

namespace Delimited

variable {delim : Char}

/-- A text that ends at its delimiter does so whatever follows. By the cases of the scan; a backslash
takes along what follows it. -/
theorem scan_append (text : List Char) {body : List Char}
    (h : scan delim (text ++ [delim]) = ⟨body, [], true⟩) (rest : List Char) :
    scan delim (text ++ delim :: rest) = ⟨body, rest, true⟩ := by
  have hprepend {d : Delimited} {cs body : List Char} (hd : d.prepend cs = ⟨body, [], true⟩) :
      ∃ body', d = ⟨body', [], true⟩ ∧ body = cs ++ body' := by
    obtain ⟨body', rest', closed'⟩ := d
    cases hd
    exact ⟨body', rfl, rfl⟩
  induction text using scan.induct delim generalizing body with
  | case1 =>
    rw [List.nil_append, scan_delim] at h
    cases h
    exact scan_delim rest
  | case2 more =>
    rw [List.cons_append, scan_delim, Delimited.mk.injEq] at h
    simp at h
  | case3 hne =>
    rw [List.cons_append, List.nil_append, scan_escaped hne] at h
    obtain ⟨_, hnil, -⟩ := hprepend h
    cases hnil
  | case4 c more hne ih =>
    rw [List.cons_append, List.cons_append, scan_escaped hne] at h ⊢
    obtain ⟨body', hmore, rfl⟩ := hprepend h
    rw [ih hmore]
    rfl
  | case5 c more hne hback ih =>
    rw [List.cons_append, scan_plain hne hback] at h ⊢
    obtain ⟨body', hmore, rfl⟩ := hprepend h
    rw [ih hmore]
    rfl

end Delimited

/-- A text without white space at its ends is as it is when that is taken away. -/
theorem Unicode.trim_cons_append {first last : Char} (text : List Char)
    (hfirst : isSpace first = false) (hlast : isSpace last = false) :
    trim (first :: (text ++ [last])) = first :: (text ++ [last]) := by
  unfold trim trimStart
  rw [List.dropWhile_cons_of_neg (by simp [hfirst]), ← List.cons_append, List.reverse_append,
    List.reverse_singleton, List.singleton_append, List.dropWhile_cons_of_neg (by simp [hlast]),
    ← List.singleton_append, ← List.reverse_singleton, ← List.reverse_append, List.reverse_reverse,
    List.reverse_singleton]

/-! ## Requests that are read again -/

namespace SubstituteRequest

/-- The flags of a substitution of the first match of a line, or of all. -/
def flagsOf (all : Bool) : List Char := if all then ['g'] else []

/-- The matches that are replaced with these flags. -/
def whichOf (all : Bool) : Occurrence := if all then .all else .nth 1

/-- What a replacement stands for, where `replacement` is remembered. -/
def templateOf (replacement : Option (List Char)) (body : List Char) : Except EditError (List Char) :=
  if body = ['%'] then replacement.elim (.error .noRememberedReplacement) .ok else .ok body

/-- The request for a pattern and a replacement, and what is remembered of the replacement. -/
def settle (w : Window) (replacement : Option (List Char)) (source body : List Char)
    (which : Occurrence) : Except EditError (SubstituteRequest × List Char) := do
  let template ← templateOf replacement body
  let matcher ← w.compile source false
  if Substitution.isAmbiguous matcher which then .error .emptyMatchRepeat
  else .ok (⟨matcher, Utf8.ofChars template, which, none⟩, template)

theorem ends_resolveTemplate {body : List Char} {r : Recall} {post : Post Recall (List Char)} :
    Ends (resolveTemplate body) r post ↔ post (templateOf r.replacement body) r := by
  unfold resolveTemplate templateOf
  split
  · rw [ends_get_bind]
    cases r.replacement with
    | none => exact ends_throw
    | some template => exact ends_pure
  · exact ends_pure

/-- A replacement that is remembered is the same when it is read again. -/
theorem templateOf_again {replacement : Option (List Char)} {body template : List Char}
    (h : templateOf replacement body = .ok template) :
    templateOf (some template) body = .ok template := by
  unfold templateOf at h ⊢
  split
  · rfl
  · rename_i hown
    rwa [if_neg hown] at h

section
variable {w : Window} {replacement : Option (List Char)} {source body : List Char}
  {which : Occurrence}

theorem settle_eq_ok {request : SubstituteRequest} {template : List Char} :
    settle w replacement source body which = .ok (request, template) ↔
      templateOf replacement body = .ok template ∧ w.compile source false = .ok request.matcher ∧
        Substitution.isAmbiguous request.matcher which = false ∧
        request = ⟨request.matcher, Utf8.ofChars template, which, none⟩ := by
  unfold settle
  constructor
  · intro h
    obtain ⟨resolved, hresolved, h⟩ := bind_eq_ok.mp h
    obtain ⟨matcher, hmatcher, h⟩ := bind_eq_ok.mp h
    split at h
    · cases h
    · rename_i hambiguous
      obtain ⟨rfl, rfl⟩ := Prod.mk.inj (Except.ok.inj h)
      exact ⟨hresolved, hmatcher, by simpa using hambiguous, rfl⟩
  · rintro ⟨hresolved, hmatcher, hambiguous, hrequest⟩
    refine bind_eq_ok.mpr ⟨template, hresolved, bind_eq_ok.mpr ⟨request.matcher, hmatcher, ?_⟩⟩
    rw [if_neg (by simp [hambiguous]), ← hrequest]

theorem settle_again {request : SubstituteRequest} {template : List Char}
    (h : settle w replacement source body which = .ok (request, template)) {w' : Window}
    (hbinary : w'.flags.binary = w.flags.binary) :
    settle w' (some template) source body which = .ok (request, template) := by
  obtain ⟨htemplate, hmatcher, hrest⟩ := settle_eq_ok.mp h
  refine settle_eq_ok.mpr ⟨templateOf_again htemplate, ?_, hrest⟩
  unfold Window.compile
  rw [hbinary]
  exact hmatcher

/-- What is wrong with a request is not that there is no match. -/
theorem settle_ne_noMatch : settle w replacement source body which ≠ .error .noMatch := by
  have htemplate : templateOf replacement body ≠ .error .noMatch := by
    unfold templateOf
    split
    · cases replacement <;> simp
    · simp
  have hmatcher : w.compile source false ≠ .error .noMatch := by
    unfold Window.compile compilePattern
    split <;> simp [pure, Except.pure, throw, throwThe, MonadExceptOf.throw]
  unfold settle
  cases ht : templateOf replacement body with
  | error err =>
    rw [ht] at htemplate
    simpa [bind, Except.bind] using htemplate
  | ok template =>
    cases hm : w.compile source false with
    | error err =>
      rw [hm] at hmatcher
      simpa [bind, Except.bind] using hmatcher
    | ok matcher =>
      dsimp only [bind, Except.bind]
      split <;> simp

end

/-- How a request between slashes is read. -/
theorem parse_settles {v : View} {r : Recall} {written pattern replacing body source : List Char}
    (hp : Delimited.scan '/' (written ++ ['/']) = ⟨pattern, [], true⟩)
    (ht : Delimited.scan '/' (replacing ++ ['/']) = ⟨body, [], true⟩)
    (hsource : resolveSearch r.search pattern = .ok source) (all : Bool) :
    Ends (parse v ('/' :: (written ++ '/' :: (replacing ++ '/' :: flagsOf all)))) r fun answer r' =>
      match settle v.window r.replacement source body (whichOf all) with
      | .ok (request, template) => answer = .ok request ∧
        r' = { r with search := some source, replacement := some template }
      | .error err => answer = .error err ∧ r' = r := by
  have hflags : flags ⟨body, flagsOf all, true⟩ =
      .ok ⟨if all then some .all else none, false, none⟩ := by
    cases all <;> rfl
  have hwhich : (if all then some Occurrence.all else none).getD (.nth 1) = whichOf all := by
    cases all <;> rfl
  rw [parse_slash, Delimited.scan_append written hp]
  dsimp only
  rw [Delimited.scan_append replacing ht]
  simp only [Bool.not_true, Bool.false_eq_true, if_false]
  unfold settle
  rw [ends_bind, ends_liftExcept, hflags, Post.after_ok]
  dsimp only
  rw [Query.ends_resolve_bind hsource, ends_bind, ends_resolveTemplate]
  cases templateOf r.replacement body with
  | error err => exact ⟨rfl, rfl⟩
  | ok template =>
    rw [Post.after_ok, ends_bind, ends_liftExcept]
    cases hmatcher : v.window.compile source false with
    | error err => exact ⟨rfl, rfl⟩
    | ok matcher =>
      rw [Post.after_ok, hwhich]
      by_cases hambiguous : Substitution.isAmbiguous matcher (whichOf all) = true
      · rw [if_pos hambiguous]
        refine ends_throw.mpr ?_
        simp [hambiguous, bind, Except.bind]
      · rw [if_neg hambiguous]
        refine ends_modify_bind.mpr (ends_pure.mpr ?_)
        simp [hambiguous, bind, Except.bind]

end SubstituteRequest

end LineEditor
