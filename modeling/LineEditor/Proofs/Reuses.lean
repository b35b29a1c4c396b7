import LineEditor.Proofs.CommandLines
import LineEditor.Proofs.Delimiters
import LineEditor.Proofs.Globals
import LineEditor.Proofs.Remembered
import LineEditor.Proofs.Substituting

/-!
# Searching again

An empty pattern stands for the one that was remembered last. What it comes to is known from the text
alone: it is compiled again, with case respected, for the window as it is now.
-/

namespace LineEditor

/-! ## Case ignored and respected -/

namespace Regex.Flags

open LineEditor.Unicode (CodeSet)

section
variable {f g : Flags}

theorem element_congr (h : f.unicode = g.unicode) (l : Literal) : f.element l = g.element l := by
  unfold element
  rw [h]

theorem apply_unicode (h : f.unicode = g.unicode) (changes : FlagChanges) :
    (f.apply changes).unicode = (g.apply changes).unicode := by
  unfold apply
  rw [h]

theorem property_alike (h : f.unicode = g.unicode) {p : PropertyName} {negated : Bool} {s : CodeSet}
    (hs : f.property p negated = .ok s) : ∃ s', g.property p negated = .ok s' := by
  unfold property at hs ⊢
  rw [← h]
  split at hs
  · cases hs
  · rename_i hunicode
    rw [if_neg hunicode]
    cases p with
    | alone name =>
      dsimp only at hs ⊢
      cases hp : Unicode.property? name with
      | none => rw [hp] at hs; cases hs
      | some set => exact ⟨_, rfl⟩
    | valued name value =>
      dsimp only at hs ⊢
      cases hp : Unicode.propertyValue name value with
      | error fault => rw [hp] at hs; cases fault <;> cases hs
      | ok set => exact ⟨_, rfl⟩

theorem members_alike (h : f.unicode = g.unicode) {c : ClassTree} {s : CodeSet}
    (hs : f.members c = .ok s) : ∃ s', g.members c = .ok s' := by
  -- on the class
  induction c generalizing s with
  | nothing => exact ⟨_, rfl⟩
  | literal l =>
    unfold members at hs ⊢
    rw [← element_congr h]
    exact ⟨s, hs⟩
  | range first last =>
    unfold members at hs ⊢
    rw [← element_congr h, ← element_congr h]
    exact ⟨s, hs⟩
  | ascii c negated => exact ⟨_, rfl⟩
  | shorthand c negated => exact ⟨_, rfl⟩
  | property p negated => exact property_alike h hs
  | bracketed negated body ih =>
    obtain ⟨a, ha, -⟩ := bind_eq_ok.mp hs
    obtain ⟨a', ha'⟩ := ih ha
    exact ⟨_, bind_eq_ok.mpr ⟨a', ha', rfl⟩⟩
  | union first rest ihfirst ihrest =>
    obtain ⟨a, ha, hs⟩ := bind_eq_ok.mp hs
    obtain ⟨b, hb, -⟩ := bind_eq_ok.mp hs
    obtain ⟨a', ha'⟩ := ihfirst ha
    obtain ⟨b', hb'⟩ := ihrest hb
    exact ⟨_, bind_eq_ok.mpr ⟨a', ha', bind_eq_ok.mpr ⟨b', hb', rfl⟩⟩⟩
  | combine op left right ihleft ihright =>
    obtain ⟨a, ha, hs⟩ := bind_eq_ok.mp hs
    obtain ⟨b, hb, -⟩ := bind_eq_ok.mp hs
    obtain ⟨a', ha'⟩ := ihleft ha
    obtain ⟨b', hb'⟩ := ihright hb
    unfold members
    rw [ha', hb']
    cases op <;> exact ⟨_, rfl⟩

/-- Whether a tree has a meaning depends on no flag but that of Unicode. -/
theorem resolve_alike (h : f.unicode = g.unicode) {t : Tree} {n : Node} {f' : Flags}
    (hn : f.resolve t = .ok (n, f')) :
    ∃ n' g', g.resolve t = .ok (n', g') ∧ f'.unicode = g'.unicode := by
  -- on the tree, with the flags that are handed on
  induction t generalizing f g n f' with
  | empty | literal l | dot | assertion a | shorthand c negated =>
    cases hn
    exact ⟨_, _, rfl, h⟩
  | property p negated =>
    obtain ⟨s, hs, heq⟩ := bind_eq_ok.mp hn
    cases heq
    obtain ⟨s', hs'⟩ := property_alike h hs
    exact ⟨_, _, bind_eq_ok.mpr ⟨s', hs', rfl⟩, h⟩
  | bracketed negated body =>
    obtain ⟨s, hs, heq⟩ := bind_eq_ok.mp hn
    cases heq
    obtain ⟨s', hs'⟩ := members_alike h hs
    exact ⟨_, _, bind_eq_ok.mpr ⟨s', hs', rfl⟩, h⟩
  | setFlags changes =>
    cases hn
    exact ⟨_, _, rfl, apply_unicode h changes⟩
  | capture index body ih | repeated body least most greedy ih =>
    obtain ⟨⟨a, f₁⟩, ha, heq⟩ := bind_eq_ok.mp hn
    cases heq
    obtain ⟨a', g₁, ha', -⟩ := ih h ha
    exact ⟨_, _, bind_eq_ok.mpr ⟨_, ha', rfl⟩, h⟩
  | group changes body ih =>
    obtain ⟨⟨a, f₁⟩, ha, heq⟩ := bind_eq_ok.mp hn
    cases heq
    obtain ⟨a', g₁, ha', -⟩ := ih (apply_unicode h changes) ha
    exact ⟨_, _, bind_eq_ok.mpr ⟨_, ha', rfl⟩, h⟩
  | seq first rest ihfirst ihrest | alt first rest ihfirst ihrest =>
    obtain ⟨⟨a, f₁⟩, ha, hn⟩ := bind_eq_ok.mp hn
    obtain ⟨⟨b, f₂⟩, hb, heq⟩ := bind_eq_ok.mp hn
    cases heq
    obtain ⟨a', g₁, ha', h₁⟩ := ihfirst h ha
    obtain ⟨b', g₂, hb', h₂⟩ := ihrest h₁ hb
    exact ⟨_, _, bind_eq_ok.mpr ⟨_, ha', bind_eq_ok.mpr ⟨_, hb', rfl⟩⟩, h₂⟩

end

end Regex.Flags

/-- By any measure of size, a pattern that compiles does so whether case is ignored or not, unless it is
too big then. -/
theorem Matcher.compileBy_recased {size : Regex.Node → Nat} {source : List Char}
    {ignoreCase binary : Bool} {m : Matcher} (h : compileBy size source ignoreCase binary = .ok m)
    (ignoreCase' : Bool) : (∃ m', compileBy size source ignoreCase' binary = .ok m') ∨
      compileBy size source ignoreCase' binary = .error .tooBig := by
  obtain ⟨n, hn, -, -⟩ := compileBy_eq_ok.mp h
  obtain ⟨tree, flags, htree, hnode⟩ := node_eq_ok.mp hn
  have hunicode : (startFlags ignoreCase binary).unicode = (startFlags ignoreCase' binary).unicode := rfl
  obtain ⟨n', flags', hnode', -⟩ := Regex.Flags.resolve_alike hunicode hnode
  rw [compileBy_eq, node_eq_ok.mpr ⟨tree, flags', htree, hnode'⟩]
  by_cases hbig : Regex.sizeLimit < size n'
  · exact .inr (if_pos hbig)
  · exact .inl ⟨_, if_neg hbig⟩

/-- A text that compiles with case ignored or not does so with case respected, unless it is too big
then. -/
theorem Compiles.respected {w : Window} {source : List Char} (h : Compiles source w.flags.binary) :
    (∃ m, w.compile source false = .ok m) ∨ ((∃ m, w.compile source true = .ok m) ∧
      w.compile source false = .error (.malformed (.syntaxFault .tooBig))) := by
  obtain ⟨ignoreCase, m, hm⟩ := h
  cases ignoreCase with
  | false => exact .inl ⟨m, hm⟩
  | true =>
    have hmatcher : Matcher.compile source true w.flags.binary = .ok m := by
      unfold compilePattern at hm
      split at hm
      · rename_i m' hm'
        cases hm
        exact hm'
      · cases hm
    have hcases : (∃ m', Matcher.compile source false w.flags.binary = .ok m') ∨
        Matcher.compile source false w.flags.binary = .error .tooBig :=
      Matcher.compileBy_recased hmatcher false
    unfold Window.compile compilePattern
    rcases hcases with ⟨m', hm'⟩ | hbig
    · rw [hm']
      exact .inl ⟨m', rfl⟩
    · rw [hmatcher, hbig]
      exact .inr ⟨⟨m, rfl⟩, rfl⟩

/-! ## Lines that search again -/

/-- A line that asks for what is remembered and for no other pattern, with no flags. -/
inductive SearchesAgain : List Char → Prop
  | forward : SearchesAgain ['/', '/']
  | backward : SearchesAgain ['?', '?']
  | global (inverted : Bool) (subcommand : List Char) :
      SearchesAgain ((Command.global inverted).letter :: '/' :: '/' :: subcommand)
  | substitute {template : List Char} : '/' ∉ template →
      SearchesAgain ('s' :: '/' :: '/' :: (template ++ ['/']))

/-! ## Faults of patterns -/

/-- Where a pattern is refused, `P` is true of the fault. -/
def Faults (P : PatternFault → Prop) : Post σ α
  | .error (.malformed fault), _ => P fault
  | _, _ => True

/-- Wherever the action is run, a pattern that it refuses has a fault of which `P` is true. -/
def Blames (P : PatternFault → Prop) (x : ExceptT EditError (StateT σ (Except Breach)) α) : Prop :=
  ∀ s, Leads x s (Faults P)

section
variable {P : PatternFault → Prop} {s : σ}

theorem faults_error {err : EditError} (h : ∀ fault, err = .malformed fault → P fault) :
    Faults P (.error err : Except EditError α) s := by
  cases err with
  | malformed fault => exact h fault rfl
  | _ => exact trivial

theorem Faults.error {err : EditError} (h : Faults P (.error err : Except EditError α) s)
    {s' : σ'} : Faults P (.error err : Except EditError β) s' := by
  cases err with
  | malformed fault => exact h
  | _ => exact trivial

theorem Leads.then_blames {x : ExceptT EditError (StateT σ (Except Breach)) α}
    {f : α → ExceptT EditError (StateT σ (Except Breach)) β} (hx : Leads x s (Faults P))
    (hf : ∀ a, Blames P (f a)) : Leads (x >>= f) s (Faults P) :=
  hx.then (fun a s' _ => hf a s') fun _ _ h => h.error

namespace Blames

protected theorem pure (a : α) : Blames P (pure a : ExceptT EditError (StateT σ (Except Breach)) α) :=
  fun _ => leads_pure.mpr trivial

protected theorem throw {err : EditError} (h : ∀ fault, err ≠ .malformed fault) :
    Blames P (throw err : ExceptT EditError (StateT σ (Except Breach)) α) :=
  fun _ => leads_throw.mpr (faults_error fun fault heq => absurd heq (h fault))

protected theorem get : Blames P (get : ExceptT EditError (StateT σ (Except Breach)) σ) := by
  rintro s _ _ ⟨⟩
  exact trivial

protected theorem set (s : σ) : Blames P (set s : ExceptT EditError (StateT σ (Except Breach)) PUnit) :=
  fun _ => leads_set.mpr trivial

protected theorem modify (f : σ → σ) :
    Blames P (modify f : ExceptT EditError (StateT σ (Except Breach)) PUnit) :=
  fun _ => leads_modify.mpr trivial

protected theorem lift (y : Except Breach α) :
    Blames P (liftM y : ExceptT EditError (StateT σ (Except Breach)) α) :=
  fun _ => leads_lift.mpr fun _ _ => trivial

protected theorem liftExcept {y : Except EditError α}
    (h : ∀ fault, y = .error (.malformed fault) → P fault) :
    Blames P (liftExcept y : ExceptT EditError (StateT σ (Except Breach)) α) := by
  intro s
  rw [leads_liftExcept]
  cases y with
  | ok a => exact trivial
  | error err => exact faults_error fun fault heq => h fault (by rw [heq])

protected theorem bind {x : ExceptT EditError (StateT σ (Except Breach)) α}
    {f : α → ExceptT EditError (StateT σ (Except Breach)) β} (hx : Blames P x)
    (hf : ∀ a, Blames P (f a)) : Blames P (x >>= f) :=
  fun s => (hx s).then_blames hf

end Blames

end

/-! ## Texts between delimiters -/

/-- Behind the last delimiter nothing is left to be read. -/
theorem Delimited.rest_of_last {delim : Char} (hne : '\\' ≠ delim) {text : List Char} (h : delim ∉ text) :
    (scan delim (text ++ [delim])).rest = [] := by
  obtain ⟨hread, htext⟩ := scan_read hne (text ++ [delim])
  cases hclosed : (scan delim (text ++ [delim])).closed with
  | false => exact hread.rest_eq_nil hclosed
  | true =>
    rw [Delimited.text, hclosed, if_pos rfl] at htext
    rcases List.eq_nil_or_concat (scan delim (text ++ [delim])).rest with hrest | ⟨rest, c, hrest⟩
    · exact hrest
    · rw [hrest, List.concat_eq_append, ← List.cons_append, ← List.append_assoc] at htext
      obtain ⟨hfront, -⟩ := List.append_inj' htext rfl
      refine absurd ?_ h
      rw [← hfront]
      exact List.mem_append_right _ List.mem_cons_self

theorem SubstituteRequest.flags_of_last {template : List Char} (h : '/' ∉ template) :
    flags (Delimited.scan '/' (template ++ ['/'])) = .ok ⟨none, false, none⟩ := by
  unfold flags
  rw [Delimited.rest_of_last (by decide) h, ite_self]
  rfl

/-! ## Looking around -/

/-- The fault of the search text when it is compiled again. -/
def Window.Faulty (w : Window) (search : Option (List Char)) (fault : PatternFault) : Prop :=
  ∃ source, search = some source ∧ w.compile source false = .error (.malformed fault)

theorem Query.blames_checkInterrupt {P : PatternFault → Prop} : Blames P checkInterrupt := by
  unfold checkInterrupt
  refine .bind .get fun r => ?_
  split
  · exact Blames.bind (.modify _) fun _ => .throw nofun
  · exact .pure _

/-- An empty pattern stands for the text that is remembered. -/
theorem Query.leads_resolve_nil {r : Recall} {P : PatternFault → Prop} {f : List Char → Query α}
    (hf : ∀ source, r.search = some source → Blames P (f source)) :
    Leads (resolve [] >>= f) r (Faults P) := by
  unfold resolve
  rw [bind_assoc, leads_get_bind, leads_bind, leads_liftExcept]
  unfold resolveSearch
  rw [List.isEmpty_nil, if_pos rfl]
  cases hs : r.search with
  | none => exact trivial
  | some source => exact hf source hs r

theorem Window.blames_compile (w : Window) {search : Option (List Char)} {source : List Char}
    (hsource : search = some source) :
    Blames (w.Faulty search) (liftExcept (w.compile source false) : Query Matcher) :=
  .liftExcept fun _ hfault => ⟨source, hsource, hfault⟩

namespace View

section
variable (v : View) {r : Recall} {P : PatternFault → Prop}

theorem blames_searchFrom (dot : Nat) (forward : Bool) (matcher : Matcher) (count n : Nat) :
    Blames P (v.searchFrom dot forward matcher count n) := by
  induction count generalizing n with
  | zero => exact .throw nofun
  | succ count ih =>
    unfold searchFrom
    refine Query.blames_checkInterrupt.bind fun _ => (Blames.lift _).bind fun n => ?_
    split
    · exact .throw nofun
    · refine (Blames.lift _).bind fun shown => ?_
      split
      · split
        · exact .pure _
        · exact ih n
      · exact ih n

theorem search_faults (dot : Nat) (forward : Bool) :
    Leads (v.search dot forward []) r (Faults (v.window.Faulty r.search)) := by
  unfold search
  refine Query.leads_resolve_nil fun source hsource => ?_
  refine (v.window.blames_compile hsource).bind fun matcher => ?_
  exact Blames.bind (.modify _) fun _ => v.blames_searchFrom dot forward matcher _ _

theorem blames_ordered (start stop given : Nat) : Blames P (ordered start stop given) := by
  unfold ordered
  split
  · exact .throw nofun
  · exact .pure _

/-- The checks of a range refuse no pattern. -/
theorem blames_checked (cmd : Option Command) (given : Option LineRange) : Blames P (do
    let range ← liftExcept (effectiveRange v.window.dot v.window.dol false cmd given)
    liftExcept (checkZero cmd range.start)
    return range : Query LineRange) := by
  refine (Blames.liftExcept fun fault h => ?_).bind fun range =>
    (Blames.liftExcept fun fault h => ?_).bind fun _ => .pure _
  · unfold effectiveRange at h
    dsimp only at h
    repeat' split at h
    all_goals cases h
  · unfold checkZero at h
    split at h <;> cases h

/-- Where no lines are typed, nothing is looked for. -/
theorem blames_locate_default (cmd : Option Command) : Blames P (v.locate false cmd .default) :=
  (Blames.pure none).bind fun given => v.blames_checked cmd given

theorem locate_default_keeps (cmd : Option Command) :
    Leads (v.locate false cmd .default) r fun _ r' => r' = r := by
  unfold locate
  refine leads_bind.mpr (leads_pure.mpr ?_)
  refine leads_reads (effectiveRange_reads false cmd none) (fun range _ => ?_) fun _ => rfl
  exact leads_reads (checkZero_reads cmd range.start) (fun _ _ => leads_pure.mpr rfl) fun _ => rfl

/-- To go where the remembered text is found next is to search for it. -/
theorem locate_again_faults {b : Base} (hb : b = .forward [] ∨ b = .backward []) (cmd : Option Command) :
    Leads (v.locate false cmd (.one ⟨b, 0⟩)) r (Faults (v.window.Faulty r.search)) := by
  have hbase : Leads (v.base v.window.dot b) r (Faults (v.window.Faulty r.search)) := by
    rcases hb with rfl | rfl
    · exact v.search_faults _ true
    · exact v.search_faults _ false
  have haddress : Leads (v.address v.window.dot ⟨b, 0⟩) r (Faults (v.window.Faulty r.search)) := by
    unfold address
    refine hbase.then_blames fun n => ?_
    dsimp only
    split
    · exact .throw nofun
    · split
      · exact .throw nofun
      · exact .pure _
  have hrange := haddress.then_blames fun n => blames_ordered n n 1
  exact hrange.then_blames fun given => v.blames_checked cmd given

/-! ## Global commands and substitutions -/

theorem globalRequest_again_faults (inverted : Bool) (range : LineRange) (text : List Char) :
    Leads (GlobalRequest.parse v inverted range ('/' :: '/' :: text)) r
      (Faults (v.window.Faulty r.search)) := by
  rw [GlobalRequest.parse_slash, Delimited.scan_delim]
  refine Query.leads_resolve_nil fun source hsource => ?_
  refine (v.window.blames_compile hsource).bind fun matcher => Blames.bind (.modify _) fun _ => ?_
  refine Query.blames_checkInterrupt.bind fun _ => (Blames.lift _).bind fun lines => ?_
  dsimp only
  split
  · exact .throw nofun
  · exact .pure _

theorem blames_reviseAll (request : SubstituteRequest) (limit : Nat) (lines : List (Nat × Bytes)) :
    Blames P (request.reviseAll limit lines) := by
  -- on the lines to be revised
  induction lines with
  | nil => exact .pure _
  | cons line lines ih =>
    have hrevise : Blames P (request.revise limit line.2) := by
      rw [SubstituteRequest.revise_eq]
      refine (Blames.lift _).bind fun outcome => ?_
      split
      · exact .pure _
      · exact .throw nofun
      · split
        · exact .pure _
        · exact .throw nofun
    unfold SubstituteRequest.reviseAll
    refine hrevise.bind fun new => ih.bind fun changes => ?_
    split <;> exact .pure _

theorem blames_resolveTemplate (body : List Char) :
    Blames P (SubstituteRequest.resolveTemplate body) := by
  unfold SubstituteRequest.resolveTemplate
  split
  · refine .bind .get fun r => ?_
    split
    · exact .pure _
    · exact .throw nofun
  · exact .pure _

theorem planSubstitute_again_faults (range : LineRange) {template : List Char} (h : '/' ∉ template) :
    Leads (v.planSubstitute range ('/' :: '/' :: (template ++ ['/']))) r
      (Faults (v.window.Faulty r.search)) := by
  have hparse : Leads (SubstituteRequest.parse v ('/' :: '/' :: (template ++ ['/']))) r
      (Faults (v.window.Faulty r.search)) := by
    rw [SubstituteRequest.parse_slash, Delimited.scan_delim]
    dsimp only
    rw [if_neg (by simp), SubstituteRequest.flags_of_last h, leads_bind, leads_liftExcept, Post.after_ok]
    refine Query.leads_resolve_nil fun source hsource => (blames_resolveTemplate _).bind fun body => ?_
    refine (v.window.blames_compile hsource).bind fun matcher => ?_
    dsimp only
    split
    · exact .throw nofun
    · exact Blames.bind (.modify _) fun _ => .pure _
  unfold planSubstitute
  refine hparse.then_blames fun request => Query.blames_checkInterrupt.bind fun _ => ?_
  refine (Blames.lift _).bind fun texts => (blames_reviseAll request _ _).bind fun changes => ?_
  split
  · exact .throw nofun
  · refine (Blames.lift _).bind fun extra => (Blames.liftExcept fun fault hfault => ?_).bind fun _ => .pure _
    unfold checkCapacity at hfault
    split at hfault <;> cases hfault

end

end View

namespace EditM

section
variable {P : PatternFault → Prop}

theorem query_faults {e : Engine} {q : View → Query α}
    (hq : Leads (q e.view) e.remembered (Faults P)) : Leads (query q) e (Faults P) := by
  refine leads_query.mpr (hq.mono fun answer r h => ?_)
  cases answer with
  | ok a => exact trivial
  | error err => exact h.error

theorem blames_onWindow (f : Window → Pool → Except Breach (Window × Pool)) :
    Blames P (onWindow f) := by
  unfold onWindow
  exact .bind .get fun e => (Blames.lift _).bind fun r => .set _

theorem blames_snapshot : Blames P snapshot := by
  unfold snapshot
  exact .bind .get fun e => (Blames.lift _).bind fun r => .set _

theorem blames_carryOut (inGlobal : Bool) (plan : Plan) : Blames P (carryOut inGlobal plan) := by
  have hprint (print : Option PrintStyle) : Blames P (printDot print) := by
    unfold printDot
    refine .bind .get fun e => ?_
    split
    · exact .lift _
    · exact .pure _
  cases plan with
  | look dot output =>
    cases dot with
    | none => exact .bind (.pure _) fun _ => .pure _
    | some n => exact (blames_onWindow _).bind fun _ => .pure _
  | label name line => exact Blames.bind (.modify _) fun _ => .pure _
  | edit change shapeChanged print =>
    have hedit : Blames P (do
        edit change
        return Report.ofEdit shapeChanged (← printDot print)) :=
      Blames.bind (.bind (blames_onWindow _) fun _ => .modify _) fun _ =>
        (hprint print).bind fun _ => .pure _
    unfold carryOut
    dsimp only
    split
    · exact blames_snapshot.bind fun _ => hedit
    · exact hedit

theorem blames_attempt (x : EditM α) : Blames P (attempt x) :=
  fun _ => leads_attempt.mpr fun _ _ _ => trivial

/-- Whatever a subcommand refuses, the walk stops with an error of its own. -/
theorem blames_visitMarked (text : List Char) (fuel n : Nat) (lastModified : Option Nat) :
    Blames P (visitMarked text fuel n lastModified) := by
  -- on the visits that are left
  induction fuel generalizing n lastModified with
  | zero => exact .pure _
  | succ fuel ih =>
    have hvisit (n : Nat) : Blames P (visit text n lastModified) := by
      unfold visit
      refine Blames.bind (.modify _) fun _ => (blames_onWindow _).bind fun _ => ?_
      refine (blames_attempt _).bind fun outcome => ?_
      split
      · exact .pure _
      · exact .pure _
      · exact .throw nofun
    unfold visitMarked
    refine .bind .get fun _ => ?_
    split
    · exact .pure _
    · refine (hvisit _).bind fun report => .bind .get fun _ => ?_
      exact (ih _ _).bind fun rest => .pure _

theorem runGlobal_faults {e : Engine} {inverted : Bool} {range : LineRange} {tail : List Char}
    (hparse : Leads (GlobalRequest.parse e.view inverted range tail) e.remembered (Faults P)) :
    Leads (runGlobal inverted range tail) e (Faults P) := by
  unfold runGlobal
  refine (query_faults hparse).then_blames fun request => Blames.bind (.modify _) fun _ => ?_
  refine blames_snapshot.bind fun _ => ?_
  intro e₁
  rw [leads_get_bind, leads_bind, leads_attempt]
  have hwalk : Leads (visitMarked request.subcommand e₁.window.lines.markedCount 1 none) e₁ (Faults P) :=
    blames_visitMarked _ _ _ _ e₁
  refine hwalk.mono fun outcome e₂ h => ?_
  rw [Post.after_ok, leads_bind]
  refine leads_modify.mpr ?_
  rw [Post.after_ok, leads_liftExcept]
  cases outcome with
  | ok report => exact trivial
  | error err => exact h.error

/-! ## Lines of input -/

section
variable {e : Engine}

/-- A line refuses a pattern where its lines are looked for, or its command does. -/
theorem dispatch_faults {line : List Char} {q : Request} (hq : e.asks line = some q)
    (hlocate : Leads (e.view.locate false q.command q.range) e.remembered (Faults P))
    (hrun : ∀ range r, (e.view.locate false q.command q.range).run.run e.remembered =
        .ok (.ok range, r) → Leads (runCommand q.command range q.tail)
          ((e.begun q.command).withRecall r) (Engine.Brings fun _ => Faults P)) :
    Leads (dispatch line) e (Engine.Brings fun _ => Faults P) := by
  obtain ⟨hn, hread⟩ := Engine.asks_eq_some.mp hq
  unfold Request.read at hread
  obtain ⟨typed, hparse, hread⟩ := bind_eq_ok.mp hread
  obtain ⟨cmd, hid, heq⟩ := bind_eq_ok.mp hread
  cases heq
  have hview : (e.begun cmd).view = e.view ∧ (e.begun cmd).remembered = e.remembered := by
    rw [Engine.begun_eq]
    exact ⟨rfl, rfl⟩
  unfold dispatch
  rw [leads_get_bind, hn]
  unfold execute
  rw [CommandLine.lift_read, leads_bind, leads_liftExcept, hparse, Post.after_ok, leads_bind, leads_liftExcept, hid,
    Post.after_ok]
  refine leads_begin ?_
  rw [leads_get_bind, leads_bind, leads_liftExcept]
  cases hmode : checkMode (e.begun cmd).window.mode cmd with
  | error err =>
    refine faults_error (α := Report) (s := e.begun cmd) fun fault heq => ?_
    subst heq
    unfold checkMode at hmode
    repeat' split at hmode
    all_goals cases hmode
  | ok _ =>
    rw [Post.after_ok, leads_bind, leads_query, hview.1, hview.2]
    intro answer r hfound
    cases answer with
    | ok range => exact hrun range r hfound
    | error err => exact (hlocate _ _ hfound).error (α := LineRange) (s := r)

/-- What a line that searches again refuses is the text that is remembered. -/
theorem dispatch_again_faults (hn : e.entry = none) {line : List Char} (hline : SearchesAgain line) :
    Leads (dispatch line) e (Engine.Brings fun _ => Faults (e.window.Faulty e.window.lastSearch)) := by
  have hgoto {b : Base} (hb : b = .forward [] ∨ b = .backward [])
      (hq : e.asks line = some ⟨none, .one ⟨b, 0⟩, []⟩) : Leads (dispatch line) e
        (Engine.Brings fun _ => Faults (e.window.Faulty e.window.lastSearch)) := by
    refine dispatch_faults hq (e.view.locate_again_faults hb _) fun range r _ => leads_done ?_
    unfold runLine View.plan
    refine Leads.then_blames ?_ fun plan => blames_carryOut false plan
    refine query_faults ?_
    unfold View.planGoto
    exact (Blames.lift _).bind (fun _ => .pure _) _
  have hcommand (cmd : Command) (tail : List Char) (hq : e.asks line = some ⟨some cmd, .default, tail⟩)
      (hrun : ∀ range e', e'.view.window.Faulty e'.remembered.search =
          e.window.Faulty e.window.lastSearch → Leads (runCommand (some cmd) range tail) e'
          (Engine.Brings fun _ => Faults (e.window.Faulty e.window.lastSearch))) :
      Leads (dispatch line) e
        (Engine.Brings fun _ => Faults (e.window.Faulty e.window.lastSearch)) := by
    refine dispatch_faults hq (e.view.blames_locate_default _ _) fun range r hfound => ?_
    obtain rfl := e.view.locate_default_keeps _ _ _ hfound
    rw [Engine.begun_eq]
    exact hrun range _ rfl
  cases hline with
  | forward => exact hgoto (.inl rfl) (Engine.asks_eq_some.mpr ⟨hn, by decide +kernel⟩)
  | backward => exact hgoto (.inr rfl) (Engine.asks_eq_some.mpr ⟨hn, by decide +kernel⟩)
  | global inverted subcommand =>
    refine hcommand (.global inverted) ('/' :: '/' :: withoutNewline subcommand) ?_ ?_
    · refine Engine.asks_eq_some.mpr ⟨hn, ?_⟩
      have hkept := withoutNewline_append [(Command.global inverted).letter, '/'] (c := '/')
        (by decide) subcommand
      exact (congrArg Request.read hkept).trans (Request.read_letter _ _)
    · intro range e' hsame
      have hparse := e'.view.globalRequest_again_faults (r := e'.remembered) inverted range
        (withoutNewline subcommand)
      rw [hsame] at hparse
      have hglobal : Leads (runGlobal inverted range ('/' :: '/' :: withoutNewline subcommand)) e'
          (Faults (e.window.Faulty e.window.lastSearch)) := runGlobal_faults hparse
      exact leads_done hglobal
  | @substitute template htemplate =>
    refine hcommand (.line .substitute) _ (Engine.asks_letter hn (.line .substitute) ?_) ?_
    · show ('s' :: '/' :: '/' :: template ++ ['/']).getLast? ≠ some '\n'
      rw [List.getLast?_concat]
      decide
    · intro range e' hsame
      have hplan := e'.view.planSubstitute_again_faults (r := e'.remembered) range htemplate
      rw [hsame] at hplan
      have hline : Leads (runLine false (some .substitute) range ('/' :: '/' :: (template ++ ['/']))) e'
          (Faults (e.window.Faulty e.window.lastSearch)) :=
        Leads.then_blames (query_faults hplan) fun plan => blames_carryOut false plan
      exact leads_done hline

end

end

end EditM

namespace Engine

/-! ## Runs -/

/-- Whatever calls were made, a text that a window remembers is not empty and compiles for the window,
unless it is too big when case is respected, or the window became binary when it remembered the text.
With no text being typed, a line that searches again refuses no other pattern. -/
theorem remembered_search_compiles (limits : Limits) (calls : List Call) :
    ∃ e, (Engine.new limits).performAll calls = .ok e ∧
      (∀ w ∈ e.windows, ∀ source, w.lastSearch = some source → source ≠ [] ∧
        ((∃ m, w.compile source false = .ok m) ∨
          ((∃ m, w.compile source true = .ok m) ∧
            w.compile source false = .error (.malformed (.syntaxFault .tooBig))) ∨
          (w.flags.binary = true ∧ Compiles source false ∧
            Blurs w.id source (Engine.new limits) calls))) ∧
      (e.entry = none → ∀ {σ : Type} (storage : Storage σ) (disk : σ) (line : List Char),
        SearchesAgain line → ∃ answer e' disk', e.dispatchOn storage line disk = .ok (answer, e', disk') ∧
          ∀ fault, answer = .error (.malformed fault) → ∃ source, e.window.lastSearch = some source ∧
            e.window.compile source false = .error (.malformed fault)) := by
  obtain ⟨e, hrun, hs⟩ := (steady_new limits).performAll calls
  have hreach : e.Reachable := (Reachable.new limits).performAll hrun
  refine ⟨e, hrun, fun w hw source hsource => ?_, fun hn σ storage disk line hline => ?_⟩
  · obtain ⟨hne, -⟩ := hreach.sensible hw source hsource
    refine ⟨hne, ?_⟩
    rcases performAll_traits (.new limits) hrun hw hsource with hcompiles | ⟨v, hv, htraits⟩ | hblurred
    · exact hcompiles.respected.imp_right .inl
    · rw [windows_new] at hv
      obtain rfl := List.mem_singleton.mp hv
      have hnone : w.lastSearch = none := (Prod.mk.inj (Prod.mk.inj htraits).2).2.symm
      rw [hsource] at hnone
      cases hnone
    · exact .inr (.inr hblurred)
  · obtain ⟨⟨answer, e', disk'⟩, hanswer, -⟩ := dispatchOn_settles hs storage line disk
    refine ⟨answer, e', disk', hanswer, fun fault hfault => ?_⟩
    have hfaults := dispatchOn_brings (EditM.dispatch_again_faults hn hline) hanswer
    rw [hfault] at hfaults
    exact hfaults

/-- A text that was found is searched for again. -/
theorem remembered_search_compiles_found : ∃ e answer e' disk',
    (Engine.new ⟨1, 10, 100⟩).performAll [.insertBulk 0 [195, 169, 10, 98, 10],
      .line FileTree.storage .empty ['/', '[', 'é', ']', '/']] = .ok e ∧
    e.window.lastSearch = some ['[', 'é', ']'] ∧
    e.dispatchOn FileTree.storage ['/', '/'] .empty = .ok (answer, e', disk') ∧
    ∀ fault, answer ≠ .error (.malformed fault) := by
  have hvalues : ((Engine.new ⟨1, 10, 100⟩).performAll [.insertBulk 0 [195, 169, 10, 98, 10],
      .line FileTree.storage .empty ['/', '[', 'é', ']', '/']]).map (fun e =>
        (e.entry.isNone, e.window.lastSearch, e.window.flags.binary)) =
      .ok (true, some ['[', 'é', ']'], false) := by
    decide +kernel
  have hfits : (compilePattern ['[', 'é', ']'] false false).toOption.isSome = true := by
    decide +kernel
  obtain ⟨e, hrun, hwindows, hagain⟩ := remembered_search_compiles ⟨1, 10, 100⟩
    [.insertBulk 0 [195, 169, 10, 98, 10], .line FileTree.storage .empty ['/', '[', 'é', ']', '/']]
  have hheld : e.Held := ((Reachable.new _).performAll hrun).steady.toHeld
  rw [hrun] at hvalues
  obtain ⟨hentry, hvalues⟩ := Prod.mk.inj (Except.ok.inj hvalues)
  obtain ⟨hsearch, hbinary⟩ := Prod.mk.inj hvalues
  obtain ⟨answer, e', disk', hanswer, hfaults⟩ :=
    hagain (Option.isNone_iff_eq_none.mp hentry) FileTree.storage .empty ['/', '/'] .forward
  have hwindow := hheld.mem_windows_session e.window_mem_session
  obtain ⟨-, ⟨m, hm⟩ | ⟨-, hbig⟩ | ⟨hflag, -⟩⟩ := hwindows e.window hwindow _ hsearch
  · refine ⟨e, answer, e', disk', hrun, hsearch, hanswer, fun fault hfault => ?_⟩
    obtain ⟨source, hsource, hrefused⟩ := hfaults fault hfault
    obtain rfl := Option.some.inj (hsearch.symm.trans hsource)
    rw [hm] at hrefused
    cases hrefused
  · unfold Window.compile at hbig
    rw [hbinary] at hbig
    rw [hbig] at hfits
    cases hfits
  · rw [hbinary] at hflag
    cases hflag

/-- A class of letters, every other one a capital, a hundred thousand times. -/
def oftenRepeated : List Char :=
  ['[', 'a', 'B', 'c', 'D', 'e', 'F', 'g', 'H', 'i', 'J', ']', '{', '1', '0', '0', '0', '0', '0', '}']

/-- A class with a letter past ASCII is remembered, and then the window becomes binary. Elsewhere a class
is repeated so often that it is too big unless case is ignored, as it was in the substitution which
remembers it. Neither text can be searched for again. -/
theorem remembered_search_refused :
    (∃ e e' disk', (Engine.new ⟨1, 10, 100⟩).performAll [.insertBulk 0 [195, 169, 10, 98, 10],
        .line FileTree.storage .empty ['/', '[', 'é', ']', '/'], .insertBulk 2 [0]] = .ok e ∧
      e.entry = none ∧ e.window.lastSearch = some ['[', 'é', ']'] ∧
      (∀ ignoreCase, e.window.compile ['[', 'é', ']'] ignoreCase =
        .error (.malformed (.syntaxFault .unicodeNotAllowed))) ∧
      e.dispatchOn FileTree.storage ['/', '/'] .empty =
        .ok (.error (.malformed (.syntaxFault .unicodeNotAllowed)), e', disk')) ∧
    ∃ e e' disk', (Engine.new ⟨1, 10, 100⟩).performAll [.insertBulk 0 [0, 10], .interrupt,
        .line FileTree.storage .empty ('s' :: '/' :: (oftenRepeated ++ ['/', 'x', '/', 'i']))] = .ok e ∧
      e.entry = none ∧ e.window.lastSearch = some oftenRepeated ∧
      e.dispatchOn FileTree.storage ['/', '/'] .empty =
        .ok (.error (.malformed (.syntaxFault .tooBig)), e', disk') := by
  constructor
  · have hrefused (ignoreCase : Bool) : ((compilePattern ['[', 'é', ']'] ignoreCase true).map fun _ => ()) =
        .error (.malformed (.syntaxFault .unicodeNotAllowed)) := by
      cases ignoreCase <;> decide +kernel
    have hvalues : ((Engine.new ⟨1, 10, 100⟩).performAll [.insertBulk 0 [195, 169, 10, 98, 10],
        .line FileTree.storage .empty ['/', '[', 'é', ']', '/'], .insertBulk 2 [0]] >>= fun e =>
          e.dispatchOn FileTree.storage ['/', '/'] .empty >>= fun r =>
            pure (e.entry.isNone, e.window.lastSearch, e.window.flags.binary, r.1)) =
        .ok (true, some ['[', 'é', ']'], true,
          .error (.malformed (.syntaxFault .unicodeNotAllowed))) := by
      decide +kernel
    obtain ⟨e, hrun, hvalues⟩ := bind_eq_ok.mp hvalues
    obtain ⟨⟨answer, e', disk'⟩, hanswer, hvalues⟩ := bind_eq_ok.mp hvalues
    simp only [pure, Except.pure, Except.ok.injEq, Prod.mk.injEq, Option.isNone_iff_eq_none] at hvalues
    obtain ⟨hentry, hsearch, hbinary, rfl⟩ := hvalues
    refine ⟨e, e', disk', hrun, hentry, hsearch, fun ignoreCase => ?_, hanswer⟩
    have hmap := hrefused ignoreCase
    unfold Window.compile
    rw [hbinary]
    cases hm : compilePattern ['[', 'é', ']'] ignoreCase true with
    | ok m =>
      rw [hm] at hmap
      cases hmap
    | error err =>
      rw [hm] at hmap
      exact congrArg Except.error (Except.error.inj hmap)
  · have hall : ((Engine.new ⟨1, 10, 100⟩).performAll [.insertBulk 0 [0, 10], .interrupt] >>= fun e =>
        pure (e.window.mode.allows (.line .substitute) &&
        (e.asks ('s' :: '/' :: (oftenRepeated ++ ['/', 'x', '/', 'i']))).any fun q =>
          q.command = some (.line .substitute) && q.tail = '/' :: (oftenRepeated ++ ['/', 'x', '/', 'i']) &&
          (e.located q).any fun x =>
            ((x.2.view.planSubstitute x.1 ('/' :: (oftenRepeated ++ ['/', 'x', '/', 'i']))).run.run
              x.2.remembered).toOption.any fun y =>
                y.1 = .error .interrupted && y.2.search = some oftenRepeated && x.2.entry.isNone &&
                ((x.2.withRecall y.2).dispatchOn FileTree.storage ['/', '/'] .empty).toOption.any fun z =>
                  z.1 = .error (.malformed (.syntaxFault .tooBig)))) = .ok true := by
      simp only [View.planSubstitute, SubstituteRequest.parse_slash]
      decide +kernel
    obtain ⟨e, hstart, hvalues⟩ := bind_eq_ok.mp hall
    have hvalues := Except.ok.inj hvalues
    simp only [Bool.and_eq_true, decide_eq_true_eq, Option.any_eq_true,
      Option.isNone_iff_eq_none] at hvalues
    obtain ⟨hmode, q, hq, ⟨hc, htail⟩, ⟨range, e₁⟩, hloc, ⟨outcome, r⟩, hplan,
      ⟨⟨rfl, hsearch⟩, hentry⟩, ⟨answer, e', disk'⟩, hanswer, rfl⟩ := hvalues
    rw [← htail] at hplan
    have hline : Ends (EditM.runLine false (some .substitute) range q.tail) e₁ fun answer e' =>
        answer = .error .interrupted ∧ e' = e₁.withRecall r := by
      unfold EditM.runLine
      rw [ends_bind, EditM.ends_query]
      exact ⟨_, toOption_eq_some.mp hplan, rfl, rfl⟩
    have hrun : EditM.runCommand q.command range q.tail =
        .done <$> EditM.runLine false (some .substitute) range q.tail := by
      rw [hc]
      rfl
    obtain ⟨_, _, hdispatch, rfl, rfl⟩ := EditM.dispatchOn_located hq hloc (by rw [hc]; exact hmode) hrun
      hline FileTree.storage FileTree.empty
    refine ⟨e₁.withRecall r, e', disk', ?_, hentry, hsearch, toOption_eq_some.mp hanswer⟩
    have happend := performAll_append (Engine.new ⟨1, 10, 100⟩) [.insertBulk 0 [0, 10], .interrupt]
      [.line FileTree.storage .empty ('s' :: '/' :: (oftenRepeated ++ ['/', 'x', '/', 'i']))]
    refine happend.trans (bind_eq_ok.mpr ⟨e, hstart, bind_eq_ok.mpr ⟨_, ?_, rfl⟩⟩)
    exact bind_eq_ok.mpr ⟨_, hdispatch, rfl⟩

end Engine

end LineEditor
