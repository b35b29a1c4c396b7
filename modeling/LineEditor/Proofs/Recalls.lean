import LineEditor.Proofs.Leads

/-!
# What looking around remembers

A search text is remembered in three places, always after it was compiled for the window. Whatever
query is run, the search text that is remembered in the end was so in the beginning, or is one that
compiles there.
-/

namespace LineEditor

/-- The search text is the same, or one that is not empty and compiles for the window, with case
ignored or not. -/
def Recall.Follows (w : Window) (r r' : Recall) : Prop :=
  r'.search = r.search ∨ ∃ source ignoreCase m,
    r'.search = some source ∧ source ≠ [] ∧ w.compile source ignoreCase = .ok m

/-- What is remembered follows what the engine remembers. -/
def Engine.Recalls (e : Engine) (r : Recall) : Prop := e.remembered.Follows e.window r

theorem Recall.Follows.refl (w : Window) (r : Recall) : r.Follows w r := .inl rfl

theorem Recall.Follows.trans {w : Window} {r r' r'' : Recall} (h : r.Follows w r')
    (h' : r'.Follows w r'') : r.Follows w r'' := by
  rcases h' with heq | hnew
  · rcases h with heq₀ | ⟨source, ignoreCase, m, hsource, hm⟩
    · exact .inl (heq.trans heq₀)
    · exact .inr ⟨source, ignoreCase, m, heq.trans hsource, hm⟩
  · exact .inr hnew

namespace Query

/-- Whatever is remembered before, what is remembered afterwards follows it. -/
def Traces (w : Window) (q : Query α) : Prop := ∀ r, Leads q r fun _ r' => r.Follows w r'

namespace Traces

section
variable {w : Window}

protected theorem pure (a : α) : Traces w (pure a) := fun r => leads_pure.mpr (.refl w r)

protected theorem throw (err : EditError) : Traces w (throw err : Query α) :=
  fun r => leads_throw.mpr (.refl w r)

protected theorem get : Traces w get := by
  rintro r _ _ ⟨⟩
  exact .refl w r

protected theorem liftExcept (x : Except EditError α) : Traces w (liftExcept x) :=
  fun r => leads_liftExcept.mpr (.refl w r)

protected theorem lift (y : Except Breach α) : Traces w (liftM y : Query α) :=
  fun r => leads_lift.mpr fun _ _ => .refl w r

protected theorem bind {q : Query α} {f : α → Query β} (hq : Traces w q) (hf : ∀ a, Traces w (f a)) :
    Traces w (q >>= f) :=
  fun r => (hq r).then (fun a r' h => (hf a r').mono fun _ _ h' => h.trans h') fun _ _ h => h

end

end Traces

theorem checkInterrupt_traces (w : Window) : Traces w checkInterrupt := by
  intro r
  unfold checkInterrupt
  rw [leads_get_bind]
  split
  · exact leads_modify_bind.mpr (leads_throw.mpr (.inl rfl))
  · exact leads_pure.mpr (.refl w r)

/-- A text that was resolved and then compiled may be remembered. -/
theorem traces_resolve_bind {w : Window} {body : List Char} {f : List Char → Query α}
    (hf : ∀ r source, r.search = some source ∨ source ≠ [] → Leads (f source) r fun _ r' => r.Follows w r') :
    Traces w (resolve body >>= f) := by
  intro r
  unfold resolve
  rw [bind_assoc, leads_get_bind, leads_bind, leads_liftExcept]
  unfold resolveSearch
  split
  · cases hs : r.search with
    | none => exact .refl w r
    | some source => exact hf r source (.inl hs)
  · rename_i hbody
    exact hf r body (.inr fun hnil => hbody (by rw [hnil]; rfl))

theorem leads_compile_bind {w : Window} {source : List Char} {ignoreCase : Bool}
    {f : Matcher → Query α} {r : Recall}
    (hf : ∀ m, w.compile source ignoreCase = .ok m → Leads (f m) r fun _ r' => r.Follows w r') :
    Leads (liftExcept (w.compile source ignoreCase) >>= f) r fun _ r' => r.Follows w r' := by
  rw [leads_bind, leads_liftExcept]
  cases hm : w.compile source ignoreCase with
  | error err => exact .refl w r
  | ok m => exact hf m hm

theorem follows_remembered {w : Window} {r r' : Recall} {source : List Char} {ignoreCase : Bool}
    {m : Matcher} (hsource : r.search = some source ∨ source ≠ [])
    (hm : w.compile source ignoreCase = .ok m) (hr' : r'.search = some source) : r.Follows w r' :=
  hsource.elim (fun heq => .inl (hr'.trans heq.symm)) fun hne =>
    .inr ⟨source, ignoreCase, m, hr', hne, hm⟩

/-- A pattern is resolved, compiled with case respected, and remembered; then the query goes on. -/
theorem traces_pattern {w : Window} {body : List Char} {f : List Char → Matcher → Query α}
    (hf : ∀ source m, Traces w (f source m)) : Traces w (do
      let source ← resolve body
      let matcher ← liftExcept (w.compile source false)
      remember source
      f source matcher) := by
  refine traces_resolve_bind fun r source hsource => leads_compile_bind fun m hm => ?_
  have hremembered : r.Follows w { r with search := some source } :=
    follows_remembered hsource hm rfl
  exact leads_modify_bind.mpr ((hf source m _).mono fun _ _ h => hremembered.trans h)

end Query

namespace View

open Query (Traces)

section
variable (v : View)

theorem searchFrom_traces (dot : Nat) (forward : Bool) (matcher : Matcher) (count n : Nat) :
    Traces v.window (v.searchFrom dot forward matcher count n) := by
  induction count generalizing n with
  | zero => exact .throw _
  | succ count ih =>
    unfold searchFrom
    refine (Query.checkInterrupt_traces _).bind fun _ => (Traces.lift _).bind fun n => ?_
    split
    · exact .throw _
    · refine (Traces.lift _).bind fun shown => ?_
      split
      · split
        · exact .pure _
        · exact ih n
      · exact ih n

theorem search_traces (dot : Nat) (forward : Bool) (body : List Char) :
    Traces v.window (v.search dot forward body) := by
  unfold search
  exact Query.traces_pattern fun source m => v.searchFrom_traces dot forward m _ _

theorem base_traces (dot : Nat) (b : Base) : Traces v.window (v.base dot b) := by
  unfold base
  split
  · exact .pure _
  · exact .pure _
  · exact .pure _
  · split
    · exact .pure _
    · exact .throw _
  · exact v.search_traces dot true _
  · exact v.search_traces dot false _

theorem address_traces (dot : Nat) (a : Address) : Traces v.window (v.address dot a) := by
  unfold address
  refine (v.base_traces dot a.base).bind fun n => ?_
  dsimp only
  split
  · exact .throw _
  · split
    · exact .throw _
    · exact .pure _

theorem ordered_traces {w : Window} (start stop given : Nat) : Traces w (ordered start stop given) := by
  unfold ordered
  split
  · exact .throw _
  · exact .pure _

theorem range_traces (expr : RangeExpr) : Traces v.window (v.range expr) := by
  cases expr with
  | default => exact .pure _
  | whole => exact ordered_traces _ _ _
  | dotToEnd => exact ordered_traces _ _ _
  | one a => exact (v.address_traces _ a).bind fun n => ordered_traces n n 1
  | two first second fromFirst =>
    exact (v.address_traces _ first).bind fun start =>
      (v.address_traces _ second).bind fun stop => ordered_traces start stop 2

theorem locate_traces (inGlobal : Bool) (cmd : Option Command) (expr : RangeExpr) :
    Traces v.window (v.locate inGlobal cmd expr) := by
  unfold locate
  refine (v.range_traces expr).bind fun given => (Traces.liftExcept _).bind fun range => ?_
  exact (Traces.liftExcept _).bind fun _ => .pure _

/-! ## Plans -/

theorem planGoto_traces {w : Window} (n : Nat) (print : Option PrintStyle) : Traces w (v.planGoto n print) := by
  unfold planGoto
  cases print with
  | none => exact .pure _
  | some style => exact (Traces.lift _).bind fun _ => .pure _

theorem planPrint_traces (style : PrintStyle) (range : LineRange) (tail : List Char) :
    Traces v.window (v.planPrint style range tail) := by
  unfold planPrint
  refine (Traces.liftExcept _).bind fun _ => (Traces.lift _).bind fun _ => ?_
  exact (Query.checkInterrupt_traces _).bind fun _ => (Traces.lift _).bind fun _ => .pure _

theorem planJoin_traces (spaced : Bool) (range : LineRange) (tail : List Char) :
    Traces v.window (v.planJoin spaced range tail) := by
  unfold planJoin
  refine (Traces.liftExcept _).bind fun print => ?_
  split
  · exact v.planGoto_traces _ _
  · refine (Traces.lift _).bind fun texts => ?_
    generalize List.intercalate _ texts = joined
    dsimp only
    split
    · exact .throw _
    · exact .pure _

theorem destination_traces (c : LineCommand) (tail : List Char) :
    Traces v.window (v.destination c tail) := by
  unfold destination
  rw [Address.lift_read]
  refine (Traces.liftExcept _).bind fun found => ?_
  cases found with
  | none => exact .throw _
  | some found =>
    exact (Traces.liftExcept _).bind fun print => (v.address_traces _ _).bind fun n => .pure _

theorem planMove_traces (range : LineRange) (tail : List Char) :
    Traces v.window (v.planMove range tail) := by
  unfold planMove
  refine (v.destination_traces .move tail).bind fun d => ?_
  dsimp only
  split
  · exact .throw _
  · split
    · exact v.planGoto_traces _ _
    · exact .pure _

theorem planCopy_traces (range : LineRange) (tail : List Char) :
    Traces v.window (v.planCopy range tail) := by
  unfold planCopy
  refine (v.destination_traces .copy tail).bind fun d => (Traces.lift _).bind fun _ => ?_
  exact (Traces.liftExcept _).bind fun _ => .pure _

theorem planLabel_traces {w : Window} (range : LineRange) (tail : List Char) :
    Traces w (planLabel range tail) := by
  unfold planLabel
  split
  · exact .throw _
  · split
    · exact .pure _
    · exact .throw _
  · exact .throw _

/-- Reading the replacement remembers nothing yet. -/
theorem resolveTemplate_leads (body : List Char) (r : Recall) :
    Leads (SubstituteRequest.resolveTemplate body) r fun _ r' => r' = r := by
  unfold SubstituteRequest.resolveTemplate
  split
  · rw [leads_get_bind]
    split
    · exact leads_pure.mpr rfl
    · exact leads_throw.mpr rfl
  · exact leads_pure.mpr rfl

theorem parse_traces (tail : List Char) : Traces v.window (SubstituteRequest.parse v tail) := by
  unfold SubstituteRequest.parse
  simp only [Delimited.lift_readFirst, Delimited.read_bind]
  refine (Traces.liftExcept _).bind fun d => ?_
  split
  · exact .throw _
  · refine (Traces.liftExcept _).bind fun flags => ?_
    refine Query.traces_resolve_bind fun r source hsource => ?_
    refine (resolveTemplate_leads _ r).then ?_ fun _ _ heq => .inl (by rw [heq])
    rintro template _ rfl
    refine Query.leads_compile_bind fun m hm => ?_
    split
    · exact leads_throw.mpr (.refl _ _)
    · refine leads_modify_bind.mpr (leads_pure.mpr ?_)
      exact Query.follows_remembered hsource hm rfl

theorem reviseAll_traces {w : Window} (request : SubstituteRequest) (limit : Nat)
    (lines : List (Nat × Bytes)) : Traces w (request.reviseAll limit lines) := by
  -- on the lines to be revised
  induction lines with
  | nil => exact .pure _
  | cons line lines ih =>
    have hrevise : Traces w (request.revise limit line.2) := by
      rw [SubstituteRequest.revise_eq]
      refine (Traces.lift _).bind fun outcome => ?_
      split
      · exact .pure _
      · exact .throw _
      · split
        · exact .pure _
        · exact .throw _
    unfold SubstituteRequest.reviseAll
    refine hrevise.bind fun new => ih.bind fun changes => ?_
    split <;> exact .pure _

theorem planSubstitute_traces (range : LineRange) (tail : List Char) :
    Traces v.window (v.planSubstitute range tail) := by
  unfold planSubstitute
  refine (v.parse_traces tail).bind fun request => (Query.checkInterrupt_traces _).bind fun _ => ?_
  refine (Traces.lift _).bind fun texts => (reviseAll_traces request _ _).bind fun changes => ?_
  split
  · exact .throw _
  · exact (Traces.lift _).bind fun extra => (Traces.liftExcept _).bind fun _ => .pure _

theorem plan_traces (cmd : Option LineCommand) (range : LineRange) (tail : List Char) :
    Traces v.window (v.plan cmd range tail) := by
  unfold plan
  split
  · exact v.planGoto_traces _ _
  · exact v.planPrint_traces _ range tail
  · exact (Traces.liftExcept _).bind fun _ => .pure _
  · exact (Traces.liftExcept _).bind fun _ => .pure _
  · exact v.planJoin_traces _ range tail
  · exact v.planMove_traces range tail
  · exact v.planCopy_traces range tail
  · exact planLabel_traces range tail
  · exact v.planSubstitute_traces range tail

theorem globalRequest_traces (inverted : Bool) (range : LineRange) (tail : List Char) :
    Traces v.window (GlobalRequest.parse v inverted range tail) := by
  unfold GlobalRequest.parse
  rw [Delimited.lift_readFirst]
  refine (Traces.liftExcept _).bind fun d => Query.traces_pattern fun source m => ?_
  refine (Query.checkInterrupt_traces _).bind fun _ => (Traces.lift _).bind fun lines => ?_
  dsimp only
  split
  · exact .throw _
  · exact .pure _

end

end View

namespace EditM

section
variable {e : Engine}

/-- A query leaves the engine as it is, but for what it may have remembered. -/
theorem query_recalls {q : View → Query α} (hq : (q e.view).Traces e.view.window) :
    Leads (query q) e fun _ e' => ∃ r, e.Recalls r ∧ e' = e.withRecall r :=
  leads_query.mpr ((hq e.remembered).mono fun _ r hr => ⟨r, hr, rfl⟩)

/-- What was asked for is given, or refused, and then at most something is remembered. -/
theorem query_gives {q : View → Query α} {P : α → Prop} (hq : (q e.view).Traces e.view.window)
    (hP : (q e.view).Yields P) : Leads (query q) e fun answer e' =>
      (∃ r, e.Recalls r ∧ e' = e.withRecall r) ∧ Answers answer P :=
  ((query_recalls hq).and (query_leads hP)).mono fun _ _ h => ⟨h.1, h.2.2⟩

end

end EditM

end LineEditor
