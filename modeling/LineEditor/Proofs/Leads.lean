import LineEditor.Proofs.Transaction

/-!
# Where actions lead

`Leads x s post`: if the action `x`, run from the state `s`, meets no breach, its answer and the
state afterwards satisfy `post`. That no breach is met is another matter (`Ends`), so nothing about
the state has to be known here before an action is followed through its steps.
-/

namespace LineEditor

theorem toOption_eq_some {x : Except ε α} {a : α} : x.toOption = some a ↔ x = .ok a := by
  cases x with
  | ok b => exact ⟨fun h => congrArg Except.ok (Option.some.inj h), fun h => by cases h; rfl⟩
  | error e => exact ⟨by rintro ⟨⟩, by rintro ⟨⟩⟩

/-- What a check of the code itself lets through. -/
theorem guarded_eq_ok {c : Prop} [Decidable c] {b : Breach} {x : Except Breach α} {a : α}
    (h : (if c then .error b else x) = .ok a) : ¬c ∧ x = .ok a := by
  by_cases hc : c
  · rw [if_pos hc] at h
    cases h
  · rw [if_neg hc] at h
    exact ⟨hc, h⟩

def Leads (x : ExceptT EditError (StateT σ (Except Breach)) α) (s : σ) (post : Post σ α) : Prop :=
  ∀ answer s', x.run.run s = .ok (answer, s') → post answer s'

section
variable {x : ExceptT EditError (StateT σ (Except Breach)) α} {s : σ} {post : Post σ α}

theorem Leads.mono {post' : Post σ α} (h : Leads x s post)
    (hpost : ∀ answer s', post answer s' → post' answer s') : Leads x s post' :=
  fun answer s' hx => hpost answer s' (h answer s' hx)

theorem Leads.and {post' : Post σ α} (h : Leads x s post) (h' : Leads x s post') :
    Leads x s fun answer s' => post answer s' ∧ post' answer s' :=
  fun answer s' hx => ⟨h answer s' hx, h' answer s' hx⟩

/-- Nothing is known but the run itself. -/
theorem leads_self (x : ExceptT EditError (StateT σ (Except Breach)) α) (s : σ) :
    Leads x s fun answer s' => x.run.run s = .ok (answer, s') :=
  fun _ _ hx => hx

theorem Ends.leads (h : Ends x s post) : Leads x s post := by
  intro answer s' hx
  exact h.of_eq hx

theorem Ends.and {post' : Post σ α} (h : Ends x s post) (h' : Leads x s post') :
    Ends x s fun answer s' => post answer s' ∧ post' answer s' := by
  obtain ⟨⟨answer, s'⟩, hx, hp⟩ := h
  exact ⟨(answer, s'), hx, hp, h' answer s' hx⟩

@[simp] theorem leads_pure {a : α} : Leads (pure a) s post ↔ post (.ok a) s := by
  constructor
  · exact fun h => h _ _ rfl
  · rintro h _ _ ⟨⟩
    exact h

@[simp] theorem leads_throw {err : EditError} : Leads (throw err) s post ↔ post (.error err) s := by
  constructor
  · exact fun h => h _ _ rfl
  · rintro h _ _ ⟨⟩
    exact h

theorem leads_bind {f : α → ExceptT EditError (StateT σ (Except Breach)) β} {post : Post σ β} :
    Leads (x >>= f) s post ↔ Leads x s (post.after fun a s' => Leads (f a) s' post) := by
  constructor
  · intro h answer s' hx
    cases answer with
    | ok a =>
      intro answer' s'' hf
      refine h answer' s'' ?_
      rw [run_bind, hx]
      exact hf
    | error err =>
      refine h (.error err) s' ?_
      rw [run_bind, hx]
      rfl
  · intro h answer s'' hboth
    rw [run_bind] at hboth
    cases hx : x.run.run s with
    | error b =>
      rw [hx] at hboth
      cases hboth
    | ok r =>
      obtain ⟨answer', s'⟩ := r
      rw [hx] at hboth
      have hfirst := h answer' s' hx
      cases answer' with
      | ok a => exact hfirst answer s'' hboth
      | error err =>
        cases hboth
        exact hfirst

theorem Leads.then {f : α → ExceptT EditError (StateT σ (Except Breach)) β} {post' : Post σ β}
    (h : Leads x s post) (hok : ∀ a s', post (.ok a) s' → Leads (f a) s' post')
    (herr : ∀ err s', post (.error err) s' → post' (.error err) s') :
    Leads (x >>= f) s post' := by
  refine leads_bind.mpr (h.mono fun answer s' hp => ?_)
  cases answer with
  | ok a => exact hok a s' hp
  | error err => exact herr err s' hp

/-- Where nothing is asked of an error, what comes last decides. -/
theorem leads_after {f : α → ExceptT EditError (StateT σ (Except Breach)) β} {post : Post σ β}
    (herr : ∀ err s', post (.error err) s') (hf : ∀ a s', Leads (f a) s' post) :
    Leads (x >>= f) s post :=
  (leads_self x s).then (fun a s' _ => hf a s') fun err s' _ => herr err s'

theorem leads_get_bind {f : σ → ExceptT EditError (StateT σ (Except Breach)) β} {post : Post σ β} :
    Leads (get >>= f) s post ↔ Leads (f s) s post := by
  rw [leads_bind]
  exact ⟨fun h => h _ _ rfl, fun h => by rintro _ _ ⟨⟩; exact h⟩

theorem leads_set {s' : σ} {post : Post σ PUnit} :
    Leads (set s') s post ↔ post (.ok ⟨⟩) s' :=
  ⟨fun h => h _ _ rfl, fun h => by rintro _ _ ⟨⟩; exact h⟩

theorem leads_modify {f : σ → σ} {post : Post σ PUnit} :
    Leads (modify f) s post ↔ post (.ok ⟨⟩) (f s) :=
  ⟨fun h => h _ _ rfl, fun h => by rintro _ _ ⟨⟩; exact h⟩

theorem leads_modify_bind {f : PUnit → ExceptT EditError (StateT σ (Except Breach)) β} {g : σ → σ}
    {post : Post σ β} : Leads (modify g >>= f) s post ↔ Leads (f ⟨⟩) (g s) post := by
  rw [leads_bind, leads_modify]
  rfl

theorem leads_liftExcept {r : Except EditError α} : Leads (liftExcept r) s post ↔ post r s := by
  cases r with
  | ok a => exact leads_pure
  | error err => exact leads_throw

theorem leads_lift {y : Except Breach α} :
    Leads (liftM y) s post ↔ ∀ a, y = .ok a → post (.ok a) s := by
  cases y with
  | ok a =>
    constructor
    · rintro h _ ⟨⟩
      exact h _ _ rfl
    · rintro h _ _ ⟨⟩
      exact h a rfl
  | error b => exact ⟨by rintro - _ ⟨⟩, by rintro - _ _ ⟨⟩⟩

/-- What is refused when something is read leaves the state as it is. -/
theorem leads_reads {y : Except EditError α} {P : α → Prop} (hy : Reads y P)
    {f : α → ExceptT EditError (StateT σ (Except Breach)) β} {post : Post σ β}
    (hok : ∀ a, P a → Leads (f a) s post) (herr : ∀ err, post (.error err) s) :
    Leads (liftExcept y >>= f) s post := by
  rw [leads_bind, leads_liftExcept]
  cases y with
  | ok a => exact hok a hy
  | error err => exact herr err

end

/-! ## Equal runs -/

theorem run_map {x : ExceptT EditError (StateT σ (Except Breach)) α} (g : α → β) (s : σ) :
    (g <$> x).run.run s = (x.run.run s >>= fun r => pure (r.1.map g, r.2)) := by
  show (x.run.run s >>= fun r => _) = _
  cases x.run.run s with
  | error b => rfl
  | ok r =>
    obtain ⟨answer, s'⟩ := r
    cases answer <;> rfl

theorem run_get_bind (f : σ → ExceptT EditError (StateT σ (Except Breach)) β) (s : σ) :
    (get >>= f).run.run s = (f s).run.run s := rfl

theorem run_bind_congr {x y : ExceptT EditError (StateT σ (Except Breach)) α} {s : σ}
    (h : x.run.run s = y.run.run s) (f : α → ExceptT EditError (StateT σ (Except Breach)) β) :
    (x >>= f).run.run s = (y >>= f).run.run s := by
  rw [run_bind, run_bind, h]

/-- Two ways to go on are the same if they are so where the first step leads. -/
theorem Leads.bind_congr {x : ExceptT EditError (StateT σ (Except Breach)) α} {s : σ}
    {f g : α → ExceptT EditError (StateT σ (Except Breach)) β}
    (h : Leads x s fun answer s' => ∀ a, answer = .ok a → (f a).run.run s' = (g a).run.run s') :
    (x >>= f).run.run s = (x >>= g).run.run s := by
  rw [run_bind, run_bind]
  cases hx : x.run.run s with
  | error b => rfl
  | ok r =>
    obtain ⟨answer, s'⟩ := r
    cases answer with
    | error err => rfl
    | ok a => exact h _ _ hx a rfl

namespace EditM

/-- The value and the state satisfy `P`, or there is an error and nothing changed. -/
def orStays (e : Engine) (P : α → Engine → Prop) : Post Engine α
  | .ok a, e' => P a e'
  | .error _, e' => e' = e

variable {e : Engine}

theorem leads_attempt {x : EditM α} {post : Post Engine (Except EditError α)} :
    Leads (attempt x) e post ↔ Leads x e fun answer e' => post (.ok answer) e' := by
  constructor
  · intro h answer e' hx
    refine h _ _ ?_
    rw [run_attempt, hx]
    rfl
  · intro h answer e' hboth
    rw [run_attempt] at hboth
    cases hx : x.run.run e with
    | error b =>
      rw [hx] at hboth
      cases hboth
    | ok r =>
      rw [hx] at hboth
      cases hboth
      exact h _ _ hx

theorem leads_modifyWindow_bind {g : Window → Window} {f : Unit → EditM β} {post : Post Engine β} :
    Leads (modifyWindow g >>= f) e post ↔ Leads (f ()) (e.setWindow (g e.window)) post :=
  leads_modify_bind

theorem leads_onWindow_bind {f : Window → Pool → Except Breach (Window × Pool)} {g : Unit → EditM β}
    {post : Post Engine β} : Leads (onWindow f >>= g) e post ↔
      ∀ w p, f e.window e.pool = .ok (w, p) → Leads (g ()) { e.setWindow w with pool := p } post := by
  unfold onWindow
  rw [bind_assoc, leads_get_bind, bind_assoc, leads_bind, leads_lift]
  constructor
  · intro h w p hf
    have hset := h (w, p) hf
    rw [Post.after_ok] at hset
    exact leads_bind.mp hset _ _ rfl
  · rintro h ⟨w, p⟩ hf
    rw [Post.after_ok]
    exact leads_bind.mpr (leads_set.mpr (h w p hf))

theorem leads_query {q : View → Query α} {post : Post Engine α} : Leads (query q) e post ↔
    Leads (q e.view) e.remembered fun answer r => post answer (e.withRecall r) := by
  constructor
  · intro h answer r hq
    refine h _ _ ?_
    rw [run_query, hq]
    rfl
  · intro h answer e' hboth
    rw [run_query] at hboth
    obtain ⟨r, hq, heq⟩ := bind_eq_ok.mp hboth
    cases heq
    exact h _ _ hq

theorem query_leads {q : View → Query α} {P : α → Prop} (hq : (q e.view).Yields P) :
    Leads (query q) e fun answer e' => e.Recalled e' ∧ Answers answer P :=
  (query_ends hq).leads

end EditM

/-- What stays as it is keeps every property that it had. -/
theorem Leads.maintains {e : Engine} {I : Engine → Prop} {x : EditM α} {P : α → Engine → Prop}
    (h : Leads x e (EditM.orStays e P)) (he : I e) (hP : ∀ a e', P a e' → I e') :
    Leads x e fun _ e' => I e' := by
  refine Leads.mono h fun answer e' hp => ?_
  cases answer with
  | ok a => exact hP a e' hp
  | error err =>
    rw [show e' = e from hp]
    exact he

end LineEditor
