import LineEditor.Command.Progress

/-!
# How actions end

`Ends x s post`: the action `x`, run from the state `s`, meets no breach, and its answer and the
state afterwards satisfy `post`. An error of the user is an answer. The rules follow the shape of an
action from its first step on, so a specification of each operation is all that a proof about an
action needs.
-/

namespace LineEditor

/-- Where two steps together give a value, each of them does. -/
theorem bind_eq_ok {x : Except ε α} {f : α → Except ε β} {b : β} :
    (x >>= f) = .ok b ↔ ∃ a, x = .ok a ∧ f a = .ok b := by
  cases x with
  | ok a =>
    constructor
    · exact fun h => ⟨a, rfl, h⟩
    · rintro ⟨_, ⟨⟩, h⟩
      exact h
  | error e => exact ⟨by rintro ⟨⟩, by rintro ⟨_, ⟨⟩, _⟩⟩

/-- The computation gives a value, and the value satisfies `post`. -/
def Succeeds (x : Except Breach α) (post : α → Prop) : Prop := ∃ a, x = .ok a ∧ post a

namespace Succeeds

theorem mono {x : Except Breach α} {P Q : α → Prop} (h : Succeeds x P) (hpq : ∀ a, P a → Q a) :
    Succeeds x Q := by
  obtain ⟨a, hx, ha⟩ := h
  exact ⟨a, hx, hpq a ha⟩

theorem of_eq {x : Except Breach α} {P : α → Prop} (h : Succeeds x P) {a : α} (hx : x = .ok a) :
    P a := by
  obtain ⟨b, hb, hP⟩ := h
  rw [hx] at hb
  cases hb
  exact hP

@[simp] theorem pure_iff {a : α} {P : α → Prop} : Succeeds (pure a) P ↔ P a := by
  constructor
  · rintro ⟨b, hb, hP⟩
    cases hb
    exact hP
  · exact fun h => ⟨a, rfl, h⟩

@[simp] theorem ok_iff {a : α} {P : α → Prop} : Succeeds (.ok a) P ↔ P a := pure_iff

@[simp] theorem throw_iff {b : Breach} {P : α → Prop} : Succeeds (throw b) P ↔ False := by
  constructor
  · rintro ⟨a, ha, -⟩
    cases ha
  · exact False.elim

@[simp] theorem bind_iff {x : Except Breach α} {f : α → Except Breach β} {P : β → Prop} :
    Succeeds (x >>= f) P ↔ Succeeds x fun a => Succeeds (f a) P := by
  cases x with
  | error b =>
    constructor <;> rintro ⟨_, h, -⟩ <;> cases h
  | ok a =>
    show Succeeds (f a) P ↔ _
    simp

end Succeeds

theorem mapM_ok {f : α → Except Breach β} {g : α → β} {l : List α} (h : ∀ x ∈ l, f x = .ok (g x)) :
    l.mapM f = .ok (l.map g) := by
  induction l with
  | nil => rfl
  | cons x l ih =>
    obtain ⟨hx, hl⟩ := List.forall_mem_cons.mp h
    rw [List.mapM_cons, hx, ih hl]
    rfl

/-- What is asked of an answer and the state it comes with. -/
abbrev Post (σ α : Type) := Except EditError α → σ → Prop

/-- Asks `next` of a value; what is asked of an error stays. -/
def Post.after (post : Post σ β) (next : α → σ → Prop) : Post σ α
  | .ok a, s => next a s
  | .error err, s => post (.error err) s

@[simp] theorem Post.after_ok {post : Post σ β} {next : α → σ → Prop} {a : α} {s : σ} :
    post.after next (.ok a) s = next a s := rfl

/-- Asks `P` of the value and the state it comes with, and that there is no error. -/
def Post.sure (P : α → σ → Prop) : Post σ α
  | .ok a, s => P a s
  | .error _, _ => False

/-- The action meets no breach, and its answer and the state afterwards satisfy `post`. -/
def Ends (x : ExceptT EditError (StateT σ (Except Breach)) α) (s : σ) (post : Post σ α) : Prop :=
  Succeeds (x.run.run s) fun r => post r.1 r.2

theorem run_bind (x : ExceptT EditError (StateT σ (Except Breach)) α)
    (f : α → ExceptT EditError (StateT σ (Except Breach)) β) (s : σ) : (x >>= f).run.run s =
      (x.run.run s >>= fun r => (ExceptT.bindCont f r.1).run r.2) := rfl

section
variable {x : ExceptT EditError (StateT σ (Except Breach)) α} {s : σ} {post : Post σ α}

theorem Ends.mono {post' : Post σ α} (h : Ends x s post)
    (hpost : ∀ answer s', post answer s' → post' answer s') : Ends x s post' :=
  Succeeds.mono h fun r => hpost r.1 r.2

/-- The way a specification is used: it says what comes before the rest of an action. -/
theorem Ends.then {f : α → ExceptT EditError (StateT σ (Except Breach)) β} {post' : Post σ β}
    (h : Ends x s post) (hok : ∀ a s', post (.ok a) s' → Ends (f a) s' post')
    (herr : ∀ err s', post (.error err) s' → post' (.error err) s') :
    Ends (x >>= f) s post' := by
  obtain ⟨⟨answer, s'⟩, hx, hp⟩ := h
  unfold Ends
  rw [run_bind, hx]
  cases answer with
  | ok a => exact hok a s' hp
  | error err => exact ⟨(.error err, s'), rfl, herr err s' hp⟩

theorem Ends.sure_then {P : α → σ → Prop} {f : α → ExceptT EditError (StateT σ (Except Breach)) β}
    {post' : Post σ β} (h : Ends x s (.sure P)) (hok : ∀ a s', P a s' → Ends (f a) s' post') :
    Ends (x >>= f) s post' :=
  h.then hok fun _ _ hf => hf.elim

theorem Ends.of_sure {P : α → σ → Prop} (h : Ends x s (.sure P))
    (hpost : ∀ a s', P a s' → post (.ok a) s') : Ends x s post :=
  h.mono fun answer s' hp =>
    match answer with
    | .ok a => hpost a s' hp
    | .error _ => hp.elim

@[simp] theorem ends_bind {f : α → ExceptT EditError (StateT σ (Except Breach)) β}
    {post : Post σ β} :
    Ends (x >>= f) s post ↔ Ends x s (post.after fun a s' => Ends (f a) s' post) := by
  constructor
  · intro h
    unfold Ends at h ⊢
    rw [run_bind, Succeeds.bind_iff] at h
    refine h.mono fun r hr => ?_
    obtain ⟨answer, s'⟩ := r
    cases answer with
    | ok a => exact hr
    | error err =>
      obtain ⟨_, ho, hp⟩ := hr
      cases ho
      exact hp
  · exact fun h => h.then (fun _ _ hp => hp) fun _ _ hp => hp

@[simp] theorem ends_pure {a : α} : Ends (pure a) s post ↔ post (.ok a) s :=
  Succeeds.pure_iff (a := (Except.ok a, s))

@[simp] theorem ends_throw {err : EditError} : Ends (throw err) s post ↔ post (.error err) s :=
  Succeeds.pure_iff (a := (Except.error err, s))

@[simp] theorem ends_map {f : α → β} {post : Post σ β} :
    Ends (f <$> x) s post ↔ Ends x s (post.after fun a s' => post (.ok (f a)) s') := by
  rw [map_eq_pure_bind, ends_bind]
  simp only [ends_pure]

@[simp] theorem ends_get {post : Post σ σ} : Ends get s post ↔ post (.ok s) s :=
  Succeeds.pure_iff (a := (Except.ok s, s))

@[simp] theorem ends_set {s' : σ} {post : Post σ PUnit} : Ends (set s') s post ↔ post (.ok ⟨⟩) s' :=
  Succeeds.pure_iff (a := (Except.ok PUnit.unit, s'))

@[simp] theorem ends_modify {f : σ → σ} {post : Post σ PUnit} :
    Ends (modify f) s post ↔ post (.ok ⟨⟩) (f s) :=
  Succeeds.pure_iff (a := (Except.ok PUnit.unit, f s))

theorem ends_get_bind {f : σ → ExceptT EditError (StateT σ (Except Breach)) β} {post : Post σ β} :
    Ends (get >>= f) s post ↔ Ends (f s) s post := by
  rw [ends_bind, ends_get, Post.after_ok]

theorem ends_modify_bind {f : PUnit → ExceptT EditError (StateT σ (Except Breach)) β} {g : σ → σ}
    {post : Post σ β} : Ends (modify g >>= f) s post ↔ Ends (f ⟨⟩) (g s) post := by
  rw [ends_bind, ends_modify, Post.after_ok]

theorem ends_liftExcept {r : Except EditError α} : Ends (liftExcept r) s post ↔ post r s := by
  cases r with
  | ok a => exact ends_pure
  | error err => exact ends_throw

theorem ends_check {c : Prop} [Decidable c] {err : EditError}
    {f : Unit → ExceptT EditError (StateT σ (Except Breach)) β} {post : Post σ β} :
    Ends (liftExcept (if c then throw err else pure () : Except EditError Unit) >>= f) s post ↔
      (c → post (.error err) s) ∧ (¬c → Ends (f ()) s post) := by
  rw [ends_bind, ends_liftExcept]
  by_cases hc : c
  · rw [if_pos hc]
    exact ⟨fun h => ⟨fun _ => h, fun hn => absurd hc hn⟩, fun h => h.1 hc⟩
  · rw [if_neg hc]
    exact ⟨fun h => ⟨fun hp => absurd hp hc, fun _ => h⟩, fun h => h.2 hc⟩

/-- A computation that sees no state ends if it succeeds. -/
theorem ends_lift {y : Except Breach α} :
    Ends (liftM y) s post ↔ Succeeds y fun a => post (.ok a) s := by
  cases y with
  | ok a =>
    rw [Succeeds.ok_iff]
    exact ends_pure
  | error b => constructor <;> rintro ⟨_, h, -⟩ <;> cases h

theorem ends_difference {a b : Nat} (h : b ≤ a)
    {f : Nat → ExceptT EditError (StateT σ (Except Breach)) β} {post : Post σ β} :
    Ends (liftM (difference a b) >>= f) s post ↔ Ends (f (a - b)) s post := by
  rw [ends_bind, ends_lift, difference_of_le h, Succeeds.ok_iff, Post.after_ok]

end

end LineEditor
