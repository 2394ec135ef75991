import Mathlib.Order.Defs.Unbundled

/-! # Fallible computations on a state

An `Op` reads and changes a state and either returns a value or fails with an error code; the state
it leaves is kept in both cases. An assertion that fails stops the run, which is `none`.
-/

set_option autoImplicit false

def Op (ε σ α : Type) : Type := σ → Option (Except ε α × σ)

namespace Op

variable {ε σ τ α β : Type}

/-- What a computation does from a state. -/
def run (x : Op ε σ α) (s : σ) : Option (Except ε α × σ) := x s

protected def pure (a : α) : Op ε σ α := fun s => some (.ok a, s)

protected def bind (x : Op ε σ α) (f : α → Op ε σ β) : Op ε σ β := fun s =>
  match x s with
  | none => none
  | some (.error e, s) => some (.error e, s)
  | some (.ok a, s) => f a s

instance : Monad (Op ε σ) where
  pure := Op.pure
  bind := Op.bind

def fail (e : ε) : Op ε σ α := fun s => some (.error e, s)

def assert (p : Prop) [Decidable p] : Op ε σ Unit := fun s =>
  if p then some (.ok (), s) else none

def get : Op ε σ σ := fun s => some (.ok s, s)

def modify (f : σ → σ) : Op ε σ Unit := fun s => some (.ok (), f s)

/-- The value of an option whose absence is an assertion failure. -/
def demand (o : Option α) : Op ε σ α := fun s => o.map fun a => (.ok a, s)

/-- The value of an option whose absence is an error. -/
def orElse (o : Option α) (e : ε) : Op ε σ α := fun s =>
  match o with
  | some a => some (.ok a, s)
  | none => some (.error e, s)

/-- The check of a condition, failing with `e`. -/
def require (p : Prop) [Decidable p] (e : ε) : Op ε σ Unit := fun s =>
  if p then some (.ok (), s) else some (.error e, s)

/-- The same computation failing with one error code. -/
def failWith {δ : Type} (e : ε) (x : Op δ σ α) : Op ε σ α := fun s =>
  match x s with
  | none => none
  | some (.error _, s) => some (.error e, s)
  | some (.ok a, s) => some (.ok a, s)

/-- A computation on a part of the state. -/
def zoom (part : σ → τ) (put : τ → σ → σ) (x : Op ε τ α) : Op ε σ α := fun s =>
  match x (part s) with
  | none => none
  | some (r, t) => some (r, put t s)

/-- A computation whose failure changes the state once more on the way out. -/
def cleanup (undo : σ → σ) (x : Op ε σ α) : Op ε σ α := fun s =>
  match x s with
  | none => none
  | some (.error e, s) => some (.error e, undo s)
  | some (.ok a, s) => some (.ok a, s)

/-- A computation without its outcome, its failure ignored. -/
def attempt (x : Op ε σ α) : Op ε σ (Except ε α) := fun s =>
  (x s).map fun (r, s) => (.ok r, s)

/-! ## Runs -/

section

variable (s : σ)

/-- A run that goes on, or stops short. -/
def andThen (r : Option (Except ε α × σ)) (f : α → σ → Option (Except ε β × σ)) :
    Option (Except ε β × σ) :=
  match r with
  | none => none
  | some (.error e, s) => some (.error e, s)
  | some (.ok a, s) => f a s

@[simp] theorem andThen_none (f : α → σ → Option (Except ε β × σ)) : andThen none f = none := rfl

@[simp] theorem andThen_error (e : ε) (f : α → σ → Option (Except ε β × σ)) :
    andThen (some (.error e, s)) f = some (.error e, s) := rfl

@[simp] theorem andThen_ok (a : α) (f : α → σ → Option (Except ε β × σ)) :
    andThen (some (.ok a, s)) f = f a s := rfl

@[simp] theorem run_bind (x : Op ε σ α) (f : α → Op ε σ β) :
    (x >>= f).run s = andThen (x.run s) fun a s => (f a).run s := rfl

@[simp] theorem run_pure (a : α) : (pure a : Op ε σ α).run s = some (.ok a, s) := rfl

@[simp] theorem run_fail (e : ε) : (fail e : Op ε σ α).run s = some (.error e, s) := rfl

@[simp] theorem run_get : (get : Op ε σ σ).run s = some (.ok s, s) := rfl

@[simp] theorem run_modify (f : σ → σ) : (modify f : Op ε σ Unit).run s = some (.ok (), f s) := rfl

theorem run_assert (p : Prop) [Decidable p] :
    (assert p : Op ε σ Unit).run s = if p then some (.ok (), s) else none := rfl

theorem run_require (p : Prop) [Decidable p] (e : ε) :
    (require p e : Op ε σ Unit).run s = if p then some (.ok (), s) else some (.error e, s) := rfl

@[simp] theorem run_assert_of {p : Prop} [Decidable p] (h : p) :
    (assert p : Op ε σ Unit).run s = some (.ok (), s) := if_pos h

@[simp] theorem run_require_of {p : Prop} [Decidable p] (h : p) (e : ε) :
    (require p e : Op ε σ Unit).run s = some (.ok (), s) := if_pos h

@[simp] theorem run_demand_some (a : α) : (demand (some a) : Op ε σ α).run s = some (.ok a, s) := rfl

@[simp] theorem run_orElse_some (a : α) (e : ε) :
    (orElse (some a) e : Op ε σ α).run s = some (.ok a, s) := rfl

theorem run_failWith {δ : Type} (x : Op δ σ α) (e : ε) :
    (failWith e x).run s =
      match x.run s with
      | none => none
      | some (.error _, s) => some (.error e, s)
      | some (.ok a, s) => some (.ok a, s) := rfl

end

/-! ## Successful runs -/

section

variable {s s' : σ}

theorem bind_ok {x : Op ε σ α} {f : α → Op ε σ β} {b : β} :
    (x >>= f).run s = some (.ok b, s') ↔
      ∃ a t, x.run s = some (.ok a, t) ∧ (f a).run t = some (.ok b, s') := by
  rw [run_bind]
  rcases hx : x.run s with _ | ⟨_ | a, t⟩ <;> simp [and_assoc]

theorem pure_ok {a b : α} : (pure a : Op ε σ α).run s = some (.ok b, s') ↔ a = b ∧ s = s' := by
  simp

theorem get_ok {t : σ} : (get : Op ε σ σ).run s = some (.ok t, s') ↔ s = t ∧ s = s' := by
  simp

theorem modify_ok {f : σ → σ} {u : Unit} :
    (modify f : Op ε σ Unit).run s = some (.ok u, s') ↔ f s = s' := by
  simp

theorem assert_ok {p : Prop} [Decidable p] {u : Unit} :
    (assert p : Op ε σ Unit).run s = some (.ok u, s') ↔ p ∧ s = s' := by
  rw [run_assert]
  split <;> simp [*]

theorem require_ok {p : Prop} [Decidable p] {e : ε} {u : Unit} :
    (require p e : Op ε σ Unit).run s = some (.ok u, s') ↔ p ∧ s = s' := by
  rw [run_require]
  split <;> simp [*]

theorem demand_ok {o : Option α} {a : α} :
    (demand o : Op ε σ α).run s = some (.ok a, s') ↔ o = some a ∧ s = s' := by
  cases o <;> simp [run, demand]

theorem orElse_ok {o : Option α} {e : ε} {a : α} :
    (orElse o e : Op ε σ α).run s = some (.ok a, s') ↔ o = some a ∧ s = s' := by
  cases o <;> simp [run, orElse]

theorem not_fail_ok {e : ε} {a : α} : (fail e : Op ε σ α).run s ≠ some (.ok a, s') := by
  simp

theorem failWith_ok {δ : Type} {x : Op δ σ α} {e : ε} {a : α} :
    (failWith e x).run s = some (.ok a, s') ↔ x.run s = some (.ok a, s') := by
  simp only [run, failWith]
  rcases hx : x s with _ | ⟨_ | a, t⟩ <;> simp

theorem cleanup_ok {x : Op ε σ α} {undo : σ → σ} {a : α} :
    (cleanup undo x).run s = some (.ok a, s') ↔ x.run s = some (.ok a, s') := by
  simp only [run, cleanup]
  rcases hx : x s with _ | ⟨_ | a, t⟩ <;> simp

/-- However a computation followed by a change of its value ends. -/
theorem bind_pure_some {x : Op ε σ α} {f : α → β} {r : Except ε β} :
    (x >>= fun a => pure (f a)).run s = some (r, s') ↔
      ∃ r', x.run s = some (r', s') ∧ r'.map f = r := by
  rw [run_bind]
  rcases hx : x.run s with _ | ⟨_ | a, t⟩
  · simp
  · simp only [andThen_error, Option.some.injEq, Prod.mk.injEq, Except.map]
    constructor
    · rintro ⟨rfl, rfl⟩
      exact ⟨_, ⟨rfl, rfl⟩, rfl⟩
    · rintro ⟨_, ⟨rfl, rfl⟩, rfl⟩
      exact ⟨rfl, rfl⟩
  · simp only [andThen_ok, run_pure, Option.some.injEq, Prod.mk.injEq]
    constructor
    · rintro ⟨rfl, rfl⟩
      exact ⟨_, ⟨rfl, rfl⟩, rfl⟩
    · rintro ⟨_, ⟨rfl, rfl⟩, rfl⟩
      exact ⟨rfl, rfl⟩

theorem cleanup_error {x : Op ε σ α} {undo : σ → σ} {e : ε} :
    (cleanup undo x).run s = some (.error e, s') ↔
      ∃ t, x.run s = some (.error e, t) ∧ undo t = s' := by
  simp only [run, cleanup]
  rcases hx : x s with _ | ⟨_ | a, t⟩ <;> simp [and_assoc]

theorem zoom_ok {part : σ → τ} {put : τ → σ → σ} {x : Op ε τ α} {a : α} :
    (zoom part put x).run s = some (.ok a, s') ↔
      ∃ t, x.run (part s) = some (.ok a, t) ∧ put t s = s' := by
  simp only [run, zoom]
  rcases hx : x (part s) with _ | ⟨_ | a, t⟩ <;> simp [and_assoc]

theorem attempt_some {x : Op ε σ α} {q : Except ε (Except ε α)} :
    (attempt x).run s = some (q, s') ↔ ∃ r, x.run s = some (r, s') ∧ .ok r = q := by
  simp only [run, attempt]
  rcases hx : x s with _ | ⟨r₁, t⟩
  · simp
  · constructor
    · intro h
      obtain ⟨rfl, rfl⟩ := Prod.mk.inj (Option.some.inj h)
      exact ⟨r₁, rfl, rfl⟩
    · rintro ⟨r, h, rfl⟩
      obtain ⟨rfl, rfl⟩ := Prod.mk.inj (Option.some.inj h)
      rfl

/-- However it ends. -/
theorem zoom_some {part : σ → τ} {put : τ → σ → σ} {x : Op ε τ α} {r : Except ε α} :
    (zoom part put x).run s = some (r, s') ↔ ∃ t, x.run (part s) = some (r, t) ∧ put t s = s' := by
  simp only [run, zoom]
  rcases hx : x (part s) with _ | ⟨r₁, t⟩ <;> simp [and_assoc]

end

/-! ## Computations without assertions -/

/-- A computation that no assertion stops. -/
def Total (x : Op ε σ α) : Prop := ∀ s, x.run s ≠ none

theorem Total.pure (a : α) : Total (Pure.pure a : Op ε σ α) := fun _ => Option.some_ne_none _

theorem Total.get : Total (get : Op ε σ σ) := fun _ => Option.some_ne_none _

theorem Total.modify (f : σ → σ) : Total (modify f : Op ε σ Unit) := fun _ => Option.some_ne_none _

theorem Total.require (p : Prop) [Decidable p] (e : ε) : Total (require p e : Op ε σ Unit) := by
  intro s
  rw [run_require]
  split <;> exact Option.some_ne_none _

theorem Total.orElse (o : Option α) (e : ε) : Total (orElse o e : Op ε σ α) := by
  intro s
  cases o <;> exact Option.some_ne_none _

theorem Total.bind {x : Op ε σ α} {f : α → Op ε σ β} (hx : Total x) (hf : ∀ a, Total (f a)) :
    Total (x >>= f) := by
  intro s
  rw [run_bind]
  cases hRun : x.run s with
  | none => exact absurd hRun (hx s)
  | some r =>
    obtain ⟨r, t⟩ := r
    cases r with
    | error e => exact Option.some_ne_none _
    | ok a => exact hf a t

theorem Total.failWith {δ : Type} {x : Op δ σ α} (hx : Total x) (e : ε) : Total (failWith e x) := by
  intro s
  rw [run_failWith]
  split
  · exact fun _ => hx s ‹_›
  · exact Option.some_ne_none _
  · exact Option.some_ne_none _

theorem Total.zoom {x : Op ε τ α} (hx : Total x) (part : σ → τ) (put : τ → σ → σ) :
    Total (zoom part put x) := by
  intro s
  simp only [run, Op.zoom]
  split
  · exact fun _ => hx (part s) ‹_›
  · exact Option.some_ne_none _

/-! ## Computations that come to no error -/

/-- No run of `x` ends with an error. -/
def Answers (x : Op ε σ α) : Prop := ∀ s e s', x.run s ≠ some (.error e, s')

theorem Answers.pure (a : α) : Answers (Pure.pure a : Op ε σ α) := fun _ _ _ h => by cases h

theorem Answers.get : Answers (get : Op ε σ σ) := fun _ _ _ h => by cases h

theorem Answers.modify (f : σ → σ) : Answers (modify f : Op ε σ Unit) := fun _ _ _ h => by cases h

theorem Answers.assert (p : Prop) [Decidable p] : Answers (assert p : Op ε σ Unit) := by
  intro s e s' h
  rw [run_assert] at h
  split at h <;> cases h

theorem Answers.demand (o : Option α) : Answers (demand o : Op ε σ α) := by
  intro s e s' h
  cases o <;> cases h

theorem Answers.bind {x : Op ε σ α} {f : α → Op ε σ β} (hx : Answers x) (hf : ∀ a, Answers (f a)) :
    Answers (x >>= f) := by
  intro s e s' h
  rw [run_bind] at h
  cases hRun : x.run s with
  | none =>
    rw [hRun] at h
    cases h
  | some out =>
    obtain ⟨r, t⟩ := out
    rw [hRun] at h
    cases r with
    | error e => exact hx s e t hRun
    | ok a => exact hf a t e s' h

theorem Answers.ite {p : Prop} [Decidable p] {x y : Op ε σ α} (hx : Answers x) (hy : Answers y) :
    Answers (if p then x else y) := by
  split
  · exact hx
  · exact hy

theorem Answers.attempt (x : Op ε σ α) : Answers (attempt x) := by
  intro s e s' h
  obtain ⟨r, -, hIs⟩ := attempt_some.mp h
  cases hIs

/-! ## What a computation keeps -/

/-- Every run of `x` leads to a state related to the one it started in. -/
def Keeps (R : σ → σ → Prop) (x : Op ε σ α) : Prop :=
  ∀ s r s', x.run s = some (r, s') → R s s'

theorem Keeps.mono {R R' : σ → σ → Prop} {x : Op ε σ α} (hx : Keeps R x)
    (h : ∀ s s', R s s' → R' s s') : Keeps R' x :=
  fun s r s' hRun => h s s' (hx s r s' hRun)

theorem Keeps.modify {R : σ → σ → Prop} {f : σ → σ} (h : ∀ s, R s (f s)) :
    Keeps R (modify f : Op ε σ Unit) := by
  intro s r s' hRun
  obtain ⟨-, rfl⟩ : Except.ok () = r ∧ f s = s' := by simpa [run, Op.modify] using hRun
  exact h s

theorem Keeps.zoom {R : σ → σ → Prop} {part : σ → τ} {put : τ → σ → σ} {x : Op ε τ α}
    (h : ∀ s t, R s (put t s)) : Keeps R (zoom part put x) := by
  intro s r s' hRun
  simp only [run, Op.zoom] at hRun
  split at hRun
  · contradiction
  · rename_i r₁ t hPart
    obtain ⟨-, rfl⟩ : r₁ = r ∧ put t s = s' := by simpa using hRun
    exact h s t

theorem Keeps.ite {R : σ → σ → Prop} {p : Prop} [Decidable p] {x y : Op ε σ α}
    (hx : p → Keeps R x) (hy : ¬ p → Keeps R y) : Keeps R (if p then x else y) := by
  split
  · exact hx ‹p›
  · exact hy ‹¬ p›

theorem Keeps.failWith {R : σ → σ → Prop} {δ : Type} {x : Op δ σ α} (hx : Keeps R x)
    (e : ε) : Keeps R (failWith e x) := by
  intro s r s' hRun
  simp only [run, Op.failWith] at hRun
  split at hRun
  · contradiction
  · rename_i s₁ hFirst
    obtain ⟨-, rfl⟩ : Except.error e = r ∧ s₁ = s' := by simpa using hRun
    exact hx s _ s₁ hFirst
  · rename_i a s₁ hFirst
    obtain ⟨-, rfl⟩ : Except.ok a = r ∧ s₁ = s' := by simpa using hRun
    exact hx s _ s₁ hFirst

theorem Keeps.attempt {R : σ → σ → Prop} {x : Op ε σ α} (hx : Keeps R x) :
    Keeps R (attempt x) := by
  intro s r s' hRun
  obtain ⟨r₁, hFirst, -⟩ := attempt_some.mp hRun
  exact hx s r₁ s' hFirst

section

variable {R : σ → σ → Prop} [IsPreorder σ R]

theorem Keeps.pure (a : α) : Keeps R (Pure.pure a : Op ε σ α) := by
  intro s r s' hRun
  obtain ⟨-, rfl⟩ : Except.ok a = r ∧ s = s' := by simpa [run, Pure.pure, Op.pure] using hRun
  exact Std.Refl.refl s

theorem Keeps.fail (e : ε) : Keeps R (fail e : Op ε σ α) := by
  intro s r s' hRun
  obtain ⟨-, rfl⟩ : Except.error e = r ∧ s = s' := by simpa [run, Op.fail] using hRun
  exact Std.Refl.refl s

theorem Keeps.assert (p : Prop) [Decidable p] : Keeps R (assert p : Op ε σ Unit) := by
  intro s r s' hRun
  rw [run_assert] at hRun
  split at hRun
  · obtain ⟨-, rfl⟩ : Except.ok () = r ∧ s = s' := by simpa using hRun
    exact Std.Refl.refl s
  · contradiction

theorem Keeps.require (p : Prop) [Decidable p] (e : ε) :
    Keeps R (require p e : Op ε σ Unit) := by
  intro s r s' hRun
  rw [run_require] at hRun
  split at hRun
  · obtain ⟨-, rfl⟩ : Except.ok () = r ∧ s = s' := by simpa using hRun
    exact Std.Refl.refl s
  · obtain ⟨-, rfl⟩ : Except.error e = r ∧ s = s' := by simpa using hRun
    exact Std.Refl.refl s

theorem Keeps.get : Keeps R (get : Op ε σ σ) := by
  intro s r s' hRun
  obtain ⟨-, rfl⟩ : Except.ok s = r ∧ s = s' := by simpa [run, Op.get] using hRun
  exact Std.Refl.refl s

theorem Keeps.demand (o : Option α) : Keeps R (demand o : Op ε σ α) := by
  intro s r s' hRun
  cases o with
  | none => simp [run, Op.demand] at hRun
  | some a =>
    obtain ⟨-, rfl⟩ : Except.ok a = r ∧ s = s' := by simpa [run, Op.demand] using hRun
    exact Std.Refl.refl s

theorem Keeps.orElse (o : Option α) (e : ε) : Keeps R (orElse o e : Op ε σ α) := by
  intro s r s' hRun
  cases o with
  | none =>
    obtain ⟨-, rfl⟩ : Except.error e = r ∧ s = s' := by simpa [run, Op.orElse] using hRun
    exact Std.Refl.refl s
  | some a =>
    obtain ⟨-, rfl⟩ : Except.ok a = r ∧ s = s' := by simpa [run, Op.orElse] using hRun
    exact Std.Refl.refl s

theorem Keeps.bind {x : Op ε σ α} {f : α → Op ε σ β} (hx : Keeps R x)
    (hf : ∀ a, Keeps R (f a)) : Keeps R (x >>= f) := by
  intro s r s' hRun
  have hBind : Op.bind x f s = some (r, s') := hRun
  unfold Op.bind at hBind
  split at hBind
  · contradiction
  · rename_i e s₁ hFirst
    obtain ⟨-, rfl⟩ : Except.error e = r ∧ s₁ = s' := by simpa using hBind
    exact hx s (.error e) s₁ hFirst
  · rename_i a s₁ hFirst
    exact IsTrans.trans _ _ _ (hx s (.ok a) s₁ hFirst) (hf a s₁ r s' hBind)

theorem Keeps.cleanup {x : Op ε σ α} {undo : σ → σ} (hx : Keeps R x) (h : ∀ s, R s (undo s)) :
    Keeps R (Op.cleanup undo x) := by
  intro s r s' hRun
  simp only [run, Op.cleanup] at hRun
  split at hRun
  · cases hRun
  · rename_i s₁ hFirst
    obtain ⟨-, rfl⟩ := Prod.mk.inj (Option.some.inj hRun)
    exact IsTrans.trans _ _ _ (hx s _ s₁ hFirst) (h s₁)
  · rename_i s₁ hFirst
    obtain ⟨-, rfl⟩ := Prod.mk.inj (Option.some.inj hRun)
    exact hx s _ s₁ hFirst

end

/-! ## What a computation keeps from some states -/

/-- Every run of `x` from a state with `P` leads to a state related to that one. -/
def KeepsFrom (P : σ → Prop) (R : σ → σ → Prop) (x : Op ε σ α) : Prop :=
  ∀ s r s', P s → x.run s = some (r, s') → R s s'

/-- A property that no step of `R` loses. -/
class Stable (P : σ → Prop) (R : σ → σ → Prop) : Prop where
  stays : ∀ s s', R s s' → P s → P s'

section

variable {P Q : σ → Prop} {R : σ → σ → Prop}

theorem Keeps.from {x : Op ε σ α} (hx : Keeps R x) : KeepsFrom P R x := fun s r s' _ hRun => hx s r s' hRun

theorem KeepsFrom.mono {x : Op ε σ α} (hx : KeepsFrom P R x) (h : ∀ s, Q s → P s) :
    KeepsFrom Q R x := fun s r s' hs hRun => hx s r s' (h s hs) hRun

theorem KeepsFrom.weaken {R' : σ → σ → Prop} {x : Op ε σ α} (hx : KeepsFrom P R x)
    (h : ∀ s s', R s s' → R' s s') : KeepsFrom P R' x :=
  fun s r s' hs hRun => h s s' (hx s r s' hs hRun)

theorem KeepsFrom.ite {p : Prop} [Decidable p] {x y : Op ε σ α} (hx : p → KeepsFrom P R x)
    (hy : ¬ p → KeepsFrom P R y) : KeepsFrom P R (if p then x else y) := by
  split
  · exact hx ‹p›
  · exact hy ‹¬ p›

theorem KeepsFrom.failWith {δ : Type} {x : Op δ σ α} (hx : KeepsFrom P R x) (e : ε) :
    KeepsFrom P R (Op.failWith e x) := by
  intro s r s' hs hRun
  rw [run_failWith] at hRun
  split at hRun
  · cases hRun
  · rename_i hFirst
    obtain ⟨-, rfl⟩ := Prod.mk.inj (Option.some.inj hRun)
    exact hx s _ _ hs hFirst
  · rename_i hFirst
    obtain ⟨-, rfl⟩ := Prod.mk.inj (Option.some.inj hRun)
    exact hx s _ _ hs hFirst

theorem KeepsFrom.attempt {x : Op ε σ α} (hx : KeepsFrom P R x) : KeepsFrom P R (Op.attempt x) := by
  intro s r s' hs hRun
  obtain ⟨r₁, hFirst, -⟩ := attempt_some.mp hRun
  exact hx s r₁ s' hs hFirst

theorem KeepsFrom.getBind {f : σ → Op ε σ β} (hf : ∀ s, P s → KeepsFrom (· = s) R (f s)) :
    KeepsFrom P R (get >>= f) := by
  intro s r s' hs hRun
  exact hf s hs s r s' rfl hRun

theorem KeepsFrom.assertBind {p : Prop} [Decidable p] {f : Unit → Op ε σ β}
    (hf : p → KeepsFrom P R (f ())) : KeepsFrom P R (assert p >>= f) := by
  intro s r s' hs hRun
  rw [run_bind, run_assert] at hRun
  split at hRun
  · exact hf ‹p› s r s' hs hRun
  · cases hRun

theorem KeepsFrom.ofProp {p : Prop} {x : Op ε σ α} (hx : p → Keeps R x) : KeepsFrom (fun _ => p) R x :=
  fun s r s' hp hRun => hx hp s r s' hRun

variable [IsPreorder σ R]

/-- The rule of sequence, for what is known in between. -/
theorem KeepsFrom.seq {x : Op ε σ α} {f : α → Op ε σ β} (Q : α → σ → Prop)
    (hx : KeepsFrom P R x) (hQ : ∀ s a t, P s → x.run s = some (.ok a, t) → Q a t)
    (hf : ∀ a, KeepsFrom (Q a) R (f a)) : KeepsFrom P R (x >>= f) := by
  intro s r s' hs hRun
  rw [run_bind] at hRun
  cases hFirst : x.run s with
  | none =>
    rw [hFirst] at hRun
    cases hRun
  | some out =>
    obtain ⟨r₁, t⟩ := out
    rw [hFirst] at hRun
    cases r₁ with
    | error e =>
      obtain ⟨-, rfl⟩ := Prod.mk.inj (Option.some.inj hRun)
      exact hx s _ _ hs hFirst
    | ok a => exact IsTrans.trans _ _ _ (hx s _ _ hs hFirst) (hf a t r s' (hQ s a t hs hFirst) hRun)

theorem KeepsFrom.bind [Stable P R] {x : Op ε σ α} {f : α → Op ε σ β} (hx : KeepsFrom P R x)
    (hf : ∀ a, KeepsFrom P R (f a)) : KeepsFrom P R (x >>= f) :=
  .seq (fun _ => P) hx (fun s _ t hs hRun => Stable.stays s t (hx s _ t hs hRun) hs) hf

theorem KeepsFrom.requireBind {p : Prop} [Decidable p] {e : ε} {f : Unit → Op ε σ β}
    (hf : p → KeepsFrom P R (f ())) : KeepsFrom P R (require p e >>= f) := by
  intro s r s' hs hRun
  rw [run_bind, run_require] at hRun
  split at hRun
  · exact hf ‹p› s r s' hs hRun
  · obtain ⟨-, rfl⟩ := Prod.mk.inj (Option.some.inj hRun)
    exact Std.Refl.refl s

end

end Op
