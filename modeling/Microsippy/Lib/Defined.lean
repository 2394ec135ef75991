import Microsippy.Lib.Op

/-! # Computations that no assertion stops from some states

The rules by which a computation gets through from the states with a property, and for a property that
it does not lose.
-/

set_option autoImplicit false

namespace Op

variable {ε σ τ α β : Type} {P Q : σ → Prop}

/-! ## Properties that are not lost -/

/-- A property that is there afterwards if it was there before. -/
def Implies (P : σ → Prop) (s s' : σ) : Prop := P s → P s'

instance (P : σ → Prop) : IsPreorder σ (Implies P) where
  refl _ := id
  trans _ _ _ h h' := h' ∘ h

theorem KeepsFrom.always {R : σ → σ → Prop} {x : Op ε σ α} (hx : KeepsFrom (fun _ => True) R x) : Keeps R x :=
  fun s r s' hRun => hx s r s' trivial hRun

theorem Keeps.holds {x : Op ε σ α} (hx : Keeps (Implies P) x) {s s' : σ} {r : Except ε α} (hs : P s)
    (hRun : x.run s = some (r, s')) : P s' := hx s r s' hRun hs

/-- A property that the first part brings about and the rest does not lose. -/
theorem holds_bind {x : Op ε σ α} {f : α → Op ε σ β} {s t : σ} {r : Except ε β}
    (hRun : (x >>= f).run s = some (r, t)) (hx : ∀ r' t', x.run s = some (r', t') → P t')
    (hf : ∀ a, Keeps (Implies P) (f a)) : P t := by
  rw [run_bind] at hRun
  cases hFirst : x.run s with
  | none =>
    rw [hFirst] at hRun
    cases hRun
  | some out =>
    obtain ⟨r', t'⟩ := out
    rw [hFirst] at hRun
    have hThere : P t' := hx _ _ hFirst
    cases r' with
    | error e =>
      obtain ⟨-, rfl⟩ := Prod.mk.inj (Option.some.inj hRun)
      exact hThere
    | ok a => exact (hf a).holds hThere hRun

/-- One run of a computation. -/
theorem Keeps.of_run {R : σ → σ → Prop} {x : Op ε σ α} {s s' : σ} {r : Except ε α}
    (hRun : x.run s = some (r, s')) (hx : Keeps R x) : R s s' := hx s r s' hRun

/-! ## Getting through -/

/-- No assertion stops a computation in a state with the property. -/
def Defined (P : σ → Prop) (x : Op ε σ α) : Prop := ∀ s, P s → x.run s ≠ none

theorem Total.of_defined {x : Op ε σ α} (hx : Defined (fun _ => True) x) : Total x := fun s => hx s trivial

theorem Total.defined {x : Op ε σ α} (hx : Total x) : Defined P x := fun s _ => hx s

theorem Defined.weaken {x : Op ε σ α} (hx : Defined P x) (h : ∀ s, Q s → P s) : Defined Q x :=
  fun s hs => hx s (h s hs)

theorem Defined.assert {p : Prop} [Decidable p] (h : ∀ s, P s → p) :
    Defined P (assert p : Op ε σ Unit) := by
  intro s hs
  rw [run_assert, if_pos (h s hs)]
  exact Option.some_ne_none _

theorem Defined.demand {o : Option α} (h : ∀ s, P s → o.isSome) :
    Defined P (demand o : Op ε σ α) := by
  intro s hs
  obtain ⟨a, rfl⟩ := Option.isSome_iff_exists.mp (h s hs)
  exact Option.some_ne_none _

/-- The rule of sequence, for what is known in between. -/
theorem Defined.seq {x : Op ε σ α} {f : α → Op ε σ β} (R : α → σ → Prop) (hx : Defined P x)
    (hR : ∀ s a t, P s → x.run s = some (.ok a, t) → R a t) (hf : ∀ a, Defined (R a) (f a)) :
    Defined P (x >>= f) := by
  intro s hs
  rw [run_bind]
  cases hRun : x.run s with
  | none => exact absurd hRun (hx s hs)
  | some out =>
    obtain ⟨r, t⟩ := out
    cases r with
    | error e => exact Option.some_ne_none _
    | ok a => exact hf a t (hR s a t hs hRun)

/-- The same for a property that is not lost. -/
theorem Defined.bind {x : Op ε σ α} {f : α → Op ε σ β} (hx : Defined P x) (hKeeps : Keeps (Implies P) x)
    (hf : ∀ a, Defined P (f a)) : Defined P (x >>= f) :=
  .seq (fun _ => P) hx (fun _ _ _ hs hRun => hKeeps.holds hs hRun) hf

theorem Defined.getBind {f : σ → Op ε σ β} (hf : ∀ s, P s → Defined (· = s) (f s)) :
    Defined P (get >>= f) := fun s hs => hf s hs s rfl

theorem Defined.failWith {δ : Type} {x : Op δ σ α} (hx : Defined P x) (e : ε) :
    Defined P (failWith e x) := by
  intro s hs
  rw [run_failWith]
  split
  · exact fun _ => hx s hs ‹_›
  · exact Option.some_ne_none _
  · exact Option.some_ne_none _

theorem Defined.zoom {P : τ → Prop} {x : Op ε τ α} (hx : Defined P x) (part : σ → τ)
    (put : τ → σ → σ) : Defined (fun s => P (part s)) (zoom part put x) := by
  intro s hs
  simp only [run, Op.zoom]
  split
  · exact fun _ => hx (part s) hs ‹_›
  · exact Option.some_ne_none _

theorem Defined.cleanup {x : Op ε σ α} (hx : Defined P x) (undo : σ → σ) :
    Defined P (cleanup undo x) := by
  intro s hs
  simp only [run, Op.cleanup]
  split
  · exact fun _ => hx s hs ‹_›
  · exact Option.some_ne_none _
  · exact Option.some_ne_none _

theorem Defined.attempt {x : Op ε σ α} (hx : Defined P x) : Defined P (attempt x) := by
  intro s hs hNone
  rw [run, Op.attempt, Option.map_eq_none_iff] at hNone
  exact hx s hs hNone

theorem Total.demand {o : Option α} (h : o.isSome) : Total (demand o : Op ε σ α) :=
  .of_defined (.demand fun _ _ => h)

theorem Total.cleanup {x : Op ε σ α} (hx : Total x) (undo : σ → σ) : Total (cleanup undo x) :=
  .of_defined (hx.defined.cleanup undo)

theorem Total.attempt {x : Op ε σ α} (hx : Total x) : Total (attempt x) := .of_defined hx.defined.attempt

theorem Total.ite {p : Prop} [Decidable p] {x y : Op ε σ α} (hx : Total x) (hy : Total y) :
    Total (if p then x else y) := by
  split
  · exact hx
  · exact hy

theorem Defined.ite {p : Prop} [Decidable p] {x y : Op ε σ α} (hx : p → Defined P x)
    (hy : ¬ p → Defined P y) : Defined P (if p then x else y) := by
  split
  · exact hx ‹p›
  · exact hy ‹¬ p›

end Op
