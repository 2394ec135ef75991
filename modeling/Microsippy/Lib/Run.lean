import Mathlib.Logic.Basic

/-! # Runs of a transition system

A deterministic step function over labels, the runs whose steps all meet a condition, and the rule
that what every such step preserves holds in every state of such a run.
-/

set_option autoImplicit false

namespace Transition

variable {S L : Type} (step : S → L → Option S)

/-- The states a run from `s` reaches by steps that meet `ok`. -/
inductive Run (ok : S → L → Prop) (s : S) : S → Prop where
  | refl : Run ok s s
  | snoc {t u : S} {l : L} : Run ok s t → ok t l → step t l = some u → Run ok s u

/-- The labels one after the other. -/
def exec (s : S) : List L → Option S
  | [] => some s
  | l :: ls => (step s l).bind fun t => exec t ls

variable {step}

theorem Run.mono {ok ok' : S → L → Prop} (h : ∀ s l, ok s l → ok' s l) {s t : S}
    (hRun : Run step ok s t) : Run step ok' s t := by
  induction hRun with
  | refl => exact .refl
  | snoc _ hOk hStep ih => exact .snoc ih (h _ _ hOk) hStep

theorem Run.trans {ok : S → L → Prop} {s t u : S} (hFirst : Run step ok s t)
    (hRest : Run step ok t u) : Run step ok s u := by
  induction hRest with
  | refl => exact hFirst
  | snoc _ hOk hStep ih => exact .snoc ih hOk hStep

theorem Run.invariant {ok : S → L → Prop} {Inv : S → Prop}
    (hStep : ∀ s l t, Inv s → ok s l → step s l = some t → Inv t) {s t : S}
    (hRun : Run step ok s t) (hInit : Inv s) : Inv t := by
  induction hRun with
  | refl => exact hInit
  | snoc _ hOk hNext ih => exact hStep _ _ _ ih hOk hNext

theorem exec_append {s t : S} {ls ls' : List L} :
    exec step s (ls ++ ls') = some t ↔ ∃ u, exec step s ls = some u ∧ exec step u ls' = some t := by
  induction ls generalizing s with
  | nil => simp only [List.nil_append, exec, Option.some.injEq, exists_eq_left']
  | cons l ls ih =>
    simp only [List.cons_append, exec, Option.bind_eq_some_iff, ih]
    constructor
    · rintro ⟨r, hStep, u, hFirst, hRest⟩
      exact ⟨u, ⟨r, hStep, hFirst⟩, hRest⟩
    · rintro ⟨u, ⟨r, hStep, hFirst⟩, hRest⟩
      exact ⟨r, hStep, u, hFirst, hRest⟩

theorem exec_run_of {ok : S → L → Prop} {s t : S} {ls : List L} (h : ∀ s, ∀ l ∈ ls, ok s l)
    (hExec : exec step s ls = some t) : Run step ok s t := by
  induction ls generalizing s with
  | nil =>
    obtain rfl := Option.some.inj hExec
    exact .refl
  | cons l ls ih =>
    obtain ⟨u, hStep, hRest⟩ := Option.bind_eq_some_iff.mp hExec
    have hFirst : Run step ok s u := .snoc .refl (h s l List.mem_cons_self) hStep
    exact hFirst.trans (ih (fun s l hl => h s l (List.mem_cons_of_mem _ hl)) hRest)

theorem exec_run {ok : S → L → Prop} (h : ∀ s l, ok s l) {s t : S} {ls : List L}
    (hExec : exec step s ls = some t) : Run step ok s t := exec_run_of (fun s l _ => h s l) hExec

/-- The labels one after the other, as long as a test of each step holds. -/
def execWhile (step : S → L → Option S) (test : S → L → Bool) (s : S) : List L → Option S
  | [] => some s
  | l :: ls => if test s l then (step s l).bind fun t => execWhile step test t ls else none

theorem execWhile_run {ok : S → L → Prop} {test : S → L → Bool} (h : ∀ s l, test s l = true → ok s l)
    {s t : S} {ls : List L} (hExec : execWhile step test s ls = some t) : Run step ok s t := by
  induction ls generalizing s with
  | nil =>
    obtain rfl := Option.some.inj hExec
    exact .refl
  | cons l ls ih =>
    rw [execWhile] at hExec
    split at hExec
    · rename_i hTest
      obtain ⟨u, hStep, hRest⟩ := Option.bind_eq_some_iff.mp hExec
      have hFirst : Run step ok s u := .snoc .refl (h s l hTest) hStep
      exact hFirst.trans (ih hRest)
    · cases hExec

end Transition
