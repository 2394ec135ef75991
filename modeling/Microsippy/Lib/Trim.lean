import Mathlib.Data.List.DropRight
import Mathlib.Data.List.TakeWhile

/-! # Trimming lists

What is left of a list when elements of a kind are dropped at its two ends.
-/

namespace Trim

set_option autoImplicit false

variable {α : Type} {p : α → Bool} {d : α} {x y w : List α}

/-- An element of another kind stops the dropping. -/
theorem dropWhile_append_cons (h : p d = false) :
    (x ++ d :: y).dropWhile p = x.dropWhile p ++ d :: y := by
  induction x with
  | nil => exact List.dropWhile_cons_of_neg (Bool.eq_false_iff.mp h)
  | cons c x ih =>
    rw [List.cons_append, List.dropWhile_cons, List.dropWhile_cons]
    split
    · exact ih
    · rfl

theorem rdropWhile_append_cons (h : p d = false) :
    (x ++ d :: y).rdropWhile p = x ++ d :: y.rdropWhile p := by
  rw [List.rdropWhile, List.reverse_append, List.reverse_cons, List.append_assoc, List.singleton_append,
    dropWhile_append_cons h, List.reverse_append, List.reverse_cons, List.reverse_reverse, List.append_assoc]
  rfl

theorem rdropWhile_append_of_all (h : ∀ c ∈ w, p c = true) : (x ++ w).rdropWhile p = x.rdropWhile p := by
  rw [List.rdropWhile, List.reverse_append,
    List.dropWhile_append_of_pos fun c hc => h c (List.mem_reverse.mp hc)]
  rfl

theorem mem_of_dropWhile {c : α} (h : c ∈ x.dropWhile p) : c ∈ x := (List.dropWhile_sublist p).subset h

theorem mem_of_rdropWhile {c : α} (h : c ∈ x.rdropWhile p) : c ∈ x := (List.rdropWhile_prefix p x).subset h

/-- What is not dropped is still there. -/
theorem count_dropWhile [BEq α] [LawfulBEq α] {c : α} (h : p c = false) (x : List α) :
    (x.dropWhile p).count c = x.count c := by
  induction x with
  | nil => rfl
  | cons b x ih =>
    rw [List.dropWhile_cons]
    split
    · rename_i hb
      have hNe : b ≠ c := by
        rintro rfl
        rw [hb] at h
        cases h
      rw [List.count_cons_of_ne hNe, ih]
    · rfl

theorem count_rdropWhile [BEq α] [LawfulBEq α] {c : α} (h : p c = false) (x : List α) :
    (x.rdropWhile p).count c = x.count c := by
  rw [List.rdropWhile, List.count_reverse, count_dropWhile h, List.count_reverse]

/-- A list is dropped whole, or some element stops the dropping. -/
theorem all_or_stop (p : α → Bool) (x : List α) :
    (∀ c ∈ x, p c = true) ∨ ∃ a d b, x = a ++ d :: b ∧ (∀ c ∈ a, p c = true) ∧ p d = false := by
  induction x with
  | nil => exact Or.inl fun c hc => absurd hc List.not_mem_nil
  | cons c x ih =>
    cases hc : p c with
    | false => exact Or.inr ⟨[], c, x, rfl, fun _ h => absurd h List.not_mem_nil, hc⟩
    | true =>
      obtain hAll | ⟨a, d, b, rfl, hAll, hStop⟩ := ih
      · exact Or.inl (List.forall_mem_cons.mpr ⟨hc, hAll⟩)
      · exact Or.inr ⟨c :: a, d, b, rfl, List.forall_mem_cons.mpr ⟨hc, hAll⟩, hStop⟩

/-- It does not matter which end is trimmed first. -/
theorem trim_comm : (x.dropWhile p).rdropWhile p = (x.rdropWhile p).dropWhile p := by
  obtain hAll | ⟨a, d, b, rfl, hAll, hStop⟩ := all_or_stop p x
  · rw [List.dropWhile_eq_nil_iff.mpr hAll, List.rdropWhile_eq_nil_iff.mpr hAll]
    rfl
  · rw [dropWhile_append_cons hStop, rdropWhile_append_cons hStop, rdropWhile_append_cons hStop,
      dropWhile_append_cons hStop]

/-- What is trimmed has no element of the kind at its ends. -/
theorem ends_trim (p : α → Bool) (x : List α) :
    (∀ c ∈ ((x.dropWhile p).rdropWhile p).head?, p c = false) ∧
      ∀ c ∈ ((x.dropWhile p).rdropWhile p).getLast?, p c = false := by
  constructor
  · intro c hc
    have hFirst := List.head?_dropWhile_not p (x.rdropWhile p)
    rw [trim_comm] at hc
    rw [hc] at hFirst
    exact hFirst
  · intro c hc
    obtain ⟨hSome, rfl⟩ := List.mem_getLast?_eq_getLast hc
    exact Bool.eq_false_iff.mpr (List.rdropWhile_last_not p _ hSome)

theorem trim_eq_self (hFirst : ∀ c ∈ x.head?, p c = false) (hLast : ∀ c ∈ x.getLast?, p c = false) :
    (x.dropWhile p).rdropWhile p = x := by
  cases x with
  | nil => rfl
  | cons c x =>
    rw [List.dropWhile_cons_of_neg (Bool.eq_false_iff.mp (hFirst c rfl)), List.rdropWhile_eq_self_iff]
    intro hSome
    exact Bool.eq_false_iff.mp (hLast _ (List.getLast?_eq_some_getLast hSome))

theorem dropWhile_false : x.dropWhile (fun _ => false) = x := by
  cases x <;> rfl

theorem rdropWhile_false : x.rdropWhile (fun _ => false) = x := by
  rw [List.rdropWhile, dropWhile_false, List.reverse_reverse]

end Trim
