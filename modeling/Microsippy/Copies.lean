import Mathlib.Data.List.Forall2
import Microsippy.Hdr

/-! # Parsing a copy

Two views of the same bytes are taken apart in the same way, wherever the bytes are stored.
-/

namespace Microsippy

set_option autoImplicit false

/-- Two views of the same bytes. -/
def Same (m m' : Mem) (x y : Str) : Prop := m.read x = m'.read y

section

variable {m m' : Mem} {x y : Str}

theorem Same.l_eq (h : Same m m' x y) : x.l = y.l := by
  rw [← Mem.length_read m x, ← Mem.length_read m' y, h]

theorem Same.chr_eq (h : Same m m' x y) (dlm : UInt8) : x.chr m dlm = y.chr m' dlm := by
  rw [Str.chr, Str.chr, h]

theorem Same.part (h : Same m m' x y) {k l : Nat} (hWithin : k + l ≤ x.l) :
    Same m m' ⟨x.src, x.off + k, l⟩ ⟨y.src, y.off + k, l⟩ := by
  rw [Same, Mem.read_part m x hWithin, Mem.read_part m' y (h.l_eq ▸ hWithin), h]

theorem Same.sub (h : Same m m' x y) {k l : Nat} (hWithin : k + l ≤ x.l) :
    Same m m' (x.sub k l) (y.sub k l) := by
  rw [Same, Mem.read_sub m x hWithin, Mem.read_sub m' y (h.l_eq ▸ hWithin), h]

theorem Same.ltrmE (h : Same m m' x y) : Same m m' (x.ltrmE m) (y.ltrmE m') := by
  rw [Str.ltrmE, Str.ltrmE, h, h.l_eq]
  have hPart := h.part (k := 0) (l := y.l - ((m'.read y).reverse.takeWhile Str.isLws).length)
    (by rw [h.l_eq]; omega)
  exact hPart

theorem Same.ltrmB (h : Same m m' x y) : Same m m' (x.ltrmB m) (y.ltrmB m') := by
  have hLe : ((m'.read y).takeWhile Str.isLws).length ≤ (m'.read y).length :=
    (List.takeWhile_sublist _).length_le
  rw [Mem.length_read] at hLe
  rw [Str.ltrmB, Str.ltrmB, h, h.l_eq]
  exact h.part (by rw [h.l_eq]; omega)

theorem Same.orNull (h : Same m m' x y) :
    Same m m' (if x.l = 0 then Str.null else x) (if y.l = 0 then Str.null else y) := by
  rw [h.l_eq]
  split
  · rfl
  · exact h

theorem chr_lt_l {dlm : UInt8} {r : Nat} (h : x.chr m dlm = some r) : r < x.l := by
  obtain ⟨hLt, -⟩ := List.findIdx?_eq_some_iff_getElem.mp h
  rwa [Mem.length_read] at hLt

/-- What two views are split into. -/
def SamePair (m m' : Mem) (p q : Str × Str) : Prop := Same m m' p.1 q.1 ∧ Same m m' p.2 q.2

theorem Same.split (h : Same m m' x y) (dlm : UInt8) :
    Option.Rel (SamePair m m') (x.split m dlm) (y.split m' dlm) := by
  rw [Str.split, Str.split, ← h.chr_eq]
  cases hAt : x.chr m dlm with
  | none => exact .none
  | some r =>
    have hLt := chr_lt_l hAt
    rw [← h.l_eq]
    exact .some ⟨h.sub (by omega), h.sub (by omega)⟩

theorem Same.splitElem (h : Same m m' x y) (dlm : UInt8) :
    Option.Rel (SamePair m m') (x.splitElem m dlm) (y.splitElem m' dlm) := by
  rw [Str.splitElem, Str.splitElem, ← h.chr_eq]
  cases hAt : x.chr m dlm with
  | none => exact .none
  | some r =>
    have hLt := chr_lt_l hAt
    have hLeft : Same m m' ⟨x.src, x.off, r⟩ ⟨y.src, y.off, r⟩ := h.part (k := 0) (by omega)
    have hRight : Same m m' ⟨x.src, x.off + r + 1, x.l - r - 1⟩ ⟨y.src, y.off + r + 1, y.l - r - 1⟩ := by
      rw [← h.l_eq]
      exact h.part (k := r + 1) (by omega)
    exact .some ⟨hLeft.ltrmE.orNull, hRight.ltrmB.orNull⟩

theorem Same.atouiRange (h : Same m m' x y) (min max : UInt32) :
    x.atouiRange m min max = y.atouiRange m' min max := by
  rw [Str.atouiRange, Str.atouiRange, h]

theorem Same.tvPair (h : Same m m' x y) : Same m m' (tvPair m x).token (tvPair m' y).token := by
  have hSplit := h.split (ch '=')
  rw [Microsippy.tvPair, Microsippy.tvPair]
  cases hx : x.split m (ch '=') with
  | none =>
    cases hy : y.split m' (ch '=') with
    | none => exact h
    | some q => rw [hx, hy] at hSplit; cases hSplit
  | some p =>
    cases hy : y.split m' (ch '=') with
    | none => rw [hx, hy] at hSplit; cases hSplit
    | some q =>
      rw [hx, hy] at hSplit
      cases hSplit with
      | some hPair => exact hPair.1

end

/-- The elements of two lists. -/
theorem Same.elems {m m' : Mem} {next next' : Str → Option (Str × Str)}
    (hNext : ∀ x y, Same m m' x y → Option.Rel (SamePair m m') (next x) (next' y)) {x y : Str}
    (h : Same m m' x y) (fuel : Nat) :
    List.Forall₂ (Same m m') (elems next fuel x) (elems next' fuel y) := by
  induction fuel generalizing x y with
  | zero => exact .nil
  | succ fuel ih =>
    have hRel := hNext x y h
    rw [Microsippy.elems, Microsippy.elems, h.l_eq]
    split
    · exact .nil
    · cases hx : next x with
      | none =>
        cases hy : next' y with
        | none => exact .cons h .nil
        | some q => rw [hx, hy] at hRel; cases hRel
      | some p =>
        cases hy : next' y with
        | none => rw [hx, hy] at hRel; cases hRel
        | some q =>
          rw [hx, hy] at hRel
          cases hRel with
          | some hPair => exact .cons hPair.1 (ih hPair.2)

namespace Uri

variable {m m' : Mem} {x y : Str}

theorem splitUser_same (h : Same m m' x y) :
    Same m m' (splitUser m x).2.2 (splitUser m' y).2.2 := by
  have hSplit := h.split (ch '@')
  rw [splitUser, splitUser, Str.splitElemNlws, Str.splitElemNlws]
  cases hx : x.split m (ch '@') with
  | none =>
    cases hy : y.split m' (ch '@') with
    | none => exact h
    | some q => rw [hx, hy] at hSplit; cases hSplit
  | some p =>
    cases hy : y.split m' (ch '@') with
    | none => rw [hx, hy] at hSplit; cases hSplit
    | some q =>
      rw [hx, hy] at hSplit
      cases hSplit with
      | some hPair =>
        simp only
        split <;> split <;> exact hPair.2

theorem splitSpaces_same (h : Same m m' x y) :
    SamePair m m' ((splitSpaces m x).1, (splitSpaces m x).2.1)
      ((splitSpaces m' y).1, (splitSpaces m' y).2.1) := by
  have hHdrs (x y : Str) (h : Same m m' x y) : Option.Rel (SamePair m m') (x.split m (ch '?'))
      (y.split m' (ch '?')) := h.split _
  have hSplit := h.split (ch ';')
  rw [splitSpaces, splitSpaces]
  simp only [Str.splitElemNlws]
  cases hx : x.split m (ch ';') with
  | none =>
    cases hy : y.split m' (ch ';') with
    | none =>
      have hRel := hHdrs x y h
      cases hx' : x.split m (ch '?') <;> cases hy' : y.split m' (ch '?') <;>
        rw [hx', hy'] at hRel <;> cases hRel
      · exact ⟨h, rfl⟩
      · rename_i hPair
        exact ⟨hPair.1, rfl⟩
    | some q => rw [hx, hy] at hSplit; cases hSplit
  | some p =>
    cases hy : y.split m' (ch ';') with
    | none => rw [hx, hy] at hSplit; cases hSplit
    | some q =>
      rw [hx, hy] at hSplit
      cases hSplit with
      | some hPair =>
        have hRel := hHdrs p.2 q.2 hPair.2
        simp only
        cases hx' : p.2.split m (ch '?') <;> cases hy' : q.2.split m' (ch '?') <;>
          rw [hx', hy'] at hRel <;> cases hRel
        · exact hPair
        · rename_i hRest
          exact ⟨hPair.1, hRest.1⟩

theorem splitPort_same (h : Same m m' x y) :
    (splitPort m x).isSome = (splitPort m' y).isSome := by
  have hSplit := h.split (ch ':')
  rw [splitPort, splitPort, Str.splitElemNlws, Str.splitElemNlws]
  cases hx : x.split m (ch ':') with
  | none =>
    cases hy : y.split m' (ch ':') with
    | none => rfl
    | some q => rw [hx, hy] at hSplit; cases hSplit
  | some p =>
    cases hy : y.split m' (ch ':') with
    | none => rw [hx, hy] at hSplit; cases hSplit
    | some q =>
      rw [hx, hy] at hSplit
      cases hSplit with
      | some hPair => simp [hPair.2.atouiRange]

/-- The parameters of a URI and of its copy have the same names. -/
theorem parseParts_same (h : Same m m' x y) :
    Option.Rel (fun up up' => List.Forall₂ (fun p q => Same m m' p.token q.token)
      up.parameters up'.parameters) (parseParts m x) (parseParts m' y) := by
  have hSplit := h.split (ch ':')
  rw [parseParts, parseParts, Str.splitElemNlws, Str.splitElemNlws]
  cases hx : x.split m (ch ':') with
  | none =>
    cases hy : y.split m' (ch ':') with
    | none => exact .none
    | some q => rw [hx, hy] at hSplit; cases hSplit
  | some p =>
    cases hy : y.split m' (ch ':') with
    | none => rw [hx, hy] at hSplit; cases hSplit
    | some q =>
      rw [hx, hy] at hSplit
      cases hSplit with
      | some hPair =>
        obtain ⟨hPnum, hSpace⟩ := splitSpaces_same (splitUser_same hPair.2)
        have hPort := splitPort_same hPnum
        have hLength := hPnum.l_eq
        simp only [Option.bind_eq_bind, Option.bind_some] at hPort hLength ⊢
        rw [hLength]
        split
        · exact .none
        · cases hx' : splitPort m (splitSpaces m (splitUser m p.2).2.2).1 <;>
            cases hy' : splitPort m' (splitSpaces m' (splitUser m' q.2).2.2).1 <;>
            rw [hx', hy'] at hPort
          · exact .none
          · cases hPort
          · cases hPort
          · refine .some ?_
            simp only [pairs]
            rw [List.forall₂_map_left_iff, List.forall₂_map_right_iff, hSpace.l_eq]
            exact (Same.elems (fun x y h => h.split _) hSpace _).imp fun _ _ h => h.tvPair

end Uri

theorem NameAddr.parseParts_same {m m' : Mem} {x y : Str} (h : Same m m' x y) :
    Option.Rel (fun n n' => Same m m' n.addr_spec n'.addr_spec) (parseParts m x)
      (parseParts m' y) := by
  have hSplit := h.splitElem (ch '<')
  rw [parseParts, parseParts]
  cases hx : x.splitElem m (ch '<') with
  | none =>
    cases hy : y.splitElem m' (ch '<') with
    | none =>
      have hParams := h.splitElem (ch ';')
      cases hx' : x.splitElem m (ch ';') <;> cases hy' : y.splitElem m' (ch ';') <;>
        rw [hx', hy'] at hParams <;> cases hParams
      · exact .some h
      · rename_i hPair
        exact .some hPair.1
    | some q => rw [hx, hy] at hSplit; cases hSplit
  | some p =>
    cases hy : y.splitElem m' (ch '<') with
    | none => rw [hx, hy] at hSplit; cases hSplit
    | some q =>
      rw [hx, hy] at hSplit
      cases hSplit with
      | some hPair =>
        have hAddr := hPair.2.splitElem (ch '>')
        simp only
        cases hx' : p.2.splitElem m (ch '>') <;> cases hy' : q.2.splitElem m' (ch '>') <;>
          rw [hx', hy'] at hAddr <;> cases hAddr
        · exact .none
        · rename_i hRest
          obtain ⟨hSpec, hIup⟩ := hRest
          simp only [Option.bind_eq_bind, hIup.l_eq]
          split
          · exact .some hSpec
          · have hHead := congrArg List.head? hIup
            rw [hHead]
            split
            · exact .none
            · exact .some hSpec

end Microsippy
